import QmlDoc.CommandLine
import QmlDoc.Document
import QmlDoc.Identity
import QmlDoc.Text.Basic

set_option autoImplicit false

namespace QmlDoc.Filter

/-- How a run ends. -/
inductive Ending
  /-- The file was dealt with; the code is zero unless it could not be read. -/
  | finished (code : Int)
  /-- The command line asked for no file. -/
  | left (code : Nat)
  | failed (failure : Failure)
  deriving Repr

/-- What a run leaves behind: the generated text, what it shows besides, what it
complains of, and what it reports. -/
structure Report where
  ending : Ending
  output : String := ""
  shown : String := ""
  complaint : String := ""
  notices : List Notice := []

def readText (disk : Disk) (file : String) : Except Failure String :=
  match disk.read file with
  | .error error => .error (.file error)
  | .ok bytes =>
      match Text.decode (Text.dropMark bytes) with
      | .error error => .error (.decode error)
      | .ok text => .ok text

def emptyDocument (options : Options) (identity : Identity) : Document :=
  { info := {
      name := identity.name
      version := if options.noSinceVersion then none else identity.version
      moduleName := some identity.moduleName
      separateBlocks := !options.noNestedComponents } }

/-- The notices for a file that does not have the form of a QML file: the error, and
where in the text it arose. -/
def complain (file text : String) (error : ReadError) (token : Token) : List Notice :=
  [.unreadable file,
    .fault (Text.row text.toList token.idx) error.message
      (String.ofList (Text.excerptAt text.toList token.idx))]

def write (shown : String) (document : Document) : Report :=
  let result := document.print
  match result.outcome with
  | .ok output =>
      { ending := .finished 0, output := output ++ "\n", shown, notices := result.notices }
  | .error error => { ending := .failed (.pattern error), shown, notices := result.notices }

def readAndWrite (options : Options) (text shown : String) (tokens : List Token)
    (identity : Identity) : Report :=
  let parsed := (emptyDocument options identity).read (!options.noNestedComponents) tokens
  match parsed.error with
  | none => write shown parsed.document
  | some error =>
      match error.token? with
      | none => { ending := .failed (.read error), shown }
      | some token =>
          { ending := if options.debug then .failed (.read error) else .finished (-1)
            shown
            notices := complain options.file text error token }

/-- Deals with one file. An internal type has no output; for any other one all namespaces
need names. -/
def document (disk : Disk) (options : Options) : Report :=
  match readText disk options.file with
  | .error failure => { ending := .failed failure }
  | .ok text =>
      let arranged := Token.tokenize text
      match arranged.error with
      | some error => { ending := .failed (.lex error) }
      | none =>
          let shown :=
            if options.debug then
              String.join (arranged.tokens.map fun token => token.listing ++ "\n")
            else ""
          match Identity.ofFile disk options.namespaces options.file, options.unnamed with
          | .error failure, _ => { ending := .failed failure, shown }
          | .ok none, _ => { ending := .finished 0, shown }
          | .ok (some _), some place => { ending := .failed (.unnamed place), shown }
          | .ok (some identity), none =>
              readAndWrite options text shown arranged.tokens identity

def run (disk : Disk) (args : List String) : Report :=
  match CommandLine.parse args with
  | .document options => document disk options
  | .showHelp => { ending := .left 0, shown := CommandLine.help }
  | .showVersion => { ending := .left 0, shown := CommandLine.versionText }
  | .refuse error => { ending := .left 2, complaint := CommandLine.refusal error }

end QmlDoc.Filter
