import QmlDoc.Element.Basic
import QmlDoc.Element.Printer
import QmlDoc.Element.Reader
import QmlDoc.Pattern.Replace
import QmlDoc.Text.Basic

set_option autoImplicit false

namespace QmlDoc

/-- The type that a file defines. An alias is a short name for an imported module,
written in front of the names that come from it. -/
structure Document where
  info : TypeInfo
  imports : List String := []
  aliases : List (String × String) := []
  elements : List Element := []
  footerComments : List String := []
  deriving Repr

/-- Gives the alias `short` the meaning `name`. A known alias keeps its place. -/
def setAlias (short name : String) : List (String × String) → List (String × String)
  | [] => [(short, name)]
  | (known, meaning) :: later =>
      if known = short then (known, name) :: later
      else (known, meaning) :: setAlias short name later

namespace Document

def addHeaderComment (doc : Document) (comment : String) : Document :=
  { doc with info := { doc.info with headerComments := doc.info.headerComments ++ [comment] } }

def addFooterComment (doc : Document) (comment : String) : Document :=
  { doc with footerComments := doc.footerComments ++ [comment] }

def singletonComment : String :=
  "/** @remark This component is a singleton */"

end Document

/-- The word behind the first `as`: nothing without an `as`, an error if `as` is the
last word. -/
def aliasWord : List String → Except ReadError (Option String)
  | [] => .ok none
  | word :: later =>
      if word = "as" then
        match later with
        | [] => .error .noWord
        | short :: _ => .ok (some short)
      else aliasWord later

namespace Document

/-- Takes in an import line. A quoted name is a directory or a script and is
passed over; any other is a module, perhaps with an alias. -/
def addImport (doc : Document) (line : String) : Except ReadError Document :=
  let words := (Text.words line.toList).map String.ofList
  match words with
  | _ :: name :: _ =>
      if Text.startsWith name "\"" then .ok doc
      else
        match aliasWord words with
        | .error error => .error error
        | .ok none => .ok { doc with imports := doc.imports ++ [name] }
        | .ok (some short) =>
            .ok { doc with
              aliases := setAlias short name doc.aliases
              imports := doc.imports ++ [name] }
  | _ => .error .noWord

/-- Takes in a pragma line. What stands between its first and its second space is the
name of the pragma, and only `singleton`, in any case, means something. -/
def addPragma (doc : Document) (line : String) : Except ReadError Document :=
  match line.toList.splitOn ' ' with
  | _ :: name :: _ =>
      if (Text.trim name).map Char.toLower = "singleton".toList then
        .ok (doc.addHeaderComment singletonComment)
      else .ok doc
  | _ => .error .noWord

/-- A document as far as it could be read, the error that ended it, if any, and where
reading stopped. -/
structure Parsed where
  document : Document
  error : Option ReadError
  reader : Reader

/-- One token of the header, which holds comments, imports and pragmas, and whether the header
goes on behind it. It ends with the name of the base type. -/
def takeHeader (doc : Document) (token : Token) : Except ReadError (Document × Bool) :=
  match token.kind with
  | .comment | .inlineComment => .ok (doc.addHeaderComment token.value, true)
  | .importLine => (doc.addImport token.value).map (·, true)
  | .pragmaLine => (doc.addPragma token.value).map (·, true)
  | .component => .ok ({ doc with info := { doc.info with baseName := token.value } }, false)
  | _ => .error (.unexpected token)

/-- One token of the footer, which holds comments. -/
def takeFooter (doc : Document) (token : Token) : Except ReadError (Document × Bool) :=
  if token.isComment then .ok (doc.addFooterComment token.value, true)
  else .error (.unexpected token)

/-- Takes in one token after the other, up to the end of the tokens at most. -/
def takeFrom (doc : Document) (take : Document → Token → Except ReadError (Document × Bool))
    (idx : Nat) : List Token → Parsed
  | [] => ⟨doc, none, ⟨[], idx⟩⟩
  | token :: rest =>
      match take doc token with
      | .ok (doc, true) => takeFrom doc take (idx + 1) rest
      | .ok (doc, false) => ⟨doc, none, ⟨rest, idx + 1⟩⟩
      | .error error => ⟨doc, some error, ⟨rest, idx + 1⟩⟩

def readHeader (doc : Document) (r : Reader) : Parsed :=
  doc.takeFrom takeHeader r.idx r.rest

/-- The body, whose elements come behind those that the document has already. -/
def readBody (doc : Document) (nested : Bool) (r : Reader) : Parsed :=
  let body := Element.readBody nested r
  ⟨{ doc with elements := doc.elements ++ body.elements }, body.error, body.reader⟩

def readFooter (doc : Document) (r : Reader) : Parsed :=
  doc.takeFrom takeFooter r.idx r.rest

def Parsed.andThen (parsed : Parsed) (next : Document → Reader → Parsed) : Parsed :=
  match parsed.error with
  | none => next parsed.document parsed.reader
  | some _ => parsed

/-- Reads a whole file into a document that holds what is known without the file.
Without `nested`, objects in the body of the type are passed over. -/
def read (doc : Document) (nested : Bool) (tokens : List Token) : Parsed :=
  ((doc.readHeader (Reader.ofTokens tokens)).andThen
    fun doc r => doc.readBody nested r).andThen readFooter

end Document

/-- Replaces the aliases in the name of a base type, one after the other. An alias is a
pattern and its module a template. An error keeps what was replaced before. -/
def resolveAliases : List (String × String) → String → String × Option Pattern.Error
  | [], name => (name, none)
  | (short, meaning) :: later, name =>
      match Pattern.replace short meaning name with
      | .ok replaced => resolveAliases later replaced
      | .error error => (name, some error)

namespace Document

/-- The result of writing a document: its text, or the error in an alias that prevented
it, and the document as it is afterwards. -/
structure Result where
  outcome : Except Pattern.Error String
  after : Document
  notices : List Notice

def resolveBase (doc : Document) : Document × Option Pattern.Error :=
  if doc.info.baseName = "" then (doc, none)
  else
    match resolveAliases doc.aliases doc.info.baseName with
    | (name, none) => ({ doc with info := { doc.info with baseName := qualifiedBase name } }, none)
    | (name, some error) => ({ doc with info := { doc.info with baseName := name } }, some error)

def usingLines (doc : Document) : List String :=
  doc.imports.map fun name => "using namespace " ++ Text.replaceChar '.' "::" name ++ ";"

/-- Writes a document. Its base type is resolved before anything else is written. -/
def print (doc : Document) : Result :=
  match doc.resolveBase with
  | (after, some error) => ⟨.error error, after, []⟩
  | (resolved, none) =>
      let base := doc.info.base?.map fun _ => resolved.info.baseName
      let body := Element.placeElements Element.print doc.info.separateBlocks {} doc.elements
      let lines := doc.usingLines ++ doc.info.opening ++ [doc.info.classLine base] ++
        body.pieces.map Element.Piece.text ++ ["\x7d;"] ++ doc.footerComments ++ doc.info.closing
      ⟨.ok ("\n".intercalate lines), { resolved with elements := body.after }, body.notices⟩

end Document

end QmlDoc
