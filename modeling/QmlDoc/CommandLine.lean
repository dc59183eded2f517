import QmlDoc.Text.Basic
import QmlDoc.Text.Quoted

set_option autoImplicit false

namespace QmlDoc

/-- What is asked for one file. -/
structure Options where
  file : String := ""
  debug : Bool := false
  namespaces : List String := []
  /-- How many namespaces come before the first one without a name. -/
  unnamed : Option Nat := none
  noSinceVersion : Bool := false
  noNestedComponents : Bool := false
  deriving DecidableEq, Repr

namespace CommandLine

inductive Switch
  | help
  | debug
  /-- The only switch with a value. -/
  | inNamespace
  | noSinceVersion
  | noNestedComponents
  | version
  deriving DecidableEq, Repr

/-- The ways to write a switch, in the order in which they are offered. -/
def spellings : List (String × Switch) :=
  [("-h", .help), ("--help", .help), ("-d", .debug), ("--debug", .debug),
    ("--namespace", .inNamespace), ("--no-since-version", .noSinceVersion),
    ("--no-nested-components", .noNestedComponents), ("--version", .version)]

def Switch.ofSpelling? (text : String) : Option Switch :=
  (spellings.find? fun entry => entry.1 = text).map Prod.snd

def Switch.describe (switch : Switch) : String :=
  "/".intercalate ((spellings.filter fun entry => entry.2 = switch).map Prod.fst)

inductive UsageError
  | ambiguous (word : String) (choices : List String)
  | ignoredValue (switch : Switch) (value : String)
  | noValue (switch : Switch)
  | noFile
  | unrecognized (words : List String)
  deriving DecidableEq, Repr

def UsageError.message : UsageError → String
  | ambiguous word choices =>
      "ambiguous option: " ++ word ++ " could match " ++ ", ".intercalate choices
  | ignoredValue switch value =>
      "argument " ++ switch.describe ++ ": ignored explicit argument " ++ Text.quote value
  | noValue switch => "argument " ++ switch.describe ++ ": expected one argument"
  | noFile => "the following arguments are required: qml_file"
  | unrecognized words => "unrecognized arguments: " ++ " ".intercalate words

/-- A word of the command line. -/
inductive Word
  | plain (text : String)
  /-- The first `--`, behind which all words are plain. -/
  | separator
  /-- A spelling, perhaps shortened, and a value that is written with it. -/
  | switch (spelling : String) (switch : Switch) (value : Option String)
  /-- What looks like a switch and is none. -/
  | unknown (text : String)
  deriving DecidableEq, Repr

def splitValue (text : List Char) : String × Option String :=
  match text.dropWhile (· ≠ '=') with
  | [] => (String.ofList text, none)
  | _ :: value => (String.ofList (text.takeWhile (· ≠ '=')), some (String.ofList value))

/-- The switches that a word may stand for. A long switch can be shortened; behind a
short one other short ones may follow in the same word. -/
def choices (text : List Char) : List (String × Switch × Option String) :=
  match text with
  | '-' :: '-' :: _ =>
      let (front, value) := splitValue text
      (spellings.filter fun entry => Text.startsWith entry.1 front).map fun entry =>
        (entry.1, entry.2, value)
  | _ =>
      let front := String.ofList (text.take 2)
      spellings.filterMap fun entry =>
        if entry.1 = front then some (entry.1, entry.2, some (String.ofList (text.drop 2)))
        else if Text.startsWith entry.1 (String.ofList text) then some (entry.1, entry.2, none)
        else none

/-- A minus sign and digits, perhaps with a point before the last of them. -/
def isNegativeNumber (text : List Char) : Bool :=
  let line := if text.getLast? = some '\n' then text.dropLast else text
  match line with
  | '-' :: digits =>
      match (digits.takeWhile Text.isDecimal, digits.dropWhile Text.isDecimal) with
      | (whole, []) => !whole.isEmpty
      | (_, '.' :: fraction) => !fraction.isEmpty && fraction.all Text.isDecimal
      | _ => false
  | _ => false

/-- Tells what a word is by itself. Negative numbers and texts with a space in them are
plain, though they start like a switch. -/
def readWord (text : String) : Except UsageError Word :=
  match text.toList with
  | '-' :: second :: later =>
      let chars := '-' :: second :: later
      let whole := (Switch.ofSpelling? text).map fun switch => Word.switch text switch none
      let valued := match splitValue chars with
        | (front, some value) =>
            (Switch.ofSpelling? front).map fun switch => Word.switch front switch (some value)
        | (_, none) => none
      match whole.or valued with
      | some word => .ok word
      | none =>
          match choices chars with
          | [(spelling, switch, value)] => .ok (.switch spelling switch value)
          | [] =>
              if isNegativeNumber chars || chars.contains ' ' then .ok (.plain text)
              else .ok (.unknown text)
          | several => .error (.ambiguous text (several.map Prod.fst))
  | _ => .ok (.plain text)

def readWords : List String → Except UsageError (List Word)
  | [] => .ok []
  | "--" :: later => .ok (.separator :: later.map Word.plain)
  | text :: later => do
      let word ← readWord text
      return word :: (← readWords later)

/-- What the command line asks for. -/
inductive Request
  | document (options : Options)
  | showHelp
  | showVersion
  | refuse (error : UsageError)
  deriving DecidableEq, Repr

/-- What was found so far. -/
structure Found where
  options : Options := {}
  file : Option String := none
  unrecognized : List String := []
  deriving DecidableEq, Repr

def Found.request (found : Found) : Request :=
  match found.file with
  | none => .refuse .noFile
  | some file =>
      if found.unrecognized.isEmpty then .document { found.options with file }
      else .refuse (.unrecognized found.unrecognized)

def Found.refuseWord (found : Found) (text : String) : Found :=
  { found with unrecognized := found.unrecognized ++ [text] }

def Found.addNamespace (found : Found) (name : String) : Found :=
  { found with
    options := { found.options with namespaces := found.options.namespaces ++ [name] } }

/-- A separator written as the value of a switch is taken away, and the namespace has no
name. -/
def Found.addValue (found : Found) (value : String) : Found :=
  if value ≠ "--" then found.addNamespace value
  else
    let unnamed := found.options.unnamed.or (some found.options.namespaces.length)
    { found with options := { found.options with unnamed } }

/-- The switches in one word: `first`, and those named by the letters behind it. -/
def joined (first : Switch) : List Char → Except UsageError (List Switch)
  | [] => .ok [first]
  | c :: later =>
      match Switch.ofSpelling? (String.ofList ['-', c]) with
      | none => .error (.ignoredValue first (String.ofList (c :: later)))
      | some next => (joined next later).map (first :: ·)

def switches (spelling : String) (switch : Switch) : Option String → Except UsageError (List Switch)
  | none => .ok [switch]
  | some value =>
      if value = "" || Text.startsWith spelling "--" then .error (.ignoredValue switch value)
      else joined switch value.toList

/-- Sets switches one after the other; a request for help or the version ends it. -/
def setAll (found : Found) : List Switch → Except Request Found
  | [] => .ok found
  | switch :: later =>
      match switch with
      | .help => .error .showHelp
      | .version => .error .showVersion
      | .debug => setAll { found with options := { found.options with debug := true } } later
      | .noSinceVersion =>
          setAll { found with options := { found.options with noSinceVersion := true } } later
      | .noNestedComponents =>
          setAll { found with options := { found.options with noNestedComponents := true } } later
      | .inNamespace => setAll found later

/-- Goes through the words. The first plain one is the file, together with a separator on
either side of it; further ones are not recognised. All words behind a separator are
plain, so the first of them is the file if there is none yet. -/
def gather (found : Found) : List Word → Request
  | [] => found.request
  | .plain text :: later =>
      if found.file.isSome then gather (found.refuseWord text) later
      else
        match later with
        | .separator :: further => gather { found with file := some text } further
        | further => gather { found with file := some text } further
  | .separator :: later =>
      match later with
      | [] => gather (found.refuseWord "--") []
      | further => gather (if found.file.isSome then found.refuseWord "--" else found) further
  | .unknown text :: later => gather (found.refuseWord text) later
  | .switch _ .inNamespace (some value) :: later => gather (found.addValue value) later
  | .switch _ .inNamespace none :: later =>
      match later with
      | .plain name :: further => gather (found.addNamespace name) further
      | _ => .refuse (.noValue .inNamespace)
  | .switch spelling switch value :: later =>
      match switches spelling switch value with
      | .error error => .refuse error
      | .ok set =>
          match setAll found set with
          | .error request => request
          | .ok found => gather found later

/-- What a command line asks for. All words are looked at before any takes effect. -/
def parse (args : List String) : Request :=
  match readWords args with
  | .error error => .refuse error
  | .ok words => gather {} words

def usage : String :=
  "usage: doxyqml [-h] [-d] [--namespace NAMESPACE] [--no-since-version]\n" ++
  "               [--no-nested-components] [--version]\n" ++
  "               qml_file\n"

def help : String :=
  usage ++
  "\nDoxygen input filter for QML files\n" ++
  "\npositional arguments:\n" ++
  "  qml_file              The QML file to parse\n" ++
  "\noptions:\n" ++
  "  -h, --help            show this help message and exit\n" ++
  "  -d, --debug           Log debug info to stderr\n" ++
  "  --namespace NAMESPACE\n" ++
  "                        Wrap the generated C++ classes in NAMESPACE\n" ++
  "  --no-since-version    Don't append \"Since: [version]\" info to docstring\n" ++
  "  --no-nested-components\n" ++
  "                        Don't create private member documentation for nested\n" ++
  "                        components\n" ++
  "  --version             show program's version number and exit\n"

def versionText : String :=
  "doxyqml 0.5.3\n"

def refusal (error : UsageError) : String :=
  usage ++ "doxyqml: error: " ++ error.message ++ "\n"

end CommandLine

end QmlDoc
