import QmlDoc.Disk.Basic
import QmlDoc.Text.Basic
import QmlDoc.Text.Word

set_option autoImplicit false

namespace QmlDoc.ModuleFile

/-- The paths where the description of the module of a file is looked for. -/
def candidates (file : String) : List String :=
  (Path.ancestors file).map fun dir => Path.join dir "qmldir"

/-- The nearest description in the directories above a file. -/
def find? (isFile : String → Bool) (file : String) : Option String :=
  (candidates file).find? isFile

/-- A type for use inside of the module. -/
structure InternalType where
  name : String
  path : String
  deriving DecidableEq, Repr

/-- A type that the module offers since a version. -/
structure ObjectType where
  name : String
  version : String
  path : String
  deriving DecidableEq, Repr

/-- The longest run of such characters at the front of a text, at least one. -/
def run1 (p : Char → Bool) (text : List Char) : Option (String × List Char) :=
  let run := text.takeWhile p
  if run.isEmpty then none else some (String.ofList run, text.dropWhile p)

/-- Goes on to the end of a line: what follows, up to there, must be white space. Of
several ends it is the last one that only white space precedes. -/
def lineEnd (text : List Char) : Option (List Char) :=
  let (gap, rest) := Text.spanBlank text
  if rest.isEmpty then some []
  else if gap.contains '\n' then
    some ('\n' :: (gap.reverse.takeWhile (· ≠ '\n')).reverse ++ rest)
  else none

def version (text : List Char) : Option (String × List Char) :=
  (run1 (fun c => Text.isDecimal c || c = '.') text).filter fun (version, _) =>
    (version.toList.splitOn '.').all fun part => !part.isEmpty

def moduleAt (text : List Char) : Option (String × List Char) := do
  let rest ← "module".toList.isPrefixOf? text
  let (_, rest) ← run1 Text.isBlank rest
  let (name, rest) ← run1 (fun c => Text.isWord c || c = '.') rest
  let rest ← lineEnd rest
  return (name, rest)

def internalAt (text : List Char) : Option (InternalType × List Char) := do
  let rest ← "internal".toList.isPrefixOf? text
  let (_, rest) ← run1 Text.isBlank rest
  let (name, rest) ← run1 Text.isWord rest
  let (_, rest) ← run1 Text.isBlank rest
  let (path, rest) ← run1 (fun c => !Text.isBlank c) rest
  let rest ← lineEnd rest
  return (⟨name, path⟩, rest)

def objectAt (text : List Char) : Option (ObjectType × List Char) := do
  let (name, rest) ← run1 Text.isWord text
  let (_, rest) ← run1 Text.isBlank rest
  let (version, rest) ← version rest
  let (_, rest) ← run1 Text.isBlank rest
  let (path, rest) ← run1 (fun c => !Text.isBlank c) rest
  let rest ← lineEnd rest
  return (⟨name, version, path⟩, rest)

/-- Everything that `read` finds at the starts of lines, from left to right. What was
read is passed over, and so are the first `skip` characters. -/
def entriesFrom {α : Type} (read : List Char → Option (α × List Char)) :
    Bool → Nat → List Char → List α
  | _, _, [] => []
  | lineStart, skip, c :: rest =>
      match if lineStart && skip = 0 then read (c :: rest) else none with
      | some (entry, behind) =>
          entry :: entriesFrom read (c = '\n') (rest.length - behind.length) rest
      | none => entriesFrom read (c = '\n') (skip - 1) rest

/-- The name of the module, which the text has to start with. -/
def moduleName (text : String) : Option String :=
  (moduleAt text.toList).map Prod.fst

def internalTypes (text : String) : List InternalType :=
  entriesFrom internalAt true 0 text.toList

def objectTypes (text : String) : List ObjectType :=
  entriesFrom objectAt true 0 text.toList

end QmlDoc.ModuleFile
