import QmlDoc.Disk.Basic
import QmlDoc.ModuleFile
import QmlDoc.Pattern.Error
import QmlDoc.Text.Utf8
import QmlDoc.Token.Arrange
import QmlDoc.Token.Reader

set_option autoImplicit false

namespace QmlDoc

inductive Failure
  | file (error : FileError)
  | decode (error : Text.DecodeError)
  | lex (error : TokenError)
  | read (error : ReadError)
  | pattern (error : Pattern.Error)
  /-- A namespace has no name; so many come before it. -/
  | unnamed (place : Nat)
  deriving DecidableEq, Repr

def Failure.message : Failure → String
  | file error => error.message
  | decode error => error.message
  | lex error => error.message
  | read error => error.message
  | pattern error => error.message
  | unnamed place =>
      "sequence item " ++ toString place ++ ": expected str instance, list found"

/-- The full name of a type, the version since which its module offers it, and the name
of the module, which is empty without one. -/
structure Identity where
  name : String
  version : Option String
  moduleName : String
  deriving DecidableEq, Repr

namespace Identity

def describes (disk : Disk) (dir file path : String) : Except FileError Bool :=
  let entry := Path.join dir path
  if disk.isFile entry then disk.sameFile file entry else .ok false

def findEntry {α : Type} (disk : Disk) (dir file : String) (path : α → String) :
    List α → Except FileError (Option α)
  | [] => .ok none
  | entry :: later =>
      match describes disk dir file (path entry) with
      | .error error => .error error
      | .ok true => .ok (some entry)
      | .ok false => findEntry disk dir file path later

/-- The name of a type from its file alone: what stands before the first dot. -/
def ofPath (file : String) : Identity :=
  let stem := (Path.basename file).toList.takeWhile (· ≠ '.')
  { name := String.ofList stem, version := none, moduleName := "" }

/-- The identity of a file in a module with the given description; nothing for an
internal type. -/
def inModule (disk : Disk) (file description text : String) :
    Except FileError (Option Identity) := do
  let dir := Path.dirname description
  let own := { ofPath file with moduleName := (ModuleFile.moduleName text).getD "" }
  match ← findEntry disk dir file ModuleFile.InternalType.path (ModuleFile.internalTypes text) with
  | some _ => return none
  | none =>
      match ← findEntry disk dir file ModuleFile.ObjectType.path (ModuleFile.objectTypes text) with
      | some entry => return some { own with name := entry.name, version := some entry.version }
      | none => return some own

/-- The name with those of the namespaces and of the module before it. -/
def qualify (namespaces : List String) (identity : Identity) : Identity :=
  let inner := if identity.moduleName = "" then [] else [identity.moduleName]
  { identity with name := ".".intercalate (namespaces ++ inner ++ [identity.name]) }

/-- The identity of the type of a file; nothing for an internal type. -/
def ofFile (disk : Disk) (namespaces : List String) (file : String) :
    Except Failure (Option Identity) :=
  match ModuleFile.find? disk.isFile file with
  | none => .ok (some ((ofPath file).qualify namespaces))
  | some description =>
      match disk.read description with
      | .error error => .error (.file error)
      | .ok bytes =>
          match Text.decode bytes with
          | .error error => .error (.decode error)
          | .ok text =>
              match inModule disk file description text with
              | .error error => .error (.file error)
              | .ok identity => .ok (identity.map (qualify namespaces))

end Identity

end QmlDoc
