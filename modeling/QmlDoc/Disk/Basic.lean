import QmlDoc.Text.Basic
import QmlDoc.Text.Quoted

set_option autoImplicit false

namespace QmlDoc.Path

/-- What stands before the last slash, that slash included. -/
def head (path : List Char) : List Char :=
  (path.reverse.dropWhile (· ≠ '/')).reverse

/-- The directory part of a path. The slashes at its end are dropped, unless it has
nothing else. -/
def dirname (path : String) : String :=
  let front := head path.toList
  if front.all (· = '/') then String.ofList front
  else String.ofList (front.reverse.dropWhile (· = '/')).reverse

def basename (path : String) : String :=
  String.ofList (path.toList.reverse.takeWhile (· ≠ '/')).reverse

def join (dir name : String) : String :=
  if Text.startsWith name "/" then name
  else if dir = "" || Text.endsWith dir "/" then dir ++ name
  else dir ++ "/" ++ name

/-- The directory of a path, the directory of that, and so on, until it does not change
any more. -/
def ancestorsFrom : Nat → String → List String
  | 0, _ => []
  | n + 1, dir =>
      let parent := dirname dir
      dir :: if parent = dir then [] else ancestorsFrom n parent

def ancestors (path : String) : List String :=
  ancestorsFrom (path.length + 1) (dirname path)

end QmlDoc.Path

namespace QmlDoc

/-- Why a path leads to no file. -/
inductive FileFault
  | notFound
  | notADirectory
  | isADirectory
  deriving DecidableEq, Repr

def FileFault.describe : FileFault → String
  | notFound => "[Errno 2] No such file or directory"
  | notADirectory => "[Errno 20] Not a directory"
  | isADirectory => "[Errno 21] Is a directory"

/-- Why a path could not be read. -/
structure FileError where
  fault : FileFault
  path : String
  deriving DecidableEq, Repr

def FileError.message (error : FileError) : String :=
  error.fault.describe ++ ": " ++ Text.quote error.path

/-- What a path leads to. Two paths lead to the same file if they lead to the same
`key`. -/
inductive Node
  | file (key : String) (bytes : List UInt8)
  | directory
  deriving Repr

/-- Files, by the paths that lead to them. -/
structure Disk where
  lookup : String → Except FileFault Node

namespace Disk

def isFile (disk : Disk) (path : String) : Bool :=
  match disk.lookup path with
  | .ok (.file _ _) => true
  | _ => false

def read (disk : Disk) (path : String) : Except FileError (List UInt8) :=
  match disk.lookup path with
  | .ok (.file _ bytes) => .ok bytes
  | .ok .directory => .error ⟨.isADirectory, path⟩
  | .error fault => .error ⟨fault, path⟩

def sameFile (disk : Disk) (path other : String) : Except FileError Bool :=
  match disk.lookup path, disk.lookup other with
  | .error fault, _ => .error ⟨fault, path⟩
  | _, .error fault => .error ⟨fault, other⟩
  | .ok (.file key _), .ok (.file otherKey _) => .ok (key = otherKey)
  | _, _ => .ok false

end Disk

end QmlDoc
