import QmlDoc.Disk.Basic
import QmlDoc.Text.Basic

set_option autoImplicit false

namespace QmlDoc

/-- Files by the names on the way to them from the outermost directory. -/
structure Tree where
  files : List (List String × List UInt8)
  working : List String

namespace Tree

/-- Where a path has led so far. Outside of the tree there are directories only. -/
inductive Place
  | inside (names : List String)
  | outside
  | file (names : List String) (bytes : List UInt8)

def names (path : String) : List String :=
  (path.toList.splitOn '/').map String.ofList

/-- A directory is what holds a file or the working directory. -/
def isDirectory (tree : Tree) (names : List String) : Bool :=
  names.isPrefixOf tree.working || tree.files.any fun entry => names.isPrefixOf entry.1

def step (tree : Tree) : Place → String → Except FileFault Place
  | .file _ _, _ => .error .notADirectory
  | place, "" | place, "." => .ok place
  | .outside, ".." | .inside [], ".." => .ok .outside
  | .outside, _ => .error .notFound
  | .inside names, ".." => .ok (.inside names.dropLast)
  | .inside names, name =>
      let longer := names ++ [name]
      match tree.files.find? fun entry => entry.1 = longer with
      | some entry => .ok (.file longer entry.2)
      | none => if tree.isDirectory longer then .ok (.inside longer) else .error .notFound

/-- Follows a path from the working directory, or from far outside if it starts with a
slash. -/
def follow (tree : Tree) (path : String) : Except FileFault Place :=
  if path = "" then .error .notFound
  else
    let start := if Text.startsWith path "/" then Place.outside else .inside tree.working
    (names path).foldlM tree.step start

def disk (tree : Tree) : Disk where
  lookup path :=
    (tree.follow path).map fun
      | .file names bytes => .file ("/".intercalate names) bytes
      | _ => .directory

end Tree

end QmlDoc
