import QmlDoc.Filter

set_option autoImplicit false

namespace QmlDoc.Main

def probe (path : String) : IO (Except FileFault Node) := do
  try
    let bytes ← IO.FS.readBinFile path
    let real ← IO.FS.realPath path
    return .ok (.file real.toString bytes.toList)
  catch error =>
    match error with
    | .inappropriateType _ code _ =>
        return if code = 21 then .ok .directory else .error .notADirectory
    | _ => return .error .notFound

def isFile : Except FileFault Node → Bool
  | .ok (.file _ _) => true
  | _ => false

def entryPaths (description : String) : Except FileFault Node → List String
  | .ok (.file _ bytes) =>
      match Text.decode bytes with
      | .ok text =>
          ((ModuleFile.internalTypes text).map ModuleFile.InternalType.path ++
            (ModuleFile.objectTypes text).map ModuleFile.ObjectType.path).map
            (Path.join (Path.dirname description))
      | .error _ => []
  | _ => []

/-- Probes paths up to the first that leads to a file. -/
def probeUntilFile : List String → IO (List (String × Except FileFault Node))
  | [] => return []
  | path :: later => do
      let found ← probe path
      if isFile found then
        let inner ← (entryPaths path found).mapM fun entry => return (entry, ← probe entry)
        return (path, found) :: inner
      else
        return (path, found) :: (← probeUntilFile later)

/-- The part of the real disk that a run on `file` can ask for. -/
def diskFor (file : String) : IO Disk := do
  let own ← probe file
  let above ← probeUntilFile (ModuleFile.candidates file)
  let known := (file, own) :: above
  return { lookup := fun path =>
    ((known.find? fun entry => entry.1 = path).map Prod.snd).getD (.error .notFound) }

def print (report : Filter.Report) : IO UInt32 := do
  IO.print report.shown
  IO.print report.output
  IO.eprint report.complaint
  for notice in report.notices do
    IO.eprintln (notice.level ++ ":root:" ++ notice.message)
  match report.ending with
  | .finished code => return if code = 0 then 0 else 255
  | .left code => return code.toUInt32
  | .failed failure =>
      IO.eprintln failure.message
      return 1

end QmlDoc.Main

/-- Looks up the paths that a run can ask for, runs the filter on what was found there, and
prints the report. -/
def main (args : List String) : IO UInt32 := do
  let disk ← match QmlDoc.CommandLine.parse args with
    | .document options => QmlDoc.Main.diskFor options.file
    | _ => pure { lookup := fun _ => .error .notFound }
  QmlDoc.Main.print (QmlDoc.Filter.run disk args)
