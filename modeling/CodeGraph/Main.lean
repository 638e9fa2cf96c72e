import CodeGraph.CommandLine.Program
import CodeGraph.Volume.Listing
import Std.Time.DateTime.Timestamp

/-!
# The program

Commands work on a volume. The program fills one with the files and directories whose absolute
paths are given on its input, one to a line as `find` writes them. When the command has been carried
out it makes the changes of the volume to the files themselves. All else is decided by
`CommandLine.run`.
-/

namespace CodeGraph

/-- Puts what is at a path into a volume. What cannot be read as a file is taken for a directory. -/
def loadPath (v : Volume) (path : String) : IO Volume := do
  match ← (IO.FS.readBinFile path).toBaseIO with
  | .ok content => return v.layOut path (.file content)
  | .error _ => return v.layOut path .directory

/-- Puts what is at the paths on a stream into a volume. -/
partial def loadPaths (paths : IO.FS.Stream) (v : Volume) : IO Volume := do
  let line ← paths.getLine
  if line.isEmpty then return v
  loadPaths paths (← loadPath v (String.ofList (line.toList.takeWhile (· != '\n'))))

def VolumeChange.make : VolumeChange → IO Unit
  | .removeFile path => IO.FS.removeFile path
  | .removeDirectory path => IO.FS.removeDir path
  | .makeDirectory path => IO.FS.createDirAll path
  | .writeFile path content => IO.FS.writeBinFile path content

/-- The variables of the environment that count. -/
def environment : IO (NameMap String) :=
  CommandLine.variableNames.foldlM (fun m name => do
    return (← IO.getEnv name).elim m (m.insert name)) .empty

def millisecondsNow : IO UInt64 := do
  return UInt64.ofInt (← Std.Time.Timestamp.now).toMillisecondsSinceUnixEpoch.val

end CodeGraph

open CodeGraph in
/-- Carries out the command of a command line and answers its exit code. -/
def main (args : List String) : IO UInt32 := do
  let here := (← IO.getEnv "PWD").getD "/"
  let start : Volume := { current := Path.parts here }
  let volume ← loadPaths (← IO.getStdin) (start.layOut here .directory)
  let host : CommandLine.Host := {
    drive := ⟨volume, []⟩, clock := ← millisecondsNow
    home := ← IO.getEnv "HOME", environment := ← environment }
  let (outcome, after) := (CommandLine.run args).run host
  (volume.changesTo after.drive.volume).forM VolumeChange.make
  IO.print outcome.output
  unless outcome.diagnostic.isEmpty do IO.eprintln outcome.diagnostic
  return outcome.code.toUInt32
