import SignedFlash.Command.Program

/-!
# The executable

Reads the files that the command line and the configuration name and runs the program on them. The
executable is linked with no decoder of PEM, so that it refuses key files, and has no keys built in.
-/

namespace SignedFlash

/-- The reason for which the system did not give a file. The system's code tells apart reasons of
one kind; it comes negated from opening a file, and as it is from reading one. -/
def fileErrorOf : IO.Error → FileError
  | .noFileOrDirectory .. => .notFound
  | .permissionDenied .. => .permissionDenied
  | .inappropriateType _ code _ =>
    if code = 20 ∨ code = -20 then .notDirectory else .isDirectory
  | .invalidArgument _ code details =>
    if code = 36 ∨ code = -36 then .nameTooLong else .other details
  | error => .other (toString error)

def readFiles (paths : List String) : IO Files := do
  let read (path : String) : IO (String × Except FileError Bytes) := do
    try
      let content ← IO.FS.readBinFile path
      return (path, .ok content.toList)
    catch error => return (path, .error (fileErrorOf error))
  let contents ← paths.mapM read
  return fun path => (contents.lookup path).getD (.error .notFound)

/-- The files that the command line names. -/
def namedPaths (arguments : List String) : List String :=
  match Arguments.parse arguments with
  | .ok (.run _ (.verify request)) => request.image :: request.config.toList
  | .ok (.run _ (.headerInfo request)) => [request.image]
  | .ok (.run _ (.dump request)) => [request.image]
  | _ => []

/-- The key files that the configuration names. -/
def keyFilePaths (arguments : List String) (files : Files) : List String :=
  match Arguments.parse arguments with
  | .ok (.run _ (.verify { config := some config, .. })) =>
    match loadSettings files config with
    | .ok settings => settings.keyFilePaths config
    | .error _ => []
  | _ => []

def plainBuild : Build := ⟨fun _ => .error "PEM is not supported", false⟩

end SignedFlash

open SignedFlash in
def main (arguments : List String) : IO UInt32 := do
  let paths := namedPaths arguments
  let files ← readFiles paths
  let files ← readFiles (paths ++ keyFilePaths arguments files)
  let seed ← IO.getRandomBytes 32
  let output := runProgram plainBuild arguments files (RandomSource.ofSeed seed.toList)
  IO.print output.output
  if let some error := output.error then IO.eprint error.message
  return UInt32.ofNat output.status
