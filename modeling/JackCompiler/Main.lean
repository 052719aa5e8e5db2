import JackCompiler.CommandLine
/-!
# The program

The command line on the files of the machine. Paths that were written go to the standard output;
warnings and errors go to the standard error.
-/

namespace JackCompiler

/-- The reason a file operation of the machine failed. Some operations give the system's error code
negated. -/
def IoError.ofSystem (error : IO.Error) : IoError :=
  match error with
  | .noFileOrDirectory _ _ _ => .notFound
  | .alreadyExists _ _ _ => .fileExists
  | .inappropriateType _ code _ =>
    if code = 20 ∨ 0 - code = 20 then .notDirectory
    else if code = 21 ∨ 0 - code = 21 then .isDirectory
    else .other (toString error)
  | error => .other (toString error)

/-- A file operation with its failure as a result. -/
def attempt {α : Type} (action : IO α) : IO (Except IoError α) := do
  match ← action.toBaseIO with
  | .ok value => return .ok value
  | .error error => return .error (.ofSystem error)

instance : Host IO where
  entryKind path := attempt do
    match (← (System.mkFilePath [path.text]).metadata).type with
    | .dir => return .directory
    | _ => return .file
  entryNames path := attempt do
    return ((← (System.mkFilePath [path.text]).readDir).map (·.fileName)).toList
  readFile path := attempt do
    return (← IO.FS.readBinFile path.text).toList
  writeFile path text := attempt (IO.FS.writeFile path.text text)
  makeDirectory path := attempt (IO.FS.createDir path.text)
  record record := do
    if record.level.depth ≤ Log.Level.warn.depth then IO.eprintln record.text

end JackCompiler

def main (arguments : List String) : IO UInt32 := do
  let outcome ← JackCompiler.CommandLine.run arguments
  IO.print outcome.output
  return outcome.status
