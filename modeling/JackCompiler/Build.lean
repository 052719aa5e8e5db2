import JackCompiler.Compile
import JackCompiler.Files.Host
/-!
# Building files and directories

Each source file is compiled for itself and its output is written only once it has compiled. A path
to build is a source file or a directory, whose source files are built in the order of their names;
one that fails does not stop the others.
-/

namespace JackCompiler

/-- How source files are told and where their output goes. -/
structure Config where
  /-- The extension of source files, without its dot. -/
  sourceExtension : String := "jack"
  /-- The extension of the files written, without its dot. -/
  outputExtension : String := "vm"
  /-- The directory to write to; without one, each output stands beside its source. -/
  outputDirectory : Option Path := none
  deriving DecidableEq, Repr

/-- What came of building a path. -/
structure Report where
  /-- The files written, in order. -/
  compiled : List Path := []
  /-- The source files that failed, each with its error. -/
  failed : List (Path × Error) := []
  deriving DecidableEq, Repr

def Report.isSuccess (report : Report) : Bool := report.failed.isEmpty

namespace Config

def isSource (config : Config) (path : Path) : Bool :=
  path.extension? = some config.sourceExtension

/-- Where the output of a source file goes. -/
def outputPath (config : Config) (source : Path) : Path :=
  let target := source.withExtension config.outputExtension
  match config.outputDirectory, target.fileName? with
  | some directory, some name => directory.child name
  | _, _ => target

end Config

namespace Build

variable {m : Type → Type} [Monad m] [Host m]

/-- The source files of a list of paths. -/
def sourcesAmong (config : Config) : List Path → m (List Path)
  | [] => return []
  | path :: paths => do
    let isFile ← Host.isKind .file path
    let sources ← sourcesAmong config paths
    return if isFile && config.isSource path then path :: sources else sources

/-- The source files a path stands for: the file itself, or those right in the directory. -/
def findSources (config : Config) (path : Path) : ExceptT Error m (List Path) := do
  match ← Host.io (Host.entryKind path) with
  | .directory =>
    let names ← Host.io (Host.entryNames path)
    let sources ← ExceptT.lift <| sourcesAmong config ((names.mergeSort (· ≤ ·)).map path.child)
    if sources.isEmpty then throw (.noSources path)
    return sources
  | .file =>
    if config.isSource path then return [path]
    throw (.invalidSource path)

def readSource (path : Path) : ExceptT Error m String := do
  let bytes ← Host.io (Host.readFile path)
  match Utf8.decode bytes with
  | .ok source => return source
  | .error fault => throw (.utf8 fault)

def recordAll : List Log.Record → m Unit
  | [] => return ()
  | record :: records => do
    Host.record record
    recordAll records

/-- Writes a file, and records where it came from. -/
def writeOutput (source output : Path) (text : String) : ExceptT Error m Path := do
  Host.io (Host.writeFile output text)
  Host.note ⟨.info, source.text ++ " -> " ++ output.text⟩
  return output

/-- Warns of a class that is not named as its file. -/
def checkName (path : Path) (className : String) : m Unit :=
  match path.fileStem? with
  | some stem =>
    if stem = className then return ()
    else
      Host.record ⟨.warn, path.text ++ ": class " ++ className ++ " is declared in file named "
        ++ stem⟩
  | none => return ()

/-- Compiles one source file and gives the path of its output. -/
def compileFile (config : Config) (path : Path) : ExceptT Error m Path := do
  let source ← readSource path
  let compilation := compileSource source
  ExceptT.lift (recordAll compilation.records)
  match compilation.located source with
  | .error error => throw error
  | .ok compiled =>
    ExceptT.lift (checkName path compiled.name)
    match config.outputDirectory with
    | some directory => Host.io (Host.makeDirectories directory)
    | none => pure ()
    writeOutput path (config.outputPath path) compiled.code

/-- Compiles each of a list of source files. -/
def compileAll (config : Config) : List Path → m Report
  | [] => return {}
  | path :: paths => do
    match ← (compileFile config path).run with
    | .ok output =>
      let report ← compileAll config paths
      return { report with compiled := output :: report.compiled }
    | .error error =>
      Host.record ⟨.error, path.text ++ ": " ++ error.message⟩
      let report ← compileAll config paths
      return { report with failed := (path, error) :: report.failed }

/-- Compiles every source file a path stands for. -/
def compilePath (config : Config) (path : Path) : ExceptT Error m Report := do
  let sources ← findSources config path
  Host.note ⟨.debug,
    "found " ++ toString sources.length ++ " source file(s) in " ++ path.text⟩
  ExceptT.lift (compileAll config sources)

/-- Writes the token document of a source file beside it, and gives its path. -/
def tokenizeFile (path : Path) : ExceptT Error m Path := do
  let source ← readSource path
  match tokensXml source with
  | .error error => throw error
  | .ok document =>
    match path.fileStem? with
    | none => throw (.invalidSource path)
    | some stem => writeOutput path (path.withFileName (stem ++ "T.xml")) document

end Build

end JackCompiler
