import JackCompiler.Error
import JackCompiler.Log
/-!
# What the compiler asks of a file system

The operations on files that a build uses, and a place for its log records. The build is written
against these alone, so it runs on real files and on a file system that is a value.
-/

namespace JackCompiler

inductive EntryKind
  | file | directory
  deriving DecidableEq, Repr

class Host (m : Type → Type) where
  /-- What stands at a path. -/
  entryKind : Path → m (Except IoError EntryKind)
  /-- The names of the entries of a directory, in any order. -/
  entryNames : Path → m (Except IoError (List String))
  readFile : Path → m (Except IoError (List UInt8))
  /-- Replaces the whole file, or creates it. -/
  writeFile : Path → String → m (Except IoError Unit)
  /-- Creates one directory in one that exists. -/
  makeDirectory : Path → m (Except IoError Unit)
  record : Log.Record → m Unit

namespace Host

variable {m : Type → Type} [Monad m] [Host m]

/-- A file operation whose failure is an error of the build. -/
def io {α : Type} (action : m (Except IoError α)) : ExceptT Error m α :=
  ExceptT.mk (Except.mapError Error.io <$> action)

/-- A record made during a build. -/
def note (entry : Log.Record) : ExceptT Error m Unit := ExceptT.lift (record entry)

/-- Whether something of a kind stands at a path. -/
def isKind (kind : EntryKind) (path : Path) : m Bool := do
  match ← entryKind path with
  | .ok found => return found = kind
  | .error _ => return false

/-- Creates the first directory of a list that ends in its ancestors, and those of them that are
missing. A directory that exists already is no error. -/
def makeFirst : List Path → m (Except IoError Unit)
  | [] => return .ok ()
  | path :: ancestors => do
    if path.text = "" then return .ok ()
    match ← makeDirectory path with
    | .ok () => return .ok ()
    | .error .notFound =>
      match ← makeFirst ancestors with
      | .error error => return .error error
      | .ok () =>
        match ← makeDirectory path with
        | .ok () => return .ok ()
        | .error error => return if ← isKind .directory path then .ok () else .error error
    | .error error => return if ← isKind .directory path then .ok () else .error error

/-- Creates a directory with the ancestors that are missing. -/
def makeDirectories (path : Path) : m (Except IoError Unit) := makeFirst path.ancestors

end Host

end JackCompiler
