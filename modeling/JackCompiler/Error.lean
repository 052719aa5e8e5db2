import JackCompiler.Files.Path
import JackCompiler.Text.Location
import JackCompiler.Text.Utf8
import JackCompiler.Token.Stream
/-!
# Errors and their messages

Everything that can go wrong, from a fault in a source to a file that cannot be read. A fault of a
source shows its line and column before its message and its line with a caret after it, as soon as
its location is known.
-/

namespace JackCompiler

/-- Why a file operation failed. -/
inductive IoError
  | notFound | fileExists | notDirectory | isDirectory
  /-- Any other reason, in the words of the system. -/
  | other (reason : String)
  deriving DecidableEq, Repr

def IoError.message : IoError → String
  | notFound => "No such file or directory (os error 2)"
  | fileExists => "File exists (os error 17)"
  | notDirectory => "Not a directory (os error 20)"
  | isDirectory => "Is a directory (os error 21)"
  | other reason => reason

inductive Error
  /-- A fault in a source, and where it lies if that is known. -/
  | inSource (fault : Fault) (location : Option Location)
  | invalidAccess (access : InvalidAccess)
  /-- A directory without source files. -/
  | noSources (path : Path)
  /-- A path that is not that of a source file. -/
  | invalidSource (path : Path)
  | io (error : IoError)
  | utf8 (fault : Utf8.Fault)
  deriving DecidableEq, Repr

namespace Error

def location? : Error → Option Location
  | inSource _ location => location
  | _ => none

/-- Gives the location of a fault of a source that has none yet. -/
def locate (error : Error) (location : Location) : Error :=
  match error with
  | inSource fault none => inSource fault (some location)
  | error => error

def message : Error → String
  | inSource fault none => fault.message
  | inSource fault (some location) =>
    location.label ++ ": " ++ fault.message ++ "\n" ++ location.snippet
  | invalidAccess access =>
    "cannot read " ++ access.encountered.name ++ " token as " ++ access.expected.name
  | noSources path => "no source files found in " ++ path.text
  | invalidSource path => "not a source file: " ++ path.text
  | io error => error.message
  | utf8 fault => fault.message

end Error

/-- The error of a token of a kind at a span of a source, where the grammar wants something else. It
needs a span that the source can be cut at, and for any token but the end of the file its text. -/
def TokenKind.unexpectedAt? (kind : TokenKind) (source : String) (span : Span) (expected : String) :
    Option Error := do
  let fragment ← if kind = .endOfFile then some "" else span.slice? source
  let location ← Location.ofSpan? source span
  return .inSource (.unexpected expected (kind.found fragment)) (some location)

/-- The error of a diagnostic of a source. -/
def Diagnostic.toError (diagnostic : Diagnostic) (source : String) : Error :=
  .inSource diagnostic.fault (some (.ofSpan source diagnostic.span))

end JackCompiler
