import JackCompiler.Build
/-!
# The command line

Two commands: `build` compiles a source file or a directory, into another directory if one is
given, and `lex` writes the token document of a file. Each prints the paths it wrote. Anything else,
an argument too many among it, prints the usage.
-/

namespace JackCompiler.CommandLine

inductive Command
  | build (path : Path) (outputDirectory : Option Path)
  | lex (path : Path)
  deriving DecidableEq, Repr

def parse : List String → Option Command
  | ["build", path] => some (.build ⟨path⟩ none)
  | ["build", path, directory] => some (.build ⟨path⟩ (some ⟨directory⟩))
  | ["lex", path] => some (.lex ⟨path⟩)
  | _ => none

def usage : String :=
  "Jack compiler v0.1.0\n\n" ++
  "usage: jackc CMD PATH [OUT_DIR]\n\n" ++
  "commands:\n" ++
  "    build   Compile a source file, or every source file in a directory, to VM code\n" ++
  "    lex     Write the tokens of a source file as XML, next to it\n\n" ++
  "examples:\n" ++
  "    jackc build Main.jack\n" ++
  "    jackc build Square/ build/\n" ++
  "    jackc lex Main.jack\n\n"

/-- What a run prints, and its exit status. -/
structure Outcome where
  status : UInt32
  output : String
  deriving DecidableEq, Repr

def success : UInt32 := 0
def failure : UInt32 := 1
def usageError : UInt32 := 64

variable {m : Type → Type} [Monad m] [Host m]

/-- Runs a command. -/
def execute (command : Command) : ExceptT Error m Outcome := do
  match command with
  | .build path outputDirectory =>
    Host.note ⟨.info, "compiling " ++ path.text⟩
    let report ← Build.compilePath { outputDirectory } path
    let output := String.join (report.compiled.map fun path => path.text ++ "\n")
    return ⟨if report.isSuccess then success else failure, output⟩
  | .lex path =>
    let output ← Build.tokenizeFile path
    return ⟨success, output.text ++ "\n"⟩

/-- Runs the command that the arguments ask for. -/
def run (arguments : List String) : m Outcome := do
  match parse arguments with
  | none => return ⟨usageError, usage⟩
  | some command =>
    match ← (execute command).run with
    | .ok outcome => return outcome
    | .error error =>
      Host.record ⟨.error, error.message⟩
      return ⟨failure, ""⟩

end JackCompiler.CommandLine
