import JackCompiler.Compile.Run
import JackCompiler.Error
import JackCompiler.Token.Xml
/-!
# Compiling a class

The compiler as a function of a source text: the name of the class and its program, or the first
error. What it tells on the way, the commands written before an error among it, comes beside the
result. `tokensXml` is the other reading of a source, as a document of its tokens.
-/

namespace JackCompiler

/-- A compiled class. -/
structure CompiledClass where
  name : String
  program : List Vm.Command
  deriving DecidableEq, Repr

/-- The text of the program, one command per line. -/
def CompiledClass.code (compiled : CompiledClass) : String := Vm.render compiled.program

/-- What comes of compiling: the events in order, and the class or the first diagnostic. -/
structure Compilation where
  events : List Compile.Event
  result : Except Diagnostic CompiledClass

/-- Compiles a token sequence. -/
def Lexer.Scan.compile (scan : Lexer.Scan) : Compilation :=
  let (done, result) := Compile.run scan.stop [] scan.tokens Compile.program {}
  let events := done.reverse
  { events, result := result.map fun state => ⟨state.className, events.filterMap (·.command?)⟩ }

/-- Compiles the tokens that a stream still has. -/
def TokenStream.compile (stream : TokenStream) : Compilation := stream.remaining.compile

/-- Compiles the tokens of a source. -/
def compileSource (source : String) : Compilation := (TokenStream.ofSource source).compile

/-- What compiling told on the way. -/
def Compilation.records (compilation : Compilation) : List Log.Record :=
  compilation.events.map (·.record)

/-- The result of compiling a source, with its error located there. -/
def Compilation.located (compilation : Compilation) (source : String) :
    Except Error CompiledClass :=
  compilation.result.mapError (·.toError source)

/-- Compiles the class of a source. -/
def compile (source : String) : Except Error CompiledClass :=
  (compileSource source).located source

/-- The document of the tokens of a source. -/
def tokensXml (source : String) : Except Error String :=
  let scan := (Lexer.ofSource source).scan
  match scan.stop with
  | .ok _ => .ok (Xml.document scan.tokens)
  | .error diagnostic => .error (diagnostic.toError source)

end JackCompiler
