import JackCompiler.Log
/-!
# Virtual machine commands

The commands of the stack machine the compiler writes for, and their text: one command per line,
its fields separated by one space.

The numbers of commands are unbounded here, so that code can also be written down with the numbers
it should have. The compiler only makes commands of 16-bit numbers: its counters are cut to 16 bits
where they are counted, in the symbol table and in the goals, and `Command.wrap` says what is left
of a command whose numbers did not fit.
-/

namespace JackCompiler.Vm

/-- The memory segments a command can name. -/
inductive Segment
  | constant | argument | «local» | static | this | that | pointer | temp
  deriving DecidableEq, Repr

def Segment.name : Segment → String
  | constant => "constant"
  | argument => "argument"
  | «local» => "local"
  | static => "static"
  | this => "this"
  | that => "that"
  | pointer => "pointer"
  | temp => "temp"

/-- The operations on the top of the stack. -/
inductive Operation
  | add | sub | neg | eq | gt | lt | and | or | not
  deriving DecidableEq, Repr

def Operation.name : Operation → String
  | add => "add"
  | sub => "sub"
  | neg => "neg"
  | eq => "eq"
  | gt => "gt"
  | lt => "lt"
  | and => "and"
  | or => "or"
  | not => "not"

inductive Command
  | push (segment : Segment) (index : Nat)
  | pop (segment : Segment) (index : Nat)
  | operation (op : Operation)
  | label (name : String)
  | goto (name : String)
  /-- Jumps when the value it pops is not false. -/
  | ifGoto (name : String)
  | call (name : String) (arguments : Nat)
  | function (name : String) (locals : Nat)
  | «return»
  deriving DecidableEq, Repr

namespace Command

/-- The line of the command, without its line end. -/
def text : Command → String
  | push segment index => "push " ++ segment.name ++ " " ++ toString index
  | pop segment index => "pop " ++ segment.name ++ " " ++ toString index
  | operation op => op.name
  | label name => "label " ++ name
  | goto name => "goto " ++ name
  | ifGoto name => "if-goto " ++ name
  | call name arguments => "call " ++ name ++ " " ++ toString arguments
  | function name locals => "function " ++ name ++ " " ++ toString locals
  | «return» => "return"

/-- The record of the command being written. -/
def record (command : Command) : Log.Record := ⟨.trace, "emit: " ++ command.text⟩

end Command

/-- The text of a program, one command per line. -/
def render (program : List Command) : String :=
  String.join (program.map fun command => command.text ++ "\n")

end JackCompiler.Vm
