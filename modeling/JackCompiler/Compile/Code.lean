import JackCompiler.Compile.Goal
/-!
# The commands of each construct

What is written for constants, operators, array accesses, branches and the start of a subroutine.
The machine has no instructions to multiply or divide, and none for strings and objects; calls of
the operating system stand in for them.
-/

namespace JackCompiler.Compile

open Vm (Command)

/-- The command of a binary operator. -/
def binaryCommand? : Symbol → Option Command
  | .plus => some (.operation .add)
  | .minus => some (.operation .sub)
  | .amp => some (.operation .and)
  | .pipe => some (.operation .or)
  | .less => some (.operation .lt)
  | .greater => some (.operation .gt)
  | .equal => some (.operation .eq)
  | .star => some (.call "Math.multiply" 2)
  | .slash => some (.call "Math.divide" 2)
  | _ => none

/-- Whether a symbol may stand between two terms. -/
def isBinary : Symbol → Bool
  | .plus | .minus | .star | .slash | .amp | .pipe | .less | .greater | .equal => true
  | _ => false

/-- The symbols that may stand between two terms are those with a command. -/
theorem isSome_binaryCommand? (symbol : Symbol) :
    (binaryCommand? symbol).isSome = isBinary symbol := by
  cases symbol <;> rfl

/-- The command of a unary operator. -/
def unaryCommand? : Symbol → Option Command
  | .minus => some (.operation .neg)
  | .tilde => some (.operation .not)
  | _ => none

/-- The commands of a keyword that is a value. -/
def constantCommands? : Keyword → Option (List Command)
  | .true => some [.push .constant 1, .operation .neg]
  | .false | .null => some [.push .constant 0]
  | .this => some [.push .pointer 0]
  | _ => none

/-- The commands that build a string object one character at a time. Its length and the codes of
its characters must be positive words. -/
def stringCommands? (contents : String) : Option (List Command) :=
  let codes := contents.toList.map Char.toNat
  if codes.all (· ≤ maxInt) && codes.length ≤ maxInt then
    some ([.push .constant codes.length, .call "String.new" 1] ++
      codes.flatMap fun code => [.push .constant code, .call "String.appendChar" 2])
  else none

/-- Adds an index to an array, both on the stack, and reads the element there. -/
def readElement : List Command := [.operation .add, .pop .pointer 1, .push .that 0]

/-- Stores the value on the stack at the address below it. The address goes to the pointer only
now, as computing the value may have moved it. -/
def storeElement : List Command :=
  [.pop .temp 0, .pop .pointer 1, .push .temp 0, .pop .that 0]

/-! ## Labels -/

def ifTrue (number : UInt16) : String := "IF_TRUE" ++ toString number
def ifFalse (number : UInt16) : String := "IF_FALSE" ++ toString number
def ifEnd (number : UInt16) : String := "IF_END" ++ toString number
def whileStart (number : UInt16) : String := "WHILE_EXP" ++ toString number
def whileEnd (number : UInt16) : String := "WHILE_END" ++ toString number

/-- The commands between the condition of an `if` and its first block. -/
def branch (number : UInt16) : List Command :=
  [.ifGoto (ifTrue number), .goto (ifFalse number), .label (ifTrue number)]

/-- The commands between the two blocks of an `if`. -/
def alternative (number : UInt16) : List Command :=
  [.goto (ifEnd number), .label (ifFalse number)]

/-- The commands between the condition of a `while` and its block. -/
def leaveLoop (number : UInt16) : List Command :=
  [.operation .not, .ifGoto (whileEnd number)]

/-- The commands after the block of a `while`. -/
def repeatLoop (number : UInt16) : List Command :=
  [.goto (whileStart number), .label (whileEnd number)]

/-! ## Subroutines -/

/-- What a subroutine does first: a constructor allocates its object, and a method takes its
receiver, the hidden first argument, as its object. -/
def prologue (kind : SubroutineKind) (fields : UInt16) : List Command :=
  match kind with
  | .constructor => [.push .constant fields, .call "Memory.alloc" 1, .pop .pointer 0]
  | .method => [.push .argument 0, .pop .pointer 0]
  | .function => []

end JackCompiler.Compile
