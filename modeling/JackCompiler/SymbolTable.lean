import JackCompiler.Diagnostic
import JackCompiler.Vm.Command
/-!
# The symbol table

Two lists of declared variables, in the order of their declaration: the class scope holds statics
and fields, and the subroutine scope, which each subroutine starts anew, holds arguments and locals.
A variable is numbered among those of its storage in its scope, and a name means its declaration in
the subroutine scope if it has one there, else the one in the class scope.

Counts and indices have 16 bits, and a count that does not fit loses its upper bits: behind 65536
variables of a storage the numbering starts again at 0, and two variables of a scope have one
number. What is proved of the meaning of a variable therefore asks that no scope has more of a
storage than that (`Declared.Bounded`, `Class.Narrow`); what a name is bound to needs no bound.
-/

namespace JackCompiler

/-- A 16-bit number where a number is asked for. -/
instance coeOutNat : CoeOut UInt16 Nat := ⟨UInt16.toNat⟩

/-- What a variable is stored as. -/
inductive Storage
  | static | field | argument | «local»
  deriving DecidableEq, Repr

namespace Storage

def name : Storage → String
  | static => "static"
  | field => "field"
  | argument => "argument"
  | «local» => "local"

/-- The segment that holds the variables of the storage. -/
def segment : Storage → Vm.Segment
  | static => .static
  | field => .this
  | argument => .argument
  | «local» => .local

/-- Whether variables of the storage belong to the class and not to one subroutine. -/
def isClassScope : Storage → Bool
  | static | field => true
  | argument | «local» => false

end Storage

/-- A declared variable. `index` counts the earlier variables of its storage in its scope, in 16
bits. -/
structure Declaration where
  name : String
  type : String
  storage : Storage
  index : UInt16
  deriving DecidableEq, Repr

/-- The command that pushes the variable. -/
def Declaration.push (declared : Declaration) : Vm.Command :=
  .push declared.storage.segment declared.index

/-- The command that pops into the variable. -/
def Declaration.pop (declared : Declaration) : Vm.Command :=
  .pop declared.storage.segment declared.index

structure SymbolTable where
  classScope : List Declaration := []
  subroutineScope : List Declaration := []
  deriving DecidableEq, Repr

namespace SymbolTable

/-- The scope that variables of a storage belong to. -/
def scope (table : SymbolTable) (storage : Storage) : List Declaration :=
  if storage.isClassScope then table.classScope else table.subroutineScope

/-- How many variables of a storage are declared, in 16 bits. -/
def count (table : SymbolTable) (storage : Storage) : UInt16 :=
  .ofNat ((table.scope storage).countP (·.storage = storage))

/-- Forgets the arguments and locals. -/
def startSubroutine (table : SymbolTable) : SymbolTable := { table with subroutineScope := [] }

/-- Declares a variable, whose name must be new in its scope, and gives its index. -/
def define (table : SymbolTable) (name type : String) (storage : Storage) :
    Except Fault (UInt16 × SymbolTable) :=
  if (table.scope storage).any (·.name = name) then .error (.duplicateDefinition name)
  else
    let index := table.count storage
    let declared : Declaration := { name, type, storage, index }
    if storage.isClassScope then
      .ok (index, { table with classScope := table.classScope ++ [declared] })
    else .ok (index, { table with subroutineScope := table.subroutineScope ++ [declared] })

/-- What a name means. -/
def lookup? (table : SymbolTable) (name : String) : Option Declaration :=
  (table.subroutineScope.find? (·.name = name)).or (table.classScope.find? (·.name = name))

/-- What a name means, which must be declared. -/
def resolve (table : SymbolTable) (name : String) : Except Fault Declaration :=
  match table.lookup? name with
  | some declared => .ok declared
  | none => .error (.undefinedSymbol name)

def storageOf? (table : SymbolTable) (name : String) : Option Storage :=
  (table.lookup? name).map (·.storage)

def typeOf (table : SymbolTable) (name : String) : Except Fault String :=
  (table.resolve name).map (·.type)

def indexOf (table : SymbolTable) (name : String) : Except Fault UInt16 :=
  (table.resolve name).map (·.index)

end SymbolTable

end JackCompiler
