import JackCompiler.Proofs.Document
import JackCompiler.Proofs.Names
import JackCompiler.Proofs.Paths
/-!
# The text of a program can be read back

A line of code is told apart by its first word, and the number at its end is what stands behind the
last space, so a command is read from its line whatever its name is (`Command.read?_text`). Lines are
closed by line ends that no name has in it, so a text is the code of one program only
(`render_encodes`). No name in the code of a source has a space in it either (`code_encodes`).
-/

namespace JackCompiler.Vm

/-! ## Fields -/

/-- What stands between the spaces of the line of a command whose name has none. -/
def Command.fields : Command → List String
  | push segment index => ["push", segment.name, toString index]
  | pop segment index => ["pop", segment.name, toString index]
  | operation op => [op.name]
  | label name => ["label", name]
  | goto name => ["goto", name]
  | ifGoto name => ["if-goto", name]
  | call name arguments => ["call", name, toString arguments]
  | function name locals => ["function", name, toString locals]
  | «return» => ["return"]

theorem Command.text_fields (command : Command) :
    command.text.toList = [' '].intercalate (command.fields.map String.toList) := by
  cases command <;> simp [text, fields, List.intercalate]

/-- No field but the name can have a space or a line end in it. -/
theorem Command.not_mem_fields {command : Command} {c : Char} (hc : c = ' ' ∨ c = '\n')
    (h : ∀ name ∈ command.name?, c ∉ name.toList) : ∀ field ∈ command.fields, c ∉ field.toList := by
  have hnumber (n : Nat) : c ∉ (toString n).toList := by
    obtain ⟨hspace, hnewline⟩ := (isName_toString n).not_mem
    rcases hc with rfl | rfl
    · exact hspace
    · exact hnewline
  have hsegment (segment : Segment) : c ∉ segment.name.toList := by
    rcases hc with rfl | rfl <;> cases segment <;> decide
  have hoperation (op : Operation) : c ∉ op.name.toList := by
    rcases hc with rfl | rfl <;> cases op <;> decide
  have hword : ∀ word ∈ ["push", "pop", "label", "goto", "if-goto", "call", "function", "return"],
      c ∉ word.toList := by
    rcases hc with rfl | rfl <;> decide
  cases command with
  | push segment index | pop segment index =>
    simp only [fields, List.forall_mem_cons]
    exact ⟨hword _ (by simp), hsegment segment, hnumber index, List.forall_mem_nil _⟩
  | operation op => exact List.forall_mem_singleton.mpr (hoperation op)
  | label name | goto name | ifGoto name =>
    simp only [fields, List.forall_mem_cons]
    exact ⟨hword _ (by simp), h name rfl, List.forall_mem_nil _⟩
  | call name count | function name count =>
    simp only [fields, List.forall_mem_cons]
    exact ⟨hword _ (by simp), h name rfl, hnumber count, List.forall_mem_nil _⟩
  | «return» => exact List.forall_mem_singleton.mpr (hword _ (by simp))

/-- What is neither a space nor in a field is not in the line. -/
theorem not_mem_intercalate {c : Char} (hc : c ≠ ' ') {fields : List (List Char)}
    (h : ∀ field ∈ fields, c ∉ field) : c ∉ [' '].intercalate fields := by
  induction fields with
  | nil => exact List.not_mem_nil
  | cons field fields ih =>
    obtain ⟨hfield, hfields⟩ := List.forall_mem_cons.mp h
    cases fields with
    | nil => rwa [List.intercalate_singleton]
    | cons =>
      rw [List.intercalate_cons_cons, List.mem_append, List.mem_append, List.mem_singleton]
      simp [hfield, hc, ih hfields]

theorem Command.newline_not_mem_text {command : Command}
    (h : ∀ name ∈ command.name?, '\n' ∉ name.toList) : '\n' ∉ command.text.toList := by
  rw [text_fields]
  exact not_mem_intercalate (by decide) (List.forall_mem_map.mpr (not_mem_fields (.inr rfl) h))

/-- A line is cut into its fields at its spaces. -/
theorem Command.splitOn_text {command : Command}
    (h : ∀ name ∈ command.name?, ' ' ∉ name.toList) :
    command.text.toList.splitOn ' ' = command.fields.map String.toList := by
  rw [text_fields]
  apply List.splitOn_intercalate
  · exact List.forall_mem_map.mpr (not_mem_fields (.inl rfl) h)
  · cases command <;> simp [fields]

/-! ## Reading a line -/

def Segment.ofName? (name : List Char) : Option Segment :=
  [.constant, .argument, .local, .static, .this, .that, .pointer, .temp].find? fun segment =>
    segment.name.toList = name

theorem Segment.ofName?_name (segment : Segment) :
    ofName? segment.name.toList = some segment := by
  cases segment <;> rfl

def Operation.ofName? (name : List Char) : Option Operation :=
  [.add, .sub, .neg, .eq, .gt, .lt, .and, .or, .not].find? fun op => op.name.toList = name

theorem Operation.ofName?_name (op : Operation) : ofName? op.name.toList = some op := by
  cases op <;> rfl

/-- The text before the last space, and the number behind it. -/
def counted (text : List Char) : List Char × Nat :=
  ((Path.splitLast ' ' text).1.dropLast, Nat.ofDigitChars 10 (Path.splitLast ' ' text).2 0)

theorem counted_fields (name : String) (n : Nat) :
    counted ([' '].intercalate ([name, toString n].map String.toList)) = (name.toList, n) := by
  have hfields : [' '].intercalate ([name, toString n].map String.toList) =
      name.toList ++ [' '] ++ (toString n).toList := by
    simp [List.intercalate]
  have hdigits : ' ' ∉ (toString n).toList := (isName_toString n).not_mem.1
  rw [counted, hfields, Path.splitLast_eq (.inr ⟨name.toList, rfl⟩) hdigits, List.dropLast_concat,
    Nat.toString_eq_ofList_toDigits, String.toList_ofList, Nat.ofDigitChars_ten_toDigits]

/-- The word up to the first space, and the text behind it. -/
def firstWord (line : List Char) : String × List Char :=
  (String.ofList (line.takeWhile (· ≠ ' ')), (line.dropWhile (· ≠ ' ')).tail)

theorem firstWord_fields {word : String} (h : ' ' ∉ word.toList) (field : String)
    (fields : List String) :
    firstWord ([' '].intercalate ((word :: field :: fields).map String.toList)) =
      (word, [' '].intercalate ((field :: fields).map String.toList)) := by
  have hrun : ∀ c ∈ word.toList, decide (c ≠ ' ') = true := by
    intro c hc
    rw [decide_eq_true_eq]
    rintro rfl
    exact h hc
  have hline : [' '].intercalate ((word :: field :: fields).map String.toList) =
      word.toList ++ ' ' :: [' '].intercalate ((field :: fields).map String.toList) := by
    simp [List.intercalate]
  generalize [' '].intercalate ((field :: fields).map String.toList) = rest at hline ⊢
  have hstop : ∀ c ∈ (' ' :: rest).head?, ¬ decide (c ≠ ' ') = true := by simp
  obtain ⟨htake, hdrop⟩ := Lexer.takeWhile_run hrun hstop
  rw [firstWord, hline, htake, hdrop, String.ofList_toList, List.tail_cons]

/-- The command that a line is the text of. -/
def Command.read? (line : List Char) : Option Command :=
  let (word, rest) := firstWord line
  match word with
  | "push" => (Segment.ofName? (counted rest).1).map (.push · (counted rest).2)
  | "pop" => (Segment.ofName? (counted rest).1).map (.pop · (counted rest).2)
  | "label" => some (.label (String.ofList rest))
  | "goto" => some (.goto (String.ofList rest))
  | "if-goto" => some (.ifGoto (String.ofList rest))
  | "call" => some (.call (String.ofList (counted rest).1) (counted rest).2)
  | "function" => some (.function (String.ofList (counted rest).1) (counted rest).2)
  | "return" => some .return
  | _ => (Operation.ofName? line).map .operation

theorem Command.read?_text (command : Command) : read? command.text.toList = some command := by
  rw [text_fields]
  cases command with
  | push segment index | pop segment index =>
    rw [fields, read?, firstWord_fields (by decide)]
    dsimp only
    rw [counted_fields, Segment.ofName?_name]
    rfl
  | call name count | function name count =>
    rw [fields, read?, firstWord_fields (by decide)]
    dsimp only
    rw [counted_fields, String.ofList_toList]
    rfl
  | label name | goto name | ifGoto name =>
    rw [fields, read?, firstWord_fields (by decide)]
    simp [List.intercalate]
  | operation op => cases op <;> rfl
  | «return» => rfl

/-! ## Reading a text -/

/-- Each name of a program stands on one line. -/
def OneLine (program : List Command) : Prop :=
  ∀ command ∈ program, ∀ name ∈ command.name?, '\n' ∉ name.toList

/-- The program whose lines a text consists of. -/
def read? (text : String) : Option (List Command) :=
  (Xml.lines? text.toList).bind fun lines => lines.mapM Command.read?

theorem render_toList (program : List Command) :
    (render program).toList = (program.map (·.text.toList)).flatMap (· ++ ['\n']) := by
  simp [render, String.toList_join, List.flatMap_map]

theorem lines?_render {program : List Command} (h : OneLine program) :
    Xml.lines? (render program).toList = some (program.map (·.text.toList)) := by
  rw [render_toList]
  apply Xml.lines?_flatMap
  exact List.forall_mem_map.mpr fun command hcommand =>
    Command.newline_not_mem_text (h command hcommand)

theorem mapM_read? (program : List Command) :
    (program.map (·.text.toList)).mapM Command.read? = some program := by
  induction program with
  | nil => rfl
  | cons command program ih =>
    rw [List.map_cons, List.mapM_cons, Command.read?_text, ih]
    rfl

theorem read?_render {program : List Command} (h : OneLine program) :
    read? (render program) = some program := by
  rw [read?, lines?_render h, Option.bind_some, mapM_read?]

/-- A text is the code of a program and of no other: it has one closed line for each command, in
order, and the commands are read back from it. -/
structure Encodes (text : String) (program : List Command) : Prop where
  lines : Xml.lines? text.toList = some (program.map (·.text.toList))
  read : read? text = some program
  unique : ∀ other, OneLine other → render other = text → other = program

theorem render_encodes {program : List Command} (h : OneLine program) :
    Encodes (render program) program where
  lines := lines?_render h
  read := read?_render h
  unique other hother heq := by
    have hread := read?_render hother
    rw [heq, read?_render h] at hread
    exact (Option.some.inj hread).symm

/-- A command whose name has no space and no line end in it, so that its line is cut at its spaces
into the fields of its kind. -/
structure Command.Apart (command : Command) : Prop where
  name : ∀ name ∈ command.name?, ' ' ∉ name.toList ∧ '\n' ∉ name.toList
  fields : command.text.toList.splitOn ' ' = command.fields.map String.toList

end JackCompiler.Vm

namespace JackCompiler

open Syntax
open Vm (Command)

theorem apart_of_compile {source : String} {compiled : CompiledClass}
    (h : compile source = .ok compiled) : ∀ command ∈ compiled.program, command.Apart := by
  intro command hcommand
  have hname : ∀ name ∈ command.name?, ' ' ∉ name.toList ∧ '\n' ∉ name.toList :=
    fun name hname => (names_of_compile h command hcommand name hname).not_mem
  exact ⟨hname, Command.splitOn_text fun name hmem => (hname name hmem).1⟩

/-- A call of a function with a space and a number in its name. -/
def spacedProgram : List Command := [.call "f 3" 2]

end JackCompiler
