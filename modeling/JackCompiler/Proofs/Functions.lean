import JackCompiler.Proofs.Acceptance
import JackCompiler.Proofs.Fields
import JackCompiler.Proofs.Independence
import JackCompiler.Proofs.Safety
/-!
# What every function keeps to

The functions of a program that a source compiles to are those of the subroutines of its class. If
the counts of a subroutine fit, its function has one depth of the stack at each place
(`functions_balanced`) and stays inside the segments that are declared for it (`accesses_inside`).
If only its `if` and `while` statements do, its jumps are resolved by labels of its own
(`jumps_resolved`). So the machine does not get stuck in a function (`functions_go_on`).
-/

namespace JackCompiler

open Syntax

variable {source : String} {compiled : CompiledClass} {c : Syntax.Class} {s : Subroutine}

/-- A source is the text of a class, and the functions of a program are those of the subroutines of
the class, in 16 bits. -/
structure Comprises (source : String) (compiled : CompiledClass) (c : Syntax.Class) : Prop where
  lexes : Lexes source c.lexemes
  functions : Vm.functions compiled.program = c.subroutines.map c.written

theorem Comprises.eq {c' : Syntax.Class} (h : Comprises source compiled c)
    (hlex : Lexes source c'.lexemes) : c = c' :=
  Class.lexemes_injective (h.lexes.unique hlex)

theorem comprises_of_compile (h : compile source = .ok compiled) :
    ∃ c : Syntax.Class, Comprises source compiled c ∧ c.Named ∧ c.Fit := by
  obtain ⟨c, hlex⟩ := lexes_of_compile h
  obtain ⟨⟨hnamed, hfit⟩, rfl⟩ := (compile_of_lexes hlex).mp h
  exact ⟨c, ⟨hlex, c.functions_program⟩, hnamed, hfit⟩

/-! ## The depth of the stack -/

/-- For the function of a subroutine the depth of the stack can be told at every place: it is `0`
behind the head, before and behind every statement at any depth, at every label and at the end, and
`1` at every `return`; no command takes more values than there are; and it is the same on whatever
way execution comes to the place. -/
def Syntax.Class.Levelled (c : Syntax.Class) (s : Subroutine) : Prop :=
  ∃ depth, Vm.Balanced (c.written s) depth ∧
    (s.body.placed (c.scope s) 0 0).map (·.statement) = s.body.all ∧
    ∀ p ∈ s.body.placed (c.scope s) 0 0,
      c.entry s ++ p.before ++ p.code (c.scope s) <+: c.written s ∧
      depth (c.entry s ++ p.before).length = 0 ∧
      depth (c.entry s ++ p.before ++ p.code (c.scope s)).length = 0

/-- The functions of a program are levelled where the counts of their subroutines fit. -/
theorem functions_balanced (h : compile source = .ok compiled) :
    ∃ c : Syntax.Class, Comprises source compiled c ∧
      ∀ s ∈ c.subroutines, c.Narrow s → c.Levelled s := by
  obtain ⟨c, hclass, hnamed, hfit⟩ := comprises_of_compile h
  refine ⟨c, hclass, fun s hs hnarrow => ?_⟩
  obtain ⟨depth, hbalanced, hplaced⟩ := c.function_balanced s (hnamed.subroutines s hs).resolved
  rw [Syntax.Class.Levelled, written_of_narrow hclass.lexes hfit hs hnarrow]
  exact ⟨depth, hbalanced, s.body.placed_statements (c.scope s) 0 0, hplaced⟩

theorem counter_functions_balanced :
    compile counterSource = .ok ⟨"Counter", counterClass.code⟩ ∧
      counterClass.Narrow counterMethod ∧ counterClass.Levelled counterMethod := by
  obtain ⟨c, hclass, hlevelled⟩ := functions_balanced compile_counter
  obtain rfl := hclass.eq lexes_counter
  exact ⟨compile_counter, counter_narrow, hlevelled _ List.mem_cons_self counter_narrow⟩

/-! ## Jumps and labels -/

/-- In the function of a subroutine no label stands twice, every jump is to a label that stands
there, and every label is jumped to. It has two labels for each `while` and each `if` without `else`
of the subroutine, and three for each `if` with `else`. -/
structure Syntax.Class.Linked (c : Syntax.Class) (s : Subroutine) : Prop where
  distinct : (Vm.labels (c.written s)).Nodup
  defined : ∀ name ∈ Vm.jumps (c.written s), (Vm.labels (c.written s)).count name = 1
  used : ∀ name ∈ Vm.labels (c.written s), name ∈ Vm.jumps (c.written s)
  count : (Vm.labels (c.written s)).length = (s.body.all.map (·.labelCount)).sum

/-- The functions of a program are linked where the numbers of `if` and `while` statements fit. -/
theorem jumps_resolved (h : compile source = .ok compiled) :
    ∃ c : Syntax.Class, Comprises source compiled c ∧
      ∀ s ∈ c.subroutines, s.body.ifs < 65536 → s.body.whiles < 65536 → c.Linked s := by
  obtain ⟨c, hclass, -, -⟩ := comprises_of_compile h
  refine ⟨c, hclass, fun s _ hifs hwhiles => ?_⟩
  have hlabels : Vm.labels (c.written s) = Vm.labels (c.function s) := Vm.labels_wrap _
  have hjumps : Vm.jumps (c.written s) = Vm.jumps (c.function s) := Vm.jumps_wrap _
  have hdistinct := c.function_labels hifs.le hwhiles.le
  have hmem (name : String) := (c.function_jumps s).mem_iff (a := name)
  refine ⟨?distinct, ?defined, ?used, ?count⟩ <;> rw [hlabels]
  case distinct => exact hdistinct
  case defined =>
    rw [hjumps]
    exact fun name hname => List.count_eq_one_of_mem hdistinct ((hmem name).mp hname)
  case used =>
    rw [hjumps]
    exact fun name hname => (hmem name).mpr hname
  case count => exact c.function_label_count s

theorem counter_jumps_resolved :
    compile counterSource = .ok ⟨"Counter", counterClass.code⟩ ∧
      counterMethod.body.ifs < 65536 ∧ counterMethod.body.whiles < 65536 ∧
      counterClass.Linked counterMethod := by
  obtain ⟨c, hclass, hlinked⟩ := jumps_resolved compile_counter
  obtain rfl := hclass.eq lexes_counter
  exact ⟨compile_counter, counter_narrow.ifs, counter_narrow.whiles,
    hlinked _ List.mem_cons_self counter_narrow.ifs counter_narrow.whiles⟩

/-! ## Places of the segments -/

/-- Every command of the function of a subroutine stays inside the segments: of the locals that its
head declares, the parameters of the subroutine and the receiver of a method, the fields and statics
of the class, two pointers, and the first place of the scratch segment and of the one for array
elements. Nothing is stored as a constant. A constructor begins by allocating a word for each
field. -/
structure Syntax.Class.Contained (c : Syntax.Class) (s : Subroutine) : Prop where
  inside : ∀ command ∈ c.written s, command.Inside (c.extent s)
  head : ∃ body, c.written s = .function (c.name ++ "." ++ s.name) s.localCount :: body ∧
    (s.kind = .constructor →
      [.push .constant c.fieldCount, .call "Memory.alloc" 1, .pop .pointer 0] <+: body)

/-- The functions of a program are contained where the counts of their subroutines fit. There are as
many fields in the symbol table where the subroutines of the class begin as have been counted there,
and as the class has. -/
theorem accesses_inside (h : compile source = .ok compiled) :
    ∃ c : Syntax.Class, Comprises source compiled c ∧
      (∃ state, AtSubroutines source state) ∧
      (∀ state, AtSubroutines source state →
        state.fieldCount = state.symbols.count .field ∧
        (c.fieldCount < 65536 → (state.fieldCount : Nat) = c.fieldCount)) ∧
      ∀ s ∈ c.subroutines, c.Narrow s → c.Contained s := by
  obtain ⟨c, hclass, -, hfit⟩ := comprises_of_compile h
  obtain ⟨hcomes, hfields⟩ := fields_final hclass.lexes h
  refine ⟨c, hclass, hcomes, fun state hstate => ?_, fun s hs hnarrow => ?_⟩
  · obtain ⟨hcounted, hcount⟩ := hfields state hstate
    refine ⟨hcounted, fun hfew => ?_⟩
    rw [hcount, UInt16.toNat_ofNat', Nat.mod_eq_of_lt hfew]
  · have hwritten := written_of_narrow hclass.lexes hfit hs hnarrow
    refine ⟨hwritten ▸ c.function_inside s, _, hwritten, fun hkind => ?_⟩
    rw [hkind]
    exact List.prefix_append _ _

theorem cell_accesses_inside :
    compile cellSource = .ok ⟨"Cell", cellClass.code⟩ ∧
      cellClass.Narrow cellNew ∧ cellClass.Contained cellNew := by
  obtain ⟨c, hclass, -, -, hcontained⟩ := accesses_inside compile_cell
  obtain rfl := hclass.eq lexes_cell
  exact ⟨compile_cell, cell_narrow, hcontained _ List.mem_cons_self cell_narrow⟩

/-! ## Going on -/

/-- Run from behind the head of a function whose counts fit, with nothing on the stack, the machine
goes on wherever it comes, unless it is at a `return` with one value on the stack or behind the last
command with none. -/
theorem functions_go_on (h : compile source = .ok compiled) (hlex : Lexes source c.lexemes)
    (hs : s ∈ c.subroutines) (hnarrow : c.Narrow s) {callees : Vm.Callees} {m : Vm.Machine}
    (hm : m.stack = []) {ds : List Bool} {q : Vm.Point}
    (hruns : Vm.Runs callees (c.written s) ⟨(c.written s).tail, m⟩ ds q) :
    (∃ es r, Vm.step callees (c.written s) q = some (es, r)) ∨
      Vm.step callees (c.written s) q = none ∧ q.Ends := by
  obtain ⟨⟨hnamed, hfit⟩, -⟩ := (compile_of_lexes hlex).mp h
  rw [written_of_narrow hlex hfit hs hnarrow] at hruns ⊢
  obtain ⟨depth, hsafe⟩ := c.function_safe s (hnamed.subroutines s hs).resolved
  have hstart : Vm.Point.At (c.function s) depth 1 ⟨(c.function s).tail, m⟩ :=
    ⟨rfl, Nat.one_pos, Nat.le_add_left 1 _, by rw [hm, hsafe.balanced.head]; rfl⟩
  obtain ⟨k, hplace⟩ := hsafe.runs hruns hstart
  rcases hsafe.advance callees hplace with ⟨es, r, -, hstep, -⟩ | hends
  · exact .inl ⟨es, r, hstep⟩
  · exact .inr hends

end JackCompiler
