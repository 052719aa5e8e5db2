import JackCompiler.Proofs.Commands
/-!
# Inside the segments

How many places the segments of a function have, and what it means that a command stays inside them
(`Vm.Command.Inside`). A variable is numbered among those of its storage, so its number is smaller
than their count (`Class.scope_bounded`), and every command of a function stays inside the segments
that its class and its head declare (`Class.function_inside`).
-/

namespace JackCompiler

namespace Vm

/-- How many places the segments of a function have. -/
structure Extent where
  statics : Nat
  fields : Nat
  arguments : Nat
  locals : Nat

/-- Nothing can be stored in the segment of constants, and of those the compiled code uses for
itself it has two pointers and one place each to reach through them and to keep a value. -/
def Extent.places (extent : Extent) : Segment → Nat
  | .static => extent.statics
  | .this => extent.fields
  | .argument => extent.arguments
  | .local => extent.locals
  | .pointer => 2
  | .that | .temp => 1
  | .constant => 0

/-- A command reads and stores only at places that the segments have; any constant can be read. -/
def Command.Inside (extent : Extent) : Command → Prop
  | .push .constant _ => True
  | .push segment index | .pop segment index => index < extent.places segment
  | .operation _ | .call _ _ | .label _ | .goto _ | .ifGoto _ | .function _ _ | .return => True

end Vm

namespace Syntax

open Vm (Command Extent)

/-! ## Numbers of variables -/

/-- A slot is that of a variable of its storage, and numbered below their count. -/
theorem numberedAfter_index {earlier vs : List Variable} {slot : Slot}
    (h : slot ∈ numberedAfter earlier vs) :
    (∃ v ∈ vs, v.storage = slot.storage) ∧
      slot.index < (earlier ++ vs).countP (·.storage = slot.storage) := by
  induction vs generalizing earlier with
  | nil => cases h
  | cons v vs ih =>
    rcases List.mem_cons.mp h with rfl | h
    · refine ⟨⟨v, List.mem_cons_self, rfl⟩, ?_⟩
      simp only [List.countP_append, List.countP_cons, decide_true, if_true]
      omega
    · obtain ⟨⟨u, hu, hstorage⟩, hindex⟩ := ih h
      rw [List.append_assoc, List.singleton_append] at hindex
      exact ⟨⟨u, List.mem_cons_of_mem _ hu, hstorage⟩, hindex⟩

theorem numbered_index {vs : List Variable} {slot : Slot}
    (h : slot ∈ numbered vs) :
    (∃ v ∈ vs, v.storage = slot.storage) ∧
      slot.index < vs.countP (·.storage = slot.storage) :=
  numberedAfter_index (show slot ∈ numberedAfter [] vs from h)

/-! ## What is declared -/

/-- The places that a subroutine of a class has to do with. -/
def Class.extent (c : Class) (s : Subroutine) : Extent :=
  ⟨c.staticCount, c.fieldCount, s.argumentCount, s.localCount⟩

theorem Class.declared_storage {c : Class} {v : Variable} (h : v ∈ c.declared) :
    v.storage = .static ∨ v.storage = .field := by
  obtain ⟨group, -, hv⟩ := List.mem_flatMap.mp h
  obtain ⟨name, -, rfl⟩ := List.mem_map.mp hv
  cases group.storage with
  | static => exact .inl rfl
  | field => exact .inr rfl

theorem Subroutine.declared_storage {s : Subroutine} {className : String} {v : Variable}
    (h : v ∈ s.receiver className ++ s.declared) :
    v.storage = .argument ∨ v.storage = .local := by
  simp only [Subroutine.declared, List.mem_append, List.mem_map, List.mem_flatMap] at h
  rcases h with h | ⟨parameter, -, rfl⟩ | ⟨group, -, h⟩
  · rw [Subroutine.receiver] at h
    split at h
    · obtain rfl := List.mem_singleton.mp h
      exact .inl rfl
    · cases h
  · exact .inl rfl
  · obtain ⟨name, -, rfl⟩ := List.mem_map.mp h
    exact .inr rfl

/-- The parameters of a method are numbered behind its receiver. -/
theorem Subroutine.count_argument (s : Subroutine) (className : String) :
    (s.receiver className ++ s.declared).countP (·.storage = .argument) = s.argumentCount := by
  have hreceiver : (s.receiver className).countP (·.storage = .argument) =
      if s.kind = .method then 1 else 0 := by
    rw [Subroutine.receiver]
    split <;> rfl
  have hparameters : (s.parameters.map (·.declared)).countP (·.storage = .argument) =
      s.parameters.length := by
    simp [List.countP_map, Function.comp_def]
  have hlocals : (s.locals.flatMap (·.declared .local)).countP (·.storage = .argument) = 0 := by
    simp [List.countP_flatMap, VariableGroup.declared, Function.comp_def]
  rw [Subroutine.declared, List.countP_append, List.countP_append, hreceiver, hparameters, hlocals,
    Subroutine.argumentCount]
  omega

/-- What a name means in a subroutine has a place in its segment. -/
theorem Class.scope_bounded {c : Class} {s : Subroutine} {name : String} {slot : Slot}
    (h : (c.scope s).lookup? name = some slot) :
    slot.index < (c.extent s).places slot.storage.segment := by
  rcases Option.or_eq_some_iff.mp h with h | ⟨-, h⟩
  · obtain ⟨⟨v, hv, hstorage⟩, hindex⟩ := numbered_index (List.mem_of_find?_eq_some h)
    have hcase := Subroutine.declared_storage hv
    rw [hstorage] at hcase
    rcases hcase with hcase | hcase <;> rw [hcase] at hindex ⊢
    · rw [s.count_argument] at hindex
      exact hindex
    · rw [s.count_local] at hindex
      exact hindex
  · obtain ⟨⟨v, hv, hstorage⟩, hindex⟩ := numbered_index (List.mem_of_find?_eq_some h)
    have hcase := Class.declared_storage hv
    rw [hstorage] at hcase
    rcases hcase with hcase | hcase <;> rw [hcase] at hindex ⊢ <;> exact hindex

/-! ## Commands -/

/-- A variable is read and stored inside its segment. -/
theorem slot_inside {extent : Extent} {slot : Slot}
    (h : slot.index < extent.places slot.storage.segment) :
    slot.push.Inside extent ∧ slot.pop.Inside extent := by
  obtain ⟨name, type, storage, index⟩ := slot
  cases storage <;> exact ⟨h, h⟩

theorem ValueCommand.inside {c : Class} {s : Subroutine} {terms : List Term} {command : Command}
    (h : ValueCommand (c.scope s) terms command) : command.Inside (c.extent s) := by
  cases h with
  | number => trivial
  | object => exact Nat.zero_lt_two
  | read h => exact (slot_inside (Class.scope_bounded h)).1
  | address => exact Nat.one_lt_two
  | element => exact Nat.zero_lt_one
  | operation => trivial
  | call => trivial

theorem BodyCommand.inside {c : Class} {s : Subroutine} {terms : List Term} {command : Command}
    (h : BodyCommand (c.scope s) terms command) : command.Inside (c.extent s) := by
  cases h with
  | value h => exact h.inside
  | assign h => exact (slot_inside (Class.scope_bounded h)).2
  | keep => exact Nat.zero_lt_one
  | restore => exact Nat.zero_lt_one
  | store => exact Nat.zero_lt_one
  | nothing => trivial
  | label => trivial
  | goto => trivial
  | ifGoto => trivial
  | «return» => trivial

/-- A method has an argument before its parameters, which is its receiver. -/
theorem Class.prologue_inside (c : Class) (s : Subroutine) :
    ∀ command ∈ c.prologue s.kind, command.Inside (c.extent s) := by
  cases hkind : s.kind with
  | constructor =>
    simp only [Class.prologue, List.forall_mem_cons]
    exact ⟨trivial, trivial, Nat.zero_lt_two, List.forall_mem_nil _⟩
  | method =>
    have hreceiver : 0 < s.argumentCount := by
      rw [Subroutine.argumentCount, if_pos hkind]
      omega
    simp only [Class.prologue, List.forall_mem_cons]
    exact ⟨hreceiver, Nat.zero_lt_two, List.forall_mem_nil _⟩
  | function => exact List.forall_mem_nil _

/-- Every command of a function stays inside the segments that are declared for it. -/
theorem Class.function_inside (c : Class) (s : Subroutine) :
    ∀ command ∈ c.function s, command.Inside (c.extent s) := by
  rw [Class.function, Class.entry, List.forall_mem_append, List.forall_mem_cons]
  refine ⟨⟨trivial, c.prologue_inside s⟩, fun command hmem => ?_⟩
  exact (s.body.commands 0 0 (List.Subset.refl _) command hmem).inside

end Syntax

end JackCompiler
