import JackCompiler.Proofs.Labels
import JackCompiler.Proofs.Substatements
/-!
# Every jump has its label

The jumps of a statement's code name the labels of that code, each of them once
(`Statements.jumps_perm`): no jump leaves the function, and no label stands there for nothing. How
many labels there are follows from the statements at any depth (`Statements.labels_length`).
-/

namespace JackCompiler.Syntax

open scoped List
open Compile (ifTrue ifFalse ifEnd whileStart whileEnd)

variable {scope : Scope}

/-! ## Jumps and labels -/

theorem perm_of_plain {code : List Vm.Command} (h : code.all (·.isPlain)) :
    (Vm.jumps code).Perm (Vm.labels code) := by
  rw [Vm.jumps_of_plain h, Vm.labels_of_plain h]

mutual

theorem Statement.jumps_perm (s : Statement) (i w : Nat) :
    (Vm.jumps (s.code scope i w)).Perm (Vm.labels (s.code scope i w)) := by
  cases s with
  | letVar name value =>
    rw [Statement.code, Vm.jumps_append, Vm.labels_append]
    exact (perm_of_plain value.plain).append (perm_of_plain (scope_assign_plain name))
  | letElement array index value =>
    simp only [Statement.code, Vm.jumps_append, Vm.labels_append]
    have harray : Vm.jumps (scope.read array) ~ Vm.labels (scope.read array) :=
      perm_of_plain (scope_read_plain array)
    have hindex : Vm.jumps (index.code scope) ~ Vm.labels (index.code scope) :=
      perm_of_plain index.plain
    exact (((harray.append hindex).append (.refl _)).append (perm_of_plain value.plain)).append
      (.refl _)
  | ifThen condition body =>
    simp only [Statement.code, Vm.jumps_append, Vm.labels_append,
      Vm.jumps_of_plain condition.plain, Vm.labels_of_plain condition.plain]
    have hbody := Statements.jumps_perm body (i + 1) w
    generalize Vm.jumps (body.code scope (i + 1) w) = jumps at hbody ⊢
    generalize Vm.labels (body.code scope (i + 1) w) = labels at hbody ⊢
    calc ifTrue (.ofNat i) :: ifFalse (.ofNat i) :: (jumps ++ [])
      _ = ifTrue (.ofNat i) :: ifFalse (.ofNat i) :: jumps := by rw [List.append_nil]
      _ ~ ifTrue (.ofNat i) :: ifFalse (.ofNat i) :: labels := (hbody.cons _).cons _
      _ ~ ifTrue (.ofNat i) :: (labels ++ [ifFalse (.ofNat i)]) :=
        (List.perm_append_singleton _ _).symm.cons _
  | ifElse condition body alternative =>
    simp only [Statement.code, Vm.jumps_append, Vm.labels_append,
      Vm.jumps_of_plain condition.plain, Vm.labels_of_plain condition.plain]
    have hbody := Statements.jumps_perm body (i + 1) w
    have halternative := Statements.jumps_perm alternative (i + 1 + body.ifs) (w + body.whiles)
    generalize Vm.jumps (body.code scope (i + 1) w) = jumps at hbody ⊢
    generalize Vm.labels (body.code scope (i + 1) w) = labels at hbody ⊢
    generalize Vm.jumps (alternative.code scope _ _) = others at halternative ⊢
    generalize Vm.labels (alternative.code scope _ _) = otherLabels at halternative ⊢
    have hinner :
        jumps ++ ifEnd (.ofNat i) :: others ~ labels ++ (otherLabels ++ [ifEnd (.ofNat i)]) :=
      hbody.append ((halternative.cons _).trans (List.perm_append_singleton _ _).symm)
    have hfalse : ifFalse (.ofNat i) :: (jumps ++ ifEnd (.ofNat i) :: others) ~
        labels ++ ifFalse (.ofNat i) :: (otherLabels ++ [ifEnd (.ofNat i)]) :=
      (hinner.cons _).trans List.perm_middle.symm
    simpa [Vm.jumps, Vm.labels, Vm.Command.jump?, Vm.Command.label?] using hfalse
  | whileLoop condition body =>
    simp only [Statement.code, Vm.jumps_append, Vm.labels_append,
      Vm.jumps_of_plain condition.plain, Vm.labels_of_plain condition.plain]
    have hbody := Statements.jumps_perm body i (w + 1)
    generalize Vm.jumps (body.code scope i (w + 1)) = jumps at hbody ⊢
    generalize Vm.labels (body.code scope i (w + 1)) = labels at hbody ⊢
    calc whileEnd (.ofNat w) :: (jumps ++ [whileStart (.ofNat w)])
      _ ~ whileEnd (.ofNat w) :: (labels ++ [whileStart (.ofNat w)]) :=
        (hbody.append_right _).cons _
      _ ~ (labels ++ [whileStart (.ofNat w)]) ++ [whileEnd (.ofNat w)] :=
        (List.perm_append_singleton _ _).symm
      _ ~ (whileStart (.ofNat w) :: labels) ++ [whileEnd (.ofNat w)] :=
        (List.perm_append_singleton _ _).append_right _
  | doCall call =>
    rw [Statement.code, Vm.jumps_append, Vm.labels_append]
    exact (perm_of_plain call.plain).append (.refl _)
  | returnNothing => exact .refl _
  | returnValue value =>
    rw [Statement.code, Vm.jumps_append, Vm.labels_append]
    exact (perm_of_plain value.plain).append (.refl _)

theorem Statements.jumps_perm (body : Statements) (i w : Nat) :
    (Vm.jumps (body.code scope i w)).Perm (Vm.labels (body.code scope i w)) := by
  cases body with
  | nil => exact .refl _
  | cons first rest =>
    rw [Statements.code, Vm.jumps_append, Vm.labels_append]
    exact (Statement.jumps_perm first i w).append (Statements.jumps_perm rest _ _)

end

/-! ## How many labels there are -/

/-- The labels a statement has for itself. -/
def Statement.labelCount : Statement → Nat
  | .ifThen _ _ | .whileLoop _ _ => 2
  | .ifElse _ _ _ => 3
  | .letVar _ _ | .letElement _ _ _ | .doCall _ | .returnNothing | .returnValue _ => 0

mutual

theorem Statement.labels_length (s : Statement) (i w : Nat) :
    (s.labels i w).length = s.labelCount + (s.inner.map (·.labelCount)).sum := by
  cases s with
  | letVar | letElement | doCall | returnNothing | returnValue => rfl
  | ifThen condition body =>
    rw [Statement.labels, List.length_append, List.length_cons, List.length_singleton,
      Statements.labels_length body, Statement.labelCount, Statement.inner]
    omega
  | ifElse condition body alternative =>
    rw [Statement.labels, List.length_append, List.length_append, List.length_cons,
      List.length_cons, List.length_singleton, Statements.labels_length body,
      Statements.labels_length alternative, Statement.labelCount, Statement.inner, List.map_append,
      List.sum_append]
    omega
  | whileLoop condition body =>
    rw [Statement.labels, List.length_append, List.length_cons, List.length_singleton,
      Statements.labels_length body, Statement.labelCount, Statement.inner]
    omega

/-- The labels of statements are those that the statements at any depth have for themselves. -/
theorem Statements.labels_length (body : Statements) (i w : Nat) :
    (body.labels i w).length = (body.all.map (·.labelCount)).sum := by
  cases body with
  | nil => rfl
  | cons first rest =>
    rw [Statements.labels, List.length_append, Statement.labels_length first,
      Statements.labels_length rest, Statements.all, List.map_append, List.sum_append,
      List.map_cons, List.sum_cons]

end

/-! ## Functions -/

theorem Class.function_jumps (c : Class) (s : Subroutine) :
    Vm.jumps (c.function s) ~ Vm.labels (c.function s) := by
  have hentry : Vm.jumps (c.entry s) = [] := by
    rw [Class.entry]
    cases s.kind <;> rfl
  rw [Class.function, Vm.jumps_append, Vm.labels_append, hentry, c.entry_labels s]
  exact s.body.jumps_perm 0 0

theorem Class.function_label_count (c : Class) (s : Subroutine) :
    (Vm.labels (c.function s)).length = (s.body.all.map (·.labelCount)).sum := by
  rw [Class.function, Vm.labels_append, c.entry_labels s, List.nil_append, Statements.code_labels,
    List.length_map, Statements.labels_length]

end JackCompiler.Syntax
