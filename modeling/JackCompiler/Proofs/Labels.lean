import JackCompiler.Proofs.Machine
import JackCompiler.Proofs.Commands
/-!
# No label stands twice

The labels of a subroutine's code, by kind and number. Labels of one kind are numbered in the order
of the statements they belong to, so no two in a function are the same, and a jump arrives at the
one label it names. As a label is written with 16 bits of its number, this takes a subroutine with
at most 65536 `if` and as many `while` statements.
-/

namespace JackCompiler

/-! ## Code in 16 bits -/

namespace Vm

@[simp]
theorem Command.isFunction_wrap (command : Command) :
    command.wrap.isFunction = command.isFunction := by
  cases command <;> rfl

theorem labels_wrap (code : List Command) : labels (code.map (·.wrap)) = labels code := by
  rw [labels, List.filterMap_map]
  exact List.filterMap_congr fun command _ => by cases command <;> rfl

theorem jumps_wrap (code : List Command) : jumps (code.map (·.wrap)) = jumps code := by
  rw [jumps, List.filterMap_map]
  exact List.filterMap_congr fun command _ => by cases command <;> rfl

end Vm

namespace Syntax

open Compile (ifTrue ifFalse ifEnd whileStart whileEnd)

/-! ## Labels and their names -/

inductive Label
  | ifTrue (number : Nat)
  | ifFalse (number : Nat)
  | ifEnd (number : Nat)
  | whileStart (number : Nat)
  | whileEnd (number : Nat)
  deriving DecidableEq, Repr

namespace Label

def name : Label → String
  | ifTrue number => Compile.ifTrue (.ofNat number)
  | ifFalse number => Compile.ifFalse (.ofNat number)
  | ifEnd number => Compile.ifEnd (.ofNat number)
  | whileStart number => Compile.whileStart (.ofNat number)
  | whileEnd number => Compile.whileEnd (.ofNat number)

/-- A label belongs to one of the `if` statements from `i` to before `j`, or to one of the `while`
statements from `w` to before `v`. -/
def Within (i j w v : Nat) : Label → Prop
  | ifTrue number | ifFalse number | ifEnd number => i ≤ number ∧ number < j
  | whileStart number | whileEnd number => w ≤ number ∧ number < v

/-- The number of a label can be read off its name if it has 16 bits. -/
theorem name_injective {a b : Label} (ha : a.Within 0 65536 0 65536)
    (hb : b.Within 0 65536 0 65536) (h : a.name = b.name) : a = b := by
  have hchars := congrArg String.toList h
  have hnumber (m n : Nat) (hm : m < 65536) (hn : n < 65536)
      (h : (toString (UInt16.ofNat m)).toList = (toString (UInt16.ofNat n)).toList) : m = n := by
    have hmod : m % 65536 = n % 65536 := Nat.repr_injective (String.toList_inj.mp h)
    rwa [Nat.mod_eq_of_lt hm, Nat.mod_eq_of_lt hn] at hmod
  cases a <;> cases b <;>
    simp [name, Compile.ifTrue, Compile.ifFalse, Compile.ifEnd, Compile.whileStart,
      Compile.whileEnd, String.toList_append] at hchars <;>
    rw [hnumber _ _ ha.2 hb.2 hchars]

/-- Labels of earlier statements are not labels of later ones. -/
theorem Within.ne {i j k w v u : Nat} {a b : Label} (ha : a.Within i j w v)
    (hb : b.Within j k v u) : a ≠ b := by
  rintro rfl
  cases a <;> simp only [Within] at ha hb <;> omega

theorem Within.widen {i j w v i' j' w' v' : Nat} {a : Label} (h : a.Within i j w v) (hi : i' ≤ i)
    (hj : j ≤ j') (hw : w' ≤ w) (hv : v ≤ v') : a.Within i' j' w' v' := by
  cases a <;> simp only [Within] at h ⊢ <;> omega

end Label

/-! ## The labels of statements -/

mutual

/-- The labels of a statement's code, in order. -/
def Statement.labels (i w : Nat) : Statement → List Label
  | .ifThen _ body => .ifTrue i :: body.labels (i + 1) w ++ [.ifFalse i]
  | .ifElse _ body alternative =>
    .ifTrue i :: body.labels (i + 1) w ++
      .ifFalse i :: alternative.labels (i + 1 + body.ifs) (w + body.whiles) ++ [.ifEnd i]
  | .whileLoop _ body => .whileStart w :: body.labels i (w + 1) ++ [.whileEnd w]
  | .letVar _ _ | .letElement _ _ _ | .doCall _ | .returnNothing | .returnValue _ => []

def Statements.labels (i w : Nat) : Statements → List Label
  | .nil => []
  | .cons first rest => first.labels i w ++ rest.labels (i + first.ifs) (w + first.whiles)

end

mutual

theorem Statement.labels_within (s : Statement) (i w : Nat) :
    ∀ l ∈ s.labels i w, l.Within i (i + s.ifs) w (w + s.whiles) := by
  intro l hl
  cases s with
  | letVar | letElement | doCall | returnNothing | returnValue => cases hl
  | ifThen condition body =>
    have hbody := Statements.labels_within body (i + 1) w l
    simp only [Statement.labels, List.mem_append, List.mem_cons, List.not_mem_nil, or_false] at hl
    rw [Statement.ifs, Statement.whiles]
    rcases hl with (rfl | hl) | rfl
    · simp [Label.Within]
    · exact (hbody hl).widen (by omega) (by omega) (by omega) (by omega)
    · simp [Label.Within]
  | ifElse condition body alternative =>
    have hbody := Statements.labels_within body (i + 1) w l
    have halternative :=
      Statements.labels_within alternative (i + 1 + body.ifs) (w + body.whiles) l
    simp only [Statement.labels, List.mem_append, List.mem_cons, List.not_mem_nil, or_false] at hl
    rw [Statement.ifs, Statement.whiles]
    rcases hl with ((rfl | hl) | rfl | hl) | rfl
    · simp [Label.Within]
    · exact (hbody hl).widen (by omega) (by omega) (by omega) (by omega)
    · simp [Label.Within]
    · exact (halternative hl).widen (by omega) (by omega) (by omega) (by omega)
    · simp [Label.Within]
  | whileLoop condition body =>
    have hbody := Statements.labels_within body i (w + 1) l
    simp only [Statement.labels, List.mem_append, List.mem_cons, List.not_mem_nil, or_false] at hl
    rw [Statement.ifs, Statement.whiles]
    rcases hl with (rfl | hl) | rfl
    · simp [Label.Within]
    · exact (hbody hl).widen (by omega) (by omega) (by omega) (by omega)
    · simp [Label.Within]

theorem Statements.labels_within (body : Statements) (i w : Nat) :
    ∀ l ∈ body.labels i w, l.Within i (i + body.ifs) w (w + body.whiles) := by
  intro l hl
  cases body with
  | nil => cases hl
  | cons first rest =>
    rw [Statements.ifs, Statements.whiles]
    rcases List.mem_append.mp hl with hl | hl
    · exact (Statement.labels_within first i w l hl).widen (by omega) (by omega) (by omega)
        (by omega)
    · exact (Statements.labels_within rest _ _ l hl).widen (by omega) (by omega) (by omega)
        (by omega)

end

theorem nodup_enclosed {a b : Label} {ls : List Label} (h : ls.Nodup) (ha : a ∉ ls) (hb : b ∉ ls)
    (hab : a ≠ b) : (a :: ls ++ [b]).Nodup := by
  rw [← List.concat_eq_append, List.nodup_concat, List.nodup_cons]
  exact ⟨by simp [hb, hab.symm], ha, h⟩

mutual

theorem Statement.labels_nodup (s : Statement) (i w : Nat) : (s.labels i w).Nodup := by
  cases s with
  | letVar | letElement | doCall | returnNothing | returnValue => exact List.nodup_nil
  | ifThen condition body =>
    have hwithin := Statements.labels_within body (i + 1) w
    refine nodup_enclosed (Statements.labels_nodup body (i + 1) w) ?_ ?_ (by simp) <;>
      exact fun h => by simpa [Label.Within] using hwithin _ h
  | ifElse condition body alternative =>
    have hbody := Statements.labels_within body (i + 1) w
    have halternative := Statements.labels_within alternative (i + 1 + body.ifs) (w + body.whiles)
    have hinner : (body.labels (i + 1) w ++
        alternative.labels (i + 1 + body.ifs) (w + body.whiles)).Nodup :=
      List.nodup_append.mpr ⟨Statements.labels_nodup body _ _,
        Statements.labels_nodup alternative _ _,
        fun a ha b hb => (hbody a ha).ne (halternative b hb)⟩
    have hsmaller (l : Label) (hl : ∀ j w v, ¬l.Within (i + 1) j w v) :
        l ∉ body.labels (i + 1) w ∧
          l ∉ alternative.labels (i + 1 + body.ifs) (w + body.whiles) :=
      ⟨fun h => hl _ _ _ (hbody _ h), fun h => hl _ _ _ <|
        (halternative _ h).widen (by omega) le_rfl le_rfl le_rfl⟩
    have htrue := hsmaller (.ifTrue i) (by simp [Label.Within])
    have hfalse := hsmaller (.ifFalse i) (by simp [Label.Within])
    have hend := hsmaller (.ifEnd i) (by simp [Label.Within])
    have hmiddle : (body.labels (i + 1) w ++ .ifFalse i ::
        alternative.labels (i + 1 + body.ifs) (w + body.whiles)).Nodup := by
      rw [List.nodup_middle, List.nodup_cons, List.mem_append, not_or]
      exact ⟨hfalse, hinner⟩
    exact nodup_enclosed hmiddle (by simp [htrue]) (by simp [hend]) (by simp)
  | whileLoop condition body =>
    have hwithin := Statements.labels_within body i (w + 1)
    refine nodup_enclosed (Statements.labels_nodup body i (w + 1)) ?_ ?_ (by simp) <;>
      exact fun h => by simpa [Label.Within] using hwithin _ h

theorem Statements.labels_nodup (body : Statements) (i w : Nat) : (body.labels i w).Nodup := by
  cases body with
  | nil => exact List.nodup_nil
  | cons first rest =>
    refine List.nodup_append.mpr
      ⟨Statement.labels_nodup first i w, Statements.labels_nodup rest _ _, fun a ha b hb => ?_⟩
    exact (Statement.labels_within first i w a ha).ne (Statements.labels_within rest _ _ b hb)

end

/-! ## The labels of code -/

variable {scope : Scope}

theorem scope_read_plain (name : String) : (scope.read name).all (·.isPlain) := by
  rw [Scope.read]
  cases scope.lookup? name <;> rfl

theorem scope_assign_plain (name : String) : (scope.assign name).all (·.isPlain) := by
  rw [Scope.assign]
  cases scope.lookup? name <;> rfl

theorem ValueCommand.isPlain {terms : List Term} {command : Vm.Command}
    (h : ValueCommand scope terms command) : command.isPlain = true := by
  cases h <;> rfl

/-- The code of an expression neither jumps nor marks a place. -/
theorem Expression.plain (e : Expression) : (e.code scope).all (·.isPlain) :=
  List.all_eq_true.mpr fun command h => (e.commands (List.Subset.refl _) command h).isPlain

theorem Call.plain (call : Call) : (call.code scope).all (·.isPlain) :=
  List.all_eq_true.mpr fun command h => (call.commands (List.Subset.refl _) command h).isPlain

mutual

theorem Statement.code_labels (s : Statement) (i w : Nat) :
    Vm.labels (s.code scope i w) = (s.labels i w).map (·.name) := by
  cases s with
  | letVar name value =>
    rw [Statement.code, Vm.labels_append, Vm.labels_of_plain value.plain,
      Vm.labels_of_plain (scope_assign_plain name)]
    rfl
  | letElement array index value =>
    simp only [Statement.code, Vm.labels_append, Vm.labels_of_plain index.plain,
      Vm.labels_of_plain value.plain, Vm.labels_of_plain (scope_read_plain array)]
    rfl
  | ifThen condition body =>
    simp only [Statement.code, Vm.labels_append, Vm.labels_of_plain condition.plain,
      Statements.code_labels body, Statement.labels, List.map_append, List.map_cons, List.map_nil]
    rfl
  | ifElse condition body alternative =>
    simp only [Statement.code, Vm.labels_append, Vm.labels_of_plain condition.plain,
      Statements.code_labels body, Statements.code_labels alternative, Statement.labels,
      List.map_append, List.map_cons, List.map_nil, List.append_assoc]
    rfl
  | whileLoop condition body =>
    simp only [Statement.code, Vm.labels_append, Vm.labels_of_plain condition.plain,
      Statements.code_labels body, Statement.labels, List.map_append, List.map_cons, List.map_nil]
    rfl
  | doCall call =>
    rw [Statement.code, Vm.labels_append, Vm.labels_of_plain call.plain]
    rfl
  | returnNothing => rfl
  | returnValue value =>
    rw [Statement.code, Vm.labels_append, Vm.labels_of_plain value.plain]
    rfl

theorem Statements.code_labels (body : Statements) (i w : Nat) :
    Vm.labels (body.code scope i w) = (body.labels i w).map (·.name) := by
  cases body with
  | nil => rfl
  | cons first rest =>
    rw [Statements.code, Vm.labels_append, Statement.code_labels first, Statements.code_labels rest,
      Statements.labels, List.map_append]

end

/-! ## Functions -/

/-- No function begins inside the code of statements. -/
theorem BodyCommand.not_function {terms : List Term} {command : Vm.Command}
    (h : BodyCommand scope terms command) : command.isFunction = false := by
  cases h with
  | value h => cases h <;> rfl
  | _ => rfl

theorem Statements.code_inside (body : Statements) (i w : Nat) :
    (body.code scope i w).all (!·.isFunction) := by
  rw [List.all_eq_true]
  intro command h
  rw [(body.commands i w (List.Subset.refl _) command h).not_function]
  rfl

/-- No function begins behind the head of another. -/
theorem Class.body_inside (c : Class) (s : Subroutine) :
    (c.prologue s.kind ++ s.body.code (c.scope s) 0 0).all (!·.isFunction) := by
  rw [List.all_append, s.body.code_inside]
  cases s.kind <;> rfl

/-- The functions of a class's program are those of its subroutines, in order. -/
theorem Class.functions_program (c : Class) :
    Vm.functions c.program = c.subroutines.map c.written := by
  refine Vm.functions_flatMap c.subroutines
    (fun s => .function (c.name ++ "." ++ s.name) (s.localCount % 65536))
    (fun s => (c.prologue s.kind ++ s.body.code (c.scope s) 0 0).map (·.wrap)) (fun _ _ => rfl)
    fun s _ => ?_
  rw [List.all_map]
  simpa [Function.comp_def] using c.body_inside s

theorem Class.entry_labels (c : Class) (s : Subroutine) : Vm.labels (c.entry s) = [] := by
  rw [Class.entry]
  cases s.kind <;> rfl

/-- No label stands twice in a function. -/
theorem Class.function_labels (c : Class) {s : Subroutine} (hifs : s.body.ifs ≤ 65536)
    (hwhiles : s.body.whiles ≤ 65536) : (Vm.labels (c.function s)).Nodup := by
  have hwithin : ∀ l ∈ s.body.labels 0 0, l.Within 0 65536 0 65536 := fun l hl =>
    (s.body.labels_within 0 0 l hl).widen le_rfl (by omega) le_rfl (by omega)
  rw [Class.function, Vm.labels_append, c.entry_labels s, List.nil_append, Statements.code_labels]
  exact (Statements.labels_nodup s.body 0 0).map_on fun a ha b hb =>
    Label.name_injective (hwithin a ha) (hwithin b hb)

end Syntax

end JackCompiler
