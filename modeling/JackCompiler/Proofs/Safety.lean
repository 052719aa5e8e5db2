import JackCompiler.Proofs.Depth
import JackCompiler.Proofs.Jumps
import JackCompiler.Proofs.Segments
/-!
# Functions that do not get stuck

A function whose depths can be told, whose jumps go to its own labels and that stays inside its
segments is `Vm.Safe`. The machine that is at one place of such a function with as many values as
told there steps to another such place, or is at a `return` or at the end (`Safe.advance`), and so
it comes to no other places (`Safe.runs`). Compiled functions are safe (`Class.function_safe`).
-/

namespace JackCompiler

namespace Vm

variable {code : List Command} {command : Command} {extent : Extent}
  {depth : Nat → Nat} {m : Machine} {p q : Point} {k : Nat}

/-! ## What one command does -/

theorem Machine.read_inside {segment : Segment} {index : Nat}
    (h : (Command.push segment index).Inside extent) :
    ∃ value, m.read segment index = some value := by
  cases segment with
  | pointer =>
    match index, h with
    | 0, _ | 1, _ => exact ⟨_, rfl⟩
  | _ => exact ⟨_, rfl⟩

theorem Machine.write_inside {segment : Segment} {index : Nat} (value : Word)
    (h : (Command.pop segment index).Inside extent) :
    ∃ m', m.write value segment index = some m' ∧ m'.stack = m.stack := by
  cases segment with
  | constant => exact absurd h (Nat.not_lt_zero _)
  | pointer =>
    match index, h with
    | 0, _ | 1, _ => exact ⟨_, rfl, rfl⟩
  | _ => exact ⟨_, rfl, rfl⟩

theorem operate_enough {op : Operation} {stack : List Word} (h : op.operands ≤ stack.length) :
    ∃ stack', operate op stack = some stack' ∧
      stack'.length = stack.length - op.operands + 1 := by
  match stack with
  | [] => cases op <;> cases h
  | [x] => cases op <;> first | exact ⟨_, rfl, rfl⟩ | (simp [Operation.operands] at h)
  | y :: x :: stack => cases op <;> exact ⟨_, rfl, rfl⟩

/-- A command that finds the values it takes and stays inside the segments takes so many values and
leaves as many as told. -/
theorem perform_inside (callees : Callees) (hinside : command.Inside extent)
    (henough : command.takes ≤ m.stack.length) (hplain : command.isPlain = true) :
    ∃ m', perform callees command m = some m' ∧
      m'.stack.length = m.stack.length - command.takes + command.leaves := by
  cases command with
  | push segment index =>
    obtain ⟨value, hvalue⟩ := Machine.read_inside (m := m) hinside
    exact ⟨_, by rw [perform, hvalue]; rfl, rfl⟩
  | pop segment index =>
    obtain ⟨stack, store, that, temp⟩ := m
    cases stack with
    | nil => cases henough
    | cons value stack =>
      obtain ⟨m', hm, hstack⟩ :=
        Machine.write_inside (m := ⟨stack, store, that, temp⟩) value hinside
      exact ⟨m', hm, by rw [hstack]; rfl⟩
  | operation op =>
    obtain ⟨stack', hoperate, hlength⟩ := operate_enough henough
    exact ⟨_, by rw [perform, hoperate]; rfl, hlength⟩
  | call name count =>
    refine ⟨_, if_pos henough, ?_⟩
    rw [List.length_cons, List.length_drop]
    rfl
  | label | goto | ifGoto | function | «return» => cases hplain

/-- A jump to a label of the code goes to a place where it stands. -/
theorem target?_of_mem {name : String} (h : name ∈ labels code) :
    ∃ j, code[j]? = some (.label name) ∧ target? name code = some (code.drop j) := by
  induction code with
  | nil => cases h
  | cons command rest ih =>
    by_cases hc : command = .label name
    · exact ⟨0, congrArg some hc, if_pos hc⟩
    · have hrest : name ∈ labels rest := by
        obtain ⟨other, hother, hlabel⟩ := List.mem_filterMap.mp h
        refine List.mem_filterMap.mpr ⟨other, ?_, hlabel⟩
        refine (List.mem_cons.mp hother).resolve_left ?_
        rintro rfl
        cases other <;> cases hlabel
        exact hc rfl
      obtain ⟨j, hj, htarget⟩ := ih hrest
      exact ⟨j + 1, hj, (if_neg hc).trans htarget⟩

/-! ## What functions do -/

/-- What keeps a function from getting stuck. -/
structure Safe (code : List Command) (extent : Extent) (depth : Nat → Nat) : Prop where
  balanced : Balanced code depth
  resolved : ∀ name ∈ jumps code, name ∈ labels code
  inside : ∀ command ∈ code, command.Inside extent
  /-- It begins with its head and has no other. -/
  head : ∀ {k : Nat} {command : Command}, code[k]? = some command →
    (command.isFunction = true ↔ k = 0)

/-- A run is at a place of a function behind its head, with as many values on the stack as told. -/
structure Point.At (code : List Command) (depth : Nat → Nat) (k : Nat) (p : Point) : Prop where
  rest : p.rest = code.drop k
  behind : 0 < k
  within : k ≤ code.length
  depth : p.machine.stack.length = depth k

theorem Point.At.end_or_command (hp : p.At code depth k) : k = code.length ∧ p.rest = [] ∨
    ∃ command, code[k]? = some command ∧ p.rest = command :: code.drop (k + 1) := by
  rw [hp.rest]
  rcases hp.within.eq_or_lt with rfl | hlt
  · exact .inl ⟨rfl, List.drop_length⟩
  · exact .inr ⟨_, List.getElem?_eq_getElem hlt, List.drop_eq_getElem_cons hlt⟩

/-- A run is at an end of a function: behind its last command with nothing on the stack, or at a
`return` with one value. -/
def Point.Ends (p : Point) : Prop :=
  p.rest = [] ∧ p.machine.stack = [] ∨
    p.rest.head? = some .return ∧ p.machine.stack.length = 1

namespace Safe

theorem at_next {m' : Machine} (h : Safe code extent depth) (hp : p.At code depth k)
    (hcommand : code[k]? = some command) (hgoes : command.goesOn = true)
    (hstack : m'.stack.length = p.machine.stack.length - command.takes + command.leaves) :
    Point.At code depth (k + 1) ⟨code.drop (k + 1), m'⟩ where
  rest := rfl
  behind := Nat.succ_pos k
  within := (List.getElem?_eq_some_iff.mp hcommand).1
  depth := by rw [h.balanced.follows hcommand (.next hcommand hgoes), ← hp.depth]; exact hstack

theorem at_jump {name : String} (m' : Machine) (h : Safe code extent depth)
    (hp : p.At code depth k) (hcommand : code[k]? = some command)
    (hjump : command.jump? = some name)
    (hstack : m'.stack.length = p.machine.stack.length - command.takes + command.leaves) :
    ∃ j, target? name code = some (code.drop j) ∧ Point.At code depth j ⟨code.drop j, m'⟩ := by
  have hname := h.resolved name
    (List.mem_filterMap.mpr ⟨command, List.mem_of_getElem? hcommand, hjump⟩)
  obtain ⟨j, hlabel, htarget⟩ := target?_of_mem hname
  refine ⟨j, htarget, rfl, ?behind, (List.getElem?_eq_some_iff.mp hlabel).1.le, ?depth⟩
  case behind =>
    refine Nat.pos_of_ne_zero fun hj => ?_
    cases (h.head hlabel).mpr hj
  case depth =>
    rw [h.balanced.follows hcommand (.jump hcommand hjump hlabel), ← hp.depth]
    exact hstack

/-- From a place of a safe function the machine steps to another, unless it is at an end. -/
theorem advance (h : Safe code extent depth) (callees : Callees) (hp : p.At code depth k) :
    (∃ ds q j, step callees code p = some (ds, q) ∧ q.At code depth j) ∨
      step callees code p = none ∧ p.Ends := by
  obtain ⟨rest, m⟩ := p
  have hdepth : m.stack.length = depth k := hp.depth
  rcases hp.end_or_command with ⟨rfl, rfl⟩ | ⟨command, hcommand, rfl⟩
  · refine .inr ⟨rfl, .inl ⟨rfl, List.length_eq_zero_iff.mp ?_⟩⟩
    rw [hdepth, h.balanced.exit]
  have henough : command.takes ≤ m.stack.length := hdepth ▸ h.balanced.enough hcommand
  have hperform (hplain : command.isPlain = true) (hgoes : command.goesOn = true) :
      ∃ ds q j, step callees code ⟨command :: code.drop (k + 1), m⟩ = some (ds, q) ∧
        q.At code depth j := by
    have hinside := h.inside command (List.mem_of_getElem? hcommand)
    obtain ⟨m', hm, hstack⟩ := perform_inside callees hinside henough hplain
    exact ⟨[], _, k + 1, step_perform hm, h.at_next hp hcommand hgoes hstack⟩
  cases command with
  | push | pop | operation | call => exact .inl (hperform rfl rfl)
  | label name => exact .inl ⟨[], _, k + 1, rfl, h.at_next hp hcommand rfl rfl⟩
  | goto name =>
    obtain ⟨j, htarget, hj⟩ := h.at_jump m hp hcommand rfl rfl
    exact .inl ⟨[], _, j, step_goto htarget, hj⟩
  | ifGoto name =>
    obtain ⟨stack, store, that, temp⟩ := m
    cases stack with
    | nil => cases henough
    | cons top stack =>
      by_cases htop : top = 0
      · subst htop
        exact .inl ⟨[false], _, k + 1, step_stay, h.at_next hp hcommand rfl rfl⟩
      · obtain ⟨j, htarget, hj⟩ := h.at_jump ⟨stack, store, that, temp⟩ hp hcommand rfl rfl
        exact .inl ⟨[true], _, j, step_jump htop htarget, hj⟩
  | «return» =>
    refine .inr ⟨rfl, .inr ⟨rfl, ?_⟩⟩
    rw [hdepth, h.balanced.return hcommand]
  | function name locals => exact absurd ((h.head hcommand).mp rfl) hp.behind.ne'

/-- Wherever a run comes in a safe function, it is at a place of the function. -/
theorem runs {callees : Callees} {ds : List Bool} (h : Safe code extent depth)
    (hruns : Runs callees code p ds q) (hp : p.At code depth k) : ∃ j, q.At code depth j := by
  induction hruns generalizing k with
  | refl => exact ⟨k, hp⟩
  | @step p q r ds es hstep _ ih =>
    rcases h.advance callees hp with ⟨ds', q', j, hstep', hj⟩ | ⟨hnone, -⟩
    · rw [hstep] at hstep'
      cases hstep'
      exact ih hj
    · rw [hstep] at hnone
      cases hnone

end Safe

end Vm

namespace Syntax

/-- Compiled functions are safe. -/
theorem Class.function_safe (c : Class) (s : Subroutine)
    (h : Resolved (c.scope s).symbols s.body.names) :
    ∃ depth, Vm.Safe (c.function s) (c.extent s) depth := by
  obtain ⟨depth, hbalanced, -⟩ := c.function_balanced s h
  refine ⟨depth, hbalanced, fun name => (c.function_jumps s).mem_iff.mp, c.function_inside s, ?_⟩
  intro k command hcommand
  cases k with
  | zero =>
    cases hcommand
    exact ⟨fun _ => rfl, fun _ => rfl⟩
  | succ k =>
    have hbody := List.all_eq_true.mp (c.body_inside s) command (List.mem_of_getElem? hcommand)
    refine iff_of_false (fun hfunction => ?_) (Nat.succ_ne_zero k)
    rw [hfunction] at hbody
    cases hbody

end Syntax

end JackCompiler
