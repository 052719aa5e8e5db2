import JackCompiler.Proofs.Procedures
import JackCompiler.Proofs.Recovery
/-!
# Reading makes progress

The recursive descent is the compiler: it ends as the run of the goals does, if calls may be nested
four times as deep as there are tokens. There are no more than four calls for each token, where each
round of a loop is a call. A call inside of one of the same procedure has fewer tokens left than
that one. And with each token but the end of the file the lexer goes on in the source
(`descent_progresses`).
-/

namespace JackCompiler.Descent

open Compile

/-! ## Calls -/

section

variable {course : Course} {reader : Reader} {frame : Frame} {credit depth : Nat}
  {goals : List Goal} {entered : List (List Frame)}

/-- The course of a call that is made on another. -/
def Course.enter (course : Course) (frame : Frame) (depth : Nat) : Course :=
  { course with opened := frame :: course.opened, depth }

/-- A call that has been paid for is nested as it should be. -/
theorem Course.Affords.nested_cons {left : Nat} {routine : Routine}
    (h : course.Affords routine.cost left entered) : Nested (⟨routine, left⟩ :: course.opened) := by
  refine List.pairwise_cons.mpr ⟨fun outer houter => ?_, h.opened⟩
  have hinside := h.inside outer houter
  have hpos := routine.cost_pos
  have hle := outer.routine.cost_le
  unfold Frame.weight at hinside
  dsimp only
  refine ⟨by omega, fun hsame => ?_⟩
  rw [← hsame] at hinside
  omega

theorem Course.Affords.enter {left : Nat} {routine : Routine} (hdepth : course.depth = depth + 1)
    (h : course.Affords routine.cost left entered) :
    (course.enter ⟨routine, left⟩ depth).Affords (routine.cost - 1) left
      ((⟨routine, left⟩ :: course.opened) :: entered) := by
  have hpos := routine.cost_pos
  have hspent := h.spent
  have hdeep := h.deep
  refine ⟨?_, ?_, ?_, h.nested_cons, List.forall_mem_cons.mpr ⟨h.nested_cons, h.nested⟩⟩
  · show entered.length + 1 + 4 * left + _ ≤ course.bound
    omega
  · show _ ≤ depth
    omega
  · refine List.forall_mem_cons.mpr ⟨?_, fun outer houter => ?_⟩
    · unfold Frame.weight
      dsimp only
      omega
    · have hinside := h.inside outer houter
      omega

theorem Course.Affords.leave {left : Nat} (hdepth : course.depth = depth + 1)
    (hopened : Nested course.opened)
    (h : (course.enter frame depth).Affords credit left entered) :
    course.Affords credit left entered where
  spent := h.spent
  deep := by
    have hdeep : _ ≤ depth := h.deep
    omega
  inside outer houter := h.inside outer (List.mem_cons_of_mem _ houter)
  opened := hopened
  nested := h.nested

/-- What holds behind an action inside of a call holds behind the call. -/
theorem Course.Meets.leave {α : Type} {action : Action α} {Q : α → Reader → Prop}
    (h : (course.enter frame depth).Meets action Q reader) : course.Meets action Q reader := by
  unfold Course.Meets at h ⊢
  rcases hrun : action.run.run reader with ⟨(diagnostic | _ | _ | _ | _) | a, after⟩
  case error.refused =>
    rw [hrun] at h
    exact ⟨h.source, h.result, h.counted.bounded, h.counted.nested⟩
  all_goals
    rw [hrun] at h
    exact h

end

/-- A call meets the goals it is made for. -/
theorem descend_calls (depth : Nat) (course : Course) (hdepth : course.depth = depth) :
    Calls course (descend depth course.opened) := by
  -- on the depth: calls that are nested one deeper are made with one less
  induction depth generalizing course with
  | zero =>
    intro α procedure before after hserves goals reader Q h hnext
    have hpos := procedure.routine.cost_pos
    have hdeep := h.affords.deep
    omega
  | succ depth ih =>
    intro α procedure before after hserves goals reader Q h hnext
    let frame : Frame := ⟨procedure.routine, reader.left⟩
    let inner := course.enter frame depth
    let entered : Reader :=
      { reader with entered := (frame :: course.opened) :: reader.entered }
    have hinner : inner.At (procedure.routine.cost - 1) (before ++ goals) entered :=
      ⟨h.source, h.tokens, h.stop, h.fields, h.run, h.affords.enter hdepth⟩
    have hbody : course.Meets (body (descend depth inner.opened) procedure) Q entered :=
      .leave (body_does (ih inner rfl) hserves hinner fun a next hat =>
        hnext a next ⟨hat.source, hat.tokens, hat.stop, hat.fields, hat.run,
          hat.affords.leave hdepth h.affords.opened⟩)
    exact .bind (.get (.bind (.set hbody)))

/-! ## A source -/

/-- What a descent through a source is held to. -/
def Course.ofSource (text : String) (extra : Nat) : Course :=
  let count := (Lexer.ofSource text).scan.tokens.length
  { source := text, bound := 4 * count, depth := 4 * count + extra }

/-- The descent ends as the run does. -/
theorem source_meets (text : String) (extra : Nat) :
    (Course.ofSource text extra).Meets (source (Course.ofSource text extra).depth)
      (fun _ reader => (reader.done, .ok reader.state) = (Course.ofSource text extra).result ∧
        (Course.ofSource text extra).Counted reader.entered)
      { source := text, stream := .ofSource text } := by
  have hcalls : Calls (Course.ofSource text extra)
      (descend (Course.ofSource text extra).depth []) := descend_calls _ _ rfl
  have hspent : 0 + 4 * (Lexer.ofSource text).scan.tokens.length + 0 ≤
      (Course.ofSource text extra).bound := by
    rw [Nat.zero_add, Nat.add_zero]
    exact Nat.le_refl _
  have h : (Course.ofSource text extra).At 0 program { source := text, stream := .ofSource text } :=
    ⟨rfl, List.suffix_rfl, rfl, counted_empty, rfl,
      hspent, Nat.le_add_right _ _, by simp [Course.ofSource], .nil, by simp⟩
  refine .bind (h.expect (by decide) fun after h => ?_)
  refine .bind (h.identifier (fun _ _ => rfl) (fun _ _ => rfl)
    fun token name after _ h => .bind (.getState (.bind (.setState ?_))))
  refine .bind ((Course.Due.setState h).expect (by decide) fun after h => ?_)
  refine .bind (hcalls.meets .classVariables h (by decide) fun _ after h => ?_)
  refine .bind (Course.assertFields_meets h ?_)
  refine .bind (hcalls.meets .subroutines h (by decide) fun _ after h => ?_)
  have h : (Course.ofSource text extra).At 0 [.endOfFile] after := h
  refine .bind (h.peek (fun _ _ => rfl) fun token after h hahead => ?_)
  split
  case h_1 hkind =>
    have h := h.met hahead (by rw [Goal.read, kind_endOfFile.mp hkind])
    exact .pure ⟨by rw [← h.run, run_nil], h.affords.counted⟩
  case h_2 heof =>
    rw [imp_false, kind_endOfFile] at heof
    exact .unexpected (h.refuse hahead (by simp only [Goal.read])) (Course.Due.met h hahead)

/-! ## Progress -/

/-- How a descent makes progress through a source, with calls nested no deeper than `depth`. -/
structure Progresses (text : String) (depth : Nat) : Prop where
  /-- It comes to an end, and compiles the source. -/
  ends : compilation (run depth text) = some (compileSource text)
  /-- There are at most four calls for each token. -/
  bounded : (run depth text).2.entered.length ≤ 4 * (Lexer.ofSource text).scan.tokens.length
  /-- At each call, an open call has had a token taken since the one outside of it of the same
  procedure. -/
  nested : ∀ opened ∈ (run depth text).2.entered, Nested opened

theorem Progresses.of_run {text : String} {depth extra : Nat} {result : Except Halt Unit}
    {reader : Reader} (hrun : run depth text = (result, reader))
    (hends : compilation (result, reader) = some (compileSource text))
    (hcounted : (Course.ofSource text extra).Counted reader.entered) : Progresses text depth where
  ends := by rw [hrun, hends]
  bounded := by rw [hrun]; exact hcounted.bounded
  nested := by rw [hrun]; exact hcounted.nested

/-- What is compiled is what comes of the run. -/
theorem compileSource_eq (text : String) (extra : Nat) :
    compileSource text =
      let (done, result) := (Course.ofSource text extra).result
      { events := done.reverse
        result := result.map fun state =>
          ⟨state.className, done.reverse.filterMap (·.command?)⟩ } := rfl

theorem progresses (text : String) (extra : Nat) :
    Progresses text (Course.ofSource text extra).depth := by
  obtain ⟨_, reader, hrun, hresult, hcounted⟩ | ⟨diagnostic, reader, hrun, -, hresult, hcounted⟩ :=
    (source_meets text extra).ended
  · refine .of_run hrun ?_ hcounted
    rw [compileSource_eq text extra, ← hresult]
    rfl
  · refine .of_run hrun ?_ hcounted
    rw [compileSource_eq text extra, ← hresult]
    rfl

end JackCompiler.Descent

namespace JackCompiler

/-- The lexer passes some text with a token, if that is not the end of the file. -/
def Lexer.Advances (lexer : Lexer) : Prop :=
  ∀ token, lexer.next.1 = .ok token → token.lexeme ≠ .endOfFile →
    ∃ passed, passed ≠ [] ∧ lexer.rest = passed ++ lexer.next.2.rest ∧
      lexer.next.2.offset = lexer.offset + Text.byteLength passed

theorem Lexer.next_advances (lexer : Lexer) : lexer.Advances := by
  intro token hnext htoken
  have hstep := lexer.next_step
  rw [hnext] at hstep
  generalize lexer.next.2 = after at hstep
  cases hstep with
  | @token offset skipped rest lexeme hstands =>
    refine ⟨skipped ++ lexeme.text.toList, ?_, (List.append_assoc ..).symm, ?_⟩
    · exact List.append_ne_nil_of_right_ne_nil _ (Piece.text_ne_nil hstands)
    · rw [Text.byteLength_append, Nat.add_assoc]
  | endOfFile => exact absurd rfl htoken

end JackCompiler
