import JackCompiler.Proofs.Positions
/-!
# Reading on after errors

A lexer can be asked on after an error and after the end of the file. Whatever it answers, its spans
lie on the source, its tokens stand one behind another, and once it has come to the end of the file
it stays there (`answers_valid`). What one call does is summed up in `Lexer.Step`.
-/

namespace JackCompiler

open Text (byteLength)

namespace Lexer

/-- The answers to so many calls, each of which goes on from where the one before it left off. -/
def answers (lexer : Lexer) : Nat → List (Except Diagnostic Token)
  | 0 => []
  | count + 1 => lexer.next.1 :: lexer.next.2.answers count

/-- The span of a token or of a fault. -/
def spanOf : Except Diagnostic Token → Span
  | .ok token => token.span
  | .error diagnostic => diagnostic.span

/-- No later answer begins before this offset: a token is not read twice, but reading goes on inside
of what was refused. -/
def reach : Except Diagnostic Token → Nat
  | .ok token => token.span.stop
  | .error diagnostic => diagnostic.span.index

/-- What a call can answer, and the place it leaves. What it skips is before the text of its answer;
after an error it goes on somewhere in the refused text or right behind it. -/
inductive Step : Lexer → Except Diagnostic Token → Lexer → Prop
  | token {offset : Nat} {skipped rest : List Char} {lexeme : Lexeme}
    (h : (Piece.token lexeme).Stands rest) :
    Step ⟨offset, skipped ++ (lexeme.text.toList ++ rest)⟩
      (.ok ⟨lexeme, offset + byteLength skipped, byteLength lexeme.text.toList⟩)
      ⟨offset + byteLength skipped + byteLength lexeme.text.toList, rest⟩
  | endOfFile {offset : Nat} {skipped : List Char} :
    Step ⟨offset, skipped⟩ (.ok ⟨.endOfFile, offset + byteLength skipped, 0⟩)
      ⟨offset + byteLength skipped, []⟩
  | refused {offset : Nat} {skipped kept resumed rest : List Char} {fault : LexicalFault}
    (h : Refused (kept ++ resumed) rest fault) :
    Step ⟨offset, skipped ++ (kept ++ (resumed ++ rest))⟩
      (.error ⟨.lexical fault, offset + byteLength skipped, byteLength (kept ++ resumed)⟩)
      ⟨offset + byteLength skipped + byteLength kept, resumed ++ rest⟩

variable {source : String} {lexer after : Lexer} {answer : Except Diagnostic Token}

/-- A step that begins behind some text is one that skips it. -/
theorem Step.skip {offset : Nat} {text rest : List Char}
    (h : Step ⟨offset + byteLength text, rest⟩ answer after) :
    Step ⟨offset, text ++ rest⟩ answer after := by
  cases h with
  | @token _ skipped rest lexeme h =>
    have hstep : Step ⟨offset, (text ++ skipped) ++ (lexeme.text.toList ++ rest)⟩ _ _ := .token h
    rwa [Text.byteLength_append, ← Nat.add_assoc, List.append_assoc] at hstep
  | endOfFile =>
    have hstep : Step ⟨offset, text ++ rest⟩ _ _ := .endOfFile
    rwa [Text.byteLength_append, ← Nat.add_assoc] at hstep
  | @refused _ skipped kept resumed rest fault h =>
    have hstep : Step ⟨offset, (text ++ skipped) ++ (kept ++ (resumed ++ rest))⟩ _ _ := .refused h
    rwa [Text.byteLength_append text skipped, ← Nat.add_assoc, List.append_assoc] at hstep

theorem next_step (lexer : Lexer) : lexer.Step lexer.next.1 lexer.next.2 := by
  obtain ⟨offset, text⟩ := lexer
  induction h : text.length using Nat.strong_induction_on generalizing text offset with
  | _ n ih =>
    subst h
    cases text with
    | nil => exact .endOfFile
    | cons c text =>
      generalize htext : c :: text = text at *
      cases htext ▸ begins c _ with
      | @piece piece rest h =>
        by_cases htoken : ∃ lexeme, piece = .token lexeme
        · obtain ⟨lexeme, rfl⟩ := htoken
          rw [Piece.text, next_token offset h]
          exact @Step.token offset [] rest lexeme h
        · have htoken : ∀ lexeme, piece ≠ .token lexeme := fun lexeme h => htoken ⟨lexeme, h⟩
          have hpos := List.length_pos_iff.mpr (Piece.text_ne_nil h)
          rw [next_skip offset h htoken]
          refine .skip (ih rest.length ?_ _ rest rfl)
          rw [List.length_append]
          omega
      | @refused _ rest fault h =>
        obtain ⟨kept, resumed, rfl, hnext⟩ := next_refused offset h
        rw [hnext, List.append_assoc]
        exact @Step.refused offset [] kept resumed rest fault h

/-! ## One call -/

/-- An answer that is right about a source: a token stands there, as long as it can be; the end of
the file is behind all of the source; refused text is there with its fault. -/
inductive Sound (source : String) : Except Diagnostic Token → Prop
  | token {token : Token} {before after : List Char}
    (hmarks : token.span.Marks source before token.text.toList after)
    (hstands : (Piece.token token.lexeme).Stands after) : Sound source (.ok token)
  | endOfFile {token : Token} (hlexeme : token.lexeme = .endOfFile)
    (hmarks : token.span.Marks source source.toList [] []) : Sound source (.ok token)
  | refused {diagnostic : Diagnostic} {fault : LexicalFault} {before text after : List Char}
    (hfault : diagnostic.fault = .lexical fault)
    (hmarks : diagnostic.span.Marks source before text after) (hrefused : Refused text after fault) :
    Sound source (.error diagnostic)

/-- The lexer is at a place of the source, with all that is behind it still to read. -/
def IsIn (lexer : Lexer) (source : String) : Prop :=
  Text.Left source.toList (lexer.offset, lexer.rest)

theorem isIn_ofSource (source : String) : (ofSource source).IsIn source := ⟨[], rfl, rfl⟩

theorem IsIn.skip {offset : Nat} {text rest : List Char}
    (h : IsIn ⟨offset, text ++ rest⟩ source) : IsIn ⟨offset + byteLength text, rest⟩ source := by
  obtain ⟨head, hsource, hoffset⟩ := h
  dsimp only at hsource hoffset
  refine ⟨head ++ text, ?_, ?_⟩
  · rw [hsource, List.append_assoc]
  · rw [Text.byteLength_append, hoffset]

/-- The text at the place of a lexer is marked by the span that begins there. -/
theorem IsIn.marks {offset : Nat} {text rest : List Char} (h : IsIn ⟨offset, text ++ rest⟩ source) :
    ∃ before, Span.Marks ⟨offset, byteLength text⟩ source before text rest := by
  obtain ⟨head, hsource, hoffset⟩ := h
  dsimp only at hsource hoffset
  refine ⟨head, ?_, hoffset, rfl⟩
  rw [hsource, List.append_assoc]

theorem Step.isIn (h : lexer.Step answer after) (hin : lexer.IsIn source) : after.IsIn source := by
  cases h with
  | token => exact hin.skip.skip
  | @endOfFile offset skipped =>
    apply IsIn.skip
    rwa [List.append_nil]
  | refused => exact hin.skip.skip

theorem Step.sound (h : lexer.Step answer after) (hin : lexer.IsIn source) :
    Sound source answer := by
  cases h with
  | token hstands =>
    obtain ⟨before, hmarks⟩ := hin.skip.marks
    exact .token hmarks hstands
  | @endOfFile offset skipped =>
    obtain ⟨head, hsource, hoffset⟩ := hin
    dsimp only at hsource hoffset
    refine .endOfFile rfl ⟨by simp, ?_, rfl⟩
    rw [hsource, Text.byteLength_append, hoffset]
  | refused hrefused =>
    have hin := hin.skip
    rw [← List.append_assoc] at hin
    obtain ⟨before, hmarks⟩ := hin.marks
    exact .refused rfl hmarks hrefused

/-- An answer lies between the place before the call and the place after it. -/
theorem Step.between (h : lexer.Step answer after) :
    lexer.offset ≤ (spanOf answer).index ∧ reach answer ≤ after.offset := by
  cases h with
  | token | endOfFile => exact ⟨Nat.le_add_right _ _, Nat.le_refl _⟩
  | refused => exact ⟨Nat.le_add_right _ _, Nat.le_add_right _ _⟩

theorem Step.ended {token : Token} (h : lexer.Step (.ok token) after)
    (htoken : token.lexeme = .endOfFile) :
    token = ⟨.endOfFile, after.offset, 0⟩ ∧ after.rest = [] := by
  cases h with
  | token hstands =>
    obtain rfl := htoken
    exact hstands.1.elim
  | endOfFile => exact ⟨rfl, rfl⟩

/-! ## Any number of calls -/

theorem index_le_reach (answer : Except Diagnostic Token) :
    (spanOf answer).index ≤ reach answer := by
  cases answer with
  | ok token => exact Nat.le_add_right _ _
  | error => exact Nat.le_refl _

theorem answers_sound (count : Nat) (hin : lexer.IsIn source) :
    ∀ answer ∈ lexer.answers count, Sound source answer := by
  induction count generalizing lexer with
  | zero => simp [answers]
  | succ count ih =>
    have hstep := lexer.next_step
    exact List.forall_mem_cons.mpr ⟨hstep.sound hin, ih (hstep.isIn hin)⟩

theorem offset_le_answers (lexer : Lexer) (count : Nat) :
    ∀ answer ∈ lexer.answers count, lexer.offset ≤ (spanOf answer).index := by
  induction count generalizing lexer with
  | zero => simp [answers]
  | succ count ih =>
    obtain ⟨hbefore, hafter⟩ := lexer.next_step.between
    refine List.forall_mem_cons.mpr ⟨hbefore, fun answer hanswer => ?_⟩
    have hindex := index_le_reach lexer.next.1
    have hlater := ih _ answer hanswer
    omega

theorem answers_pairwise (lexer : Lexer) (count : Nat) :
    (lexer.answers count).Pairwise fun a b => reach a ≤ (spanOf b).index := by
  induction count generalizing lexer with
  | zero => exact .nil
  | succ count ih =>
    refine .cons (fun answer hanswer => ?_) (ih _)
    exact lexer.next_step.between.2.trans (offset_le_answers _ count answer hanswer)

/-- At the end of a source there is nothing but the end of the file, however often it is asked. -/
theorem answers_at_end (offset count : Nat) :
    answers ⟨offset, []⟩ count = List.replicate count (.ok ⟨.endOfFile, offset, 0⟩) := by
  induction count with
  | zero => rfl
  | succ count ih =>
    rw [List.replicate_succ, ← ih]
    rfl

theorem answers_ended (lexer : Lexer) (count : Nat) :
    (lexer.answers count).Pairwise fun a b =>
      ∀ token, a = .ok token → token.lexeme = .endOfFile → b = .ok token := by
  induction count generalizing lexer with
  | zero => exact .nil
  | succ count ih =>
    refine .cons (fun answer hanswer token htoken heof => ?_) (ih _)
    have hstep := lexer.next_step
    rw [htoken] at hstep
    obtain ⟨rfl, hrest⟩ := hstep.ended heof
    have hend : lexer.next.2 = ⟨lexer.next.2.offset, []⟩ := by rw [← hrest]
    rw [hend, answers_at_end] at hanswer
    exact List.eq_of_mem_replicate hanswer

end Lexer

/-- What the answers of a lexer say about a source, all together. -/
structure AnswersValid (source : String) (answers : List (Except Diagnostic Token)) : Prop where
  /-- Each span can be cut out of the source, and so can the line around it. No offset is past the
  end of the source, so those of a source of less than 2 ^ 32 bytes fit in 32 bits. -/
  inside : ∀ answer ∈ answers, (Lexer.spanOf answer).Inside source
  /-- What stands at the span of a token is its text, of the form that its kind has. -/
  token : ∀ token, .ok token ∈ answers → token.lexeme ≠ .endOfFile →
    0 < token.span.size ∧ token.lexeme.WellFormed ∧ token.span.slice? source = some token.text
  endOfFile : ∀ token, .ok token ∈ answers → token.lexeme = .endOfFile →
    token.span = ⟨byteLength source.toList, 0⟩
  /-- What stands at the span of an error is text that is refused with its fault. -/
  refused : ∀ diagnostic, .error diagnostic ∈ answers → ∃ fault text after,
    diagnostic.fault = .lexical fault ∧ Refused text after fault ∧
      diagnostic.span.slice? source = some (String.ofList text)
  /-- Nothing begins before the end of a token that was read earlier, or before an earlier error. -/
  inOrder : answers.Pairwise fun a b => (Lexer.spanOf a).index ≤ (Lexer.spanOf b).index ∧
    ∀ token, a = .ok token → token.span.stop ≤ (Lexer.spanOf b).index
  /-- Behind the end of the file there is only the end of the file. -/
  ended : answers.Pairwise fun a b =>
    ∀ token, a = .ok token → token.lexeme = .endOfFile → b = .ok token

namespace Lexer.Sound

variable {source : String}

theorem inside {answer : Except Diagnostic Token} (h : Sound source answer) :
    (spanOf answer).Inside source := by
  cases h with
  | token hmarks | endOfFile _ hmarks | refused _ hmarks => exact hmarks.inside

theorem fragment {token : Token} (h : Sound source (.ok token))
    (htoken : token.lexeme ≠ .endOfFile) :
    0 < token.span.size ∧ token.lexeme.WellFormed ∧ token.span.slice? source = some token.text := by
  cases h with
  | token hmarks hstands =>
    refine ⟨?_, hstands.1, ?_⟩
    · rw [hmarks.size_eq]
      exact Lexeme.byteLength_pos hstands.1
    · rw [hmarks.slice, String.ofList_toList]
  | endOfFile hlexeme => exact absurd hlexeme htoken

theorem end_span {token : Token} (h : Sound source (.ok token))
    (htoken : token.lexeme = .endOfFile) : token.span = ⟨byteLength source.toList, 0⟩ := by
  cases h with
  | token hmarks hstands =>
    rw [htoken] at hstands
    exact hstands.1.elim
  | endOfFile _ hmarks =>
    have hindex := hmarks.index_eq
    have hsize : token.span.size = 0 := hmarks.size_eq
    rw [← hindex, ← hsize]

theorem fault {diagnostic : Diagnostic} (h : Sound source (.error diagnostic)) :
    ∃ fault text after, diagnostic.fault = .lexical fault ∧ Refused text after fault ∧
      diagnostic.span.slice? source = some (String.ofList text) := by
  cases h with
  | refused hfault hmarks hrefused => exact ⟨_, _, _, hfault, hrefused, hmarks.slice⟩

end Lexer.Sound

/-- Whatever a source is and however often its lexer is asked, on after errors and after the end of
the file, its answers are valid. -/
theorem answers_valid (source : String) (count : Nat) :
    AnswersValid source ((Lexer.ofSource source).answers count) := by
  have hsound := Lexer.answers_sound count (Lexer.isIn_ofSource source)
  constructor
  case inside => exact fun answer h => (hsound answer h).inside
  case token => exact fun token h => (hsound _ h).fragment
  case endOfFile => exact fun token h => (hsound _ h).end_span
  case refused => exact fun diagnostic h => (hsound _ h).fault
  case inOrder =>
    refine (Lexer.answers_pairwise _ count).imp fun {a b} h => ⟨?_, ?_⟩
    · exact (Lexer.index_le_reach a).trans h
    · rintro token rfl
      exact h
  case ended => exact Lexer.answers_ended _ count

end JackCompiler
