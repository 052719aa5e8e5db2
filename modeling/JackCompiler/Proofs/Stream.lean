import JackCompiler.Proofs.Lexing
import JackCompiler.Proofs.Run
/-!
# Looking ahead takes nothing

Peeking gives what is ahead of what a stream has left, and leaves that as it was (`peek_spec`).
So every operation decides by the same token, and only taking it makes less of what is left
(`remaining_of_advance`).
-/

namespace JackCompiler.TokenStream

open Compile (ahead)

variable {stream : TokenStream} {token : Token} {diagnostic : Diagnostic}

/-- The stream has seen what is to come, and has what `before` had left. -/
structure Sees (stream before : TokenStream) (token : Token) : Prop where
  peeked : stream.peeked = some token
  current : stream.current = before.current
  remaining : stream.remaining = before.remaining

/-- Peeking gives what is ahead. If that is a token, the stream has seen it then. -/
theorem peek_spec (stream : TokenStream) :
    stream.peek.1 = ahead stream.remaining.stop stream.remaining.tokens ∧
    ∀ token, stream.peek.1 = .ok token → stream.peek.2.Sees stream token := by
  unfold peek remaining
  cases hpeeked : stream.peeked with
  | some token =>
    dsimp only
    by_cases heof : token.lexeme = .endOfFile
    · rw [if_pos heof]
      refine ⟨rfl, fun seen hseen => ?_⟩
      cases hseen
      exact ⟨hpeeked, rfl, rfl⟩
    · rw [if_neg heof]
      refine ⟨rfl, fun seen hseen => ?_⟩
      cases hseen
      exact ⟨hpeeked, rfl, rfl⟩
  | none =>
    dsimp only
    cases hnext : stream.lexer.next with
    | mk result lexer =>
      cases result with
      | error diagnostic =>
        rw [Lexer.scan_of_next_error hnext]
        exact ⟨rfl, fun seen hseen => by cases hseen⟩
      | ok token =>
        have hremaining : stream.remaining = stream.lexer.scan := by rw [remaining, hpeeked]
        dsimp only
        by_cases heof : token.lexeme = .endOfFile
        · have hscan := Lexer.scan_of_next_endOfFile hnext heof
          refine ⟨by rw [hscan]; rfl, fun seen hseen => ?_⟩
          cases hseen
          refine ⟨rfl, rfl, ?_⟩
          rw [hremaining, hscan, remaining]
          exact if_pos heof
        · have hscan := Lexer.scan_of_next_ok hnext heof
          refine ⟨by rw [hscan]; rfl, fun seen hseen => ?_⟩
          cases hseen
          refine ⟨rfl, rfl, ?_⟩
          rw [hremaining, hscan, remaining]
          exact if_neg heof

theorem peek_eq (stream : TokenStream) :
    stream.peek.1 = ahead stream.remaining.stop stream.remaining.tokens := (peek_spec stream).1

theorem peek_sees (h : ahead stream.remaining.stop stream.remaining.tokens = .ok token) :
    stream.peek.2.Sees stream token := by
  obtain ⟨hahead, hsees⟩ := peek_spec stream
  rw [h] at hahead
  exact hsees token hahead

/-- What looks ahead goes on with the token there. -/
theorem withPeek_token {α : Type}
    (h : ahead stream.remaining.stop stream.remaining.tokens = .ok token)
    (next : Token → TokenStream → Except Diagnostic α × TokenStream) :
    stream.withPeek next = next token stream.peek.2 := by
  have hahead := peek_eq stream
  rw [h] at hahead
  unfold withPeek
  rw [show stream.peek = (.ok token, stream.peek.2) from Prod.ext hahead rfl]

/-- What looks ahead where no token can be read fails for the reason that there is none. -/
theorem withPeek_error {α : Type}
    (h : ahead stream.remaining.stop stream.remaining.tokens = .error diagnostic)
    (next : Token → TokenStream → Except Diagnostic α × TokenStream) :
    (stream.withPeek next).1 = .error diagnostic := by
  have hahead := peek_eq stream
  rw [h] at hahead
  unfold withPeek
  rw [show stream.peek = (.error diagnostic, stream.peek.2) from Prod.ext hahead rfl]

/-- A stream that has seen a token has it ahead. -/
theorem Sees.ahead {before : TokenStream} (h : stream.Sees before token) :
    ahead stream.remaining.stop stream.remaining.tokens = .ok token := by
  unfold TokenStream.remaining
  rw [h.peeked]
  dsimp only
  split <;> rfl

/-- No token is taken at the end of the file. -/
theorem advance_endOfFile (h : ahead stream.remaining.stop stream.remaining.tokens = .ok token)
    (heof : token.lexeme = .endOfFile) :
    ∃ after, stream.advance = (.error ⟨.lexical .noMoreTokens, token.span⟩, after) ∧
      after.Sees stream token := by
  refine ⟨stream.peek.2, ?_, peek_sees h⟩
  rw [advance, withPeek_token h, if_pos heof]

/-- The token ahead is taken, and what is behind it is left. -/
theorem advance_token (h : ahead stream.remaining.stop stream.remaining.tokens = .ok token)
    (htoken : token.lexeme ≠ .endOfFile) :
    ∃ after, stream.advance = (.ok token, after) ∧ after.current = some token ∧
      stream.remaining = ⟨token :: after.remaining.tokens, after.remaining.stop⟩ := by
  have hsees := peek_sees h
  refine ⟨{ stream.peek.2 with current := some token, peeked := none }, ?_, rfl, ?_⟩
  · rw [advance, withPeek_token h, if_neg htoken]
  · rw [← hsees.remaining]
    unfold remaining
    rw [hsees.peeked]
    exact if_neg htoken

/-! ## What a stream has left -/

theorem remaining_ne_endOfFile (stream : TokenStream) :
    ∀ token ∈ stream.remaining.tokens, token.lexeme ≠ .endOfFile := by
  unfold remaining
  cases stream.peeked with
  | none => exact Lexer.scan_ne_endOfFile _
  | some token =>
    by_cases heof : token.lexeme = .endOfFile
    · simp [heof]
    · simpa [heof] using Lexer.scan_ne_endOfFile stream.lexer

/-- Where the end of the file is ahead no tokens are left. -/
theorem remaining_of_endOfFile
    (h : ahead stream.remaining.stop stream.remaining.tokens = .ok token)
    (heof : token.lexeme = .endOfFile) : stream.remaining = ⟨[], .ok token⟩ := by
  have hne := stream.remaining_ne_endOfFile
  generalize stream.remaining = left at h hne ⊢
  obtain ⟨tokens, stop⟩ := left
  cases tokens with
  | nil => rw [show stop = .ok token from h]
  | cons first tokens =>
    cases h
    exact absurd heof (hne token List.mem_cons_self)

/-- What has been taken was ahead, and what is behind it is left. -/
theorem remaining_of_advance {after : TokenStream} (h : stream.advance = (.ok token, after)) :
    stream.remaining = ⟨token :: after.remaining.tokens, after.remaining.stop⟩ := by
  cases hahead : ahead stream.remaining.stop stream.remaining.tokens with
  | error diagnostic =>
    have herror : stream.advance.1 = .error diagnostic := withPeek_error hahead _
    rw [h] at herror
    cases herror
  | ok next =>
    by_cases heof : next.lexeme = .endOfFile
    · obtain ⟨_, hadvance, -⟩ := advance_endOfFile hahead heof
      rw [h] at hadvance
      cases hadvance
    · obtain ⟨_, hadvance, -, hremaining⟩ := advance_token hahead heof
      rw [h] at hadvance
      cases hadvance
      exact hremaining

/-- Where nothing can be taken no tokens are left. -/
theorem exhausted_of_advance {after : TokenStream}
    (h : stream.advance = (.error diagnostic, after)) :
    stream.remaining.tokens = [] ∧ diagnostic = Compile.exhausted stream.remaining.stop := by
  cases hahead : ahead stream.remaining.stop stream.remaining.tokens with
  | error reason =>
    have herror : stream.advance.1 = .error reason := withPeek_error hahead _
    rw [h] at herror
    cases herror
    obtain ⟨htokens, hstop⟩ := Compile.ahead_error hahead
    rw [hstop]
    exact ⟨htokens, rfl⟩
  | ok token =>
    by_cases heof : token.lexeme = .endOfFile
    · obtain ⟨_, hadvance, -⟩ := advance_endOfFile hahead heof
      rw [h] at hadvance
      cases hadvance
      rw [remaining_of_endOfFile hahead heof]
      exact ⟨rfl, rfl⟩
    · obtain ⟨_, hadvance, -⟩ := advance_token hahead heof
      rw [h] at hadvance
      cases hadvance

end JackCompiler.TokenStream
