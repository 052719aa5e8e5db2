import Mathlib
import JackCompiler.Token.Stream
/-!
# What a scan is made of

Every token of a scan was read by one step of the lexer (`scan_tokens`). So none of them is the end
of the file, and an identifier among them is never a reserved word.
-/

namespace JackCompiler.Lexer

/-- What holds of every token a step can read holds of the tokens of a scan. -/
theorem scanFrom_tokens {P : Token → Prop}
    (hP : ∀ lexer token after, next lexer = (.ok token, after) → token.lexeme ≠ .endOfFile →
      P token) (done : List Token) (lexer : Lexer) (hdone : ∀ t ∈ done, P t) :
    ∀ t ∈ (lexer.scanFrom done).tokens, P t := by
  fun_induction scanFrom done lexer with
  | case1 done lexer token after h ht => simpa using hdone
  | case2 done lexer token after h ht ih =>
    refine ih fun t hmem => ?_
    rcases List.mem_cons.mp hmem with rfl | hmem
    · exact hP _ _ _ h ht
    · exact hdone t hmem
  | case3 => simpa using hdone

theorem scan_tokens {P : Token → Prop}
    (hP : ∀ lexer token after, next lexer = (.ok token, after) → token.lexeme ≠ .endOfFile →
      P token) (lexer : Lexer) : ∀ t ∈ lexer.scan.tokens, P t :=
  scanFrom_tokens hP [] lexer (by simp)

/-- The end of the file is not among the tokens of a scan. -/
theorem scan_ne_endOfFile (lexer : Lexer) : ∀ t ∈ lexer.scan.tokens, t.lexeme ≠ .endOfFile :=
  scan_tokens (fun _ _ _ _ h => h) lexer

/-- What a scan without an error stops at is the end of the file. -/
theorem scan_stop_ok {lexer : Lexer} {token : Token} (h : lexer.scan.stop = .ok token) :
    token.lexeme = .endOfFile := by
  revert h
  unfold scan
  fun_induction scanFrom [] lexer with
  | case1 done lexer read after h ht => rintro ⟨⟩; exact ht
  | case2 done lexer read after h ht ih => exact ih
  | case3 => simp

theorem readToken_identifier {offset : Nat} {text : List Char} {token : Token} {after : Lexer}
    {name : String} (h : readToken offset text = (.ok token, after))
    (hname : token.lexeme = .identifier name) : Keyword.ofSpelling? name = none := by
  unfold readToken accept refuse at h
  grind

/-- An identifier is not a reserved word. -/
theorem scan_identifier {lexer : Lexer} {name : String}
    (h : .identifier name ∈ lexer.scan.tokens.map (·.lexeme)) :
    Keyword.ofSpelling? name = none := by
  obtain ⟨token, htoken, hname⟩ := List.mem_map.mp h
  refine scan_tokens (P := fun token => ∀ name, token.lexeme = .identifier name →
    Keyword.ofSpelling? name = none) (fun lexer token after hnext _ name hname => ?_) lexer token
    htoken name hname
  unfold next at hnext
  split at hnext
  · exact readToken_identifier hnext hname
  · simp at hnext

end JackCompiler.Lexer
