import JackCompiler.Proofs.Acceptance
/-!
# Layout does not matter

Two sources with the same tokens compile to the same class, or fail alike at the same token, however
far apart their tokens stand (`compile_layout`). The runs over both are compared with one over tokens
that stand at the places `0`, `1`, `2` and so on (`run_numbered`): it knows nothing of either source.
-/

namespace JackCompiler

/-- A lexeme is known from its kind and its text. -/
theorem Lexeme.eq_of_kind_text {a b : Lexeme} (hkind : a.kind = b.kind) (htext : a.text = b.text) :
    a = b := by
  cases a with
  | string contents =>
    cases b <;> simp only [Lexeme.kind, reduceCtorEq] at hkind
    have h := congrArg String.toList htext
    simp only [Lexeme.text, String.toList_append] at h
    rw [String.toList_inj.mp (List.append_cancel_left (List.append_cancel_right h))]
  | keyword | symbol | integer | identifier | endOfFile =>
    cases b <;> simp_all [Lexeme.kind, Lexeme.text]

theorem lexemes_eq_of_texts {a b : List Token}
    (h : a.map (fun token => (token.kind, token.text)) =
      b.map (fun token => (token.kind, token.text))) :
    a.map (·.lexeme) = b.map (·.lexeme) := by
  induction a generalizing b with
  | nil => rw [List.map_eq_nil_iff.mp h.symm]
  | cons token a ih =>
    rcases b with _ | ⟨token', b⟩
    · cases h
    · simp only [List.map_cons, List.cons.injEq, Prod.mk.injEq] at h ⊢
      exact ⟨Lexeme.eq_of_kind_text h.1.1 h.1.2, ih h.2⟩

namespace Compile

/-- Lexemes as tokens that stand at the places `0`, `1`, `2` and so on. -/
def numbered (lexemes : List Lexeme) : List Token :=
  lexemes.mapIdx fun i lexeme => ⟨lexeme, i, 0⟩

/-- Where the token with a number stands; what has a higher number stands at the end of the file. -/
def placeOf (tokens : List Token) (eof : Token) (span : Span) : Span :=
  (tokens[span.index]?.getD eof).span

theorem numbered_mapSpan (tokens : List Token) (eof : Token) :
    (numbered (tokens.map (·.lexeme))).map (·.mapSpan (placeOf tokens eof)) = tokens := by
  apply List.ext_getElem
  · simp [numbered]
  · intro i hi hi'
    simp [numbered, Token.mapSpan, placeOf, List.getElem?_eq_getElem hi']

/-- A run goes as one over the same lexemes at numbered places, and so does its diagnostic. -/
theorem run_numbered (tokens : List Token) {eof : Token} (heof : eof.lexeme = .endOfFile)
    (done : List Event) (state : State) :
    run (.ok eof) done tokens program state =
      Result.mapSpan (placeOf tokens eof)
        (run (.ok ⟨.endOfFile, tokens.length, 0⟩) done (numbered (tokens.map (·.lexeme))) program
          state) := by
  have h := run_mapSpan (placeOf tokens eof) (.ok ⟨.endOfFile, tokens.length, 0⟩) done
    (numbered (tokens.map (·.lexeme))) program state
  have hstop : moveAhead (placeOf tokens eof) (.ok ⟨.endOfFile, tokens.length, 0⟩) = .ok eof := by
    rw [← heof]
    simp [moveAhead, Except.map, Except.mapError, Token.mapSpan, placeOf]
  rwa [hstop, numbered_mapSpan] at h

/-- A place with a number is that of a token of the source or of its end. -/
theorem placeOf_eq (tokens : List Token) (eof : Token) (span : Span) :
    ∃ token, (tokens ++ [eof])[min span.index tokens.length]? = some token ∧
      placeOf tokens eof span = token.span := by
  rcases Nat.lt_or_ge span.index tokens.length with hlt | hge
  · refine ⟨tokens[span.index], ?_, ?_⟩
    · rw [Nat.min_eq_left hlt.le, List.getElem?_append_left hlt, List.getElem?_eq_getElem hlt]
    · rw [placeOf, List.getElem?_eq_getElem hlt]
      rfl
  · refine ⟨eof, ?_, ?_⟩
    · rw [Nat.min_eq_right hge, List.getElem?_append_right le_rfl, Nat.sub_self]
      rfl
    · rw [placeOf, List.getElem?_eq_none hge]
      rfl

end Compile

open Compile

/-- Two sources that are read to their ends with tokens of the same kinds and texts compile to the
same class, or fail with the same fault, each at its token with the same number. -/
theorem compile_layout {source source' : String} {eof eof' : Token}
    (hstop : (Lexer.ofSource source).scan.stop = .ok eof)
    (hstop' : (Lexer.ofSource source').scan.stop = .ok eof')
    (htexts : (Lexer.ofSource source).scan.tokens.map (fun token => (token.kind, token.text)) =
      (Lexer.ofSource source').scan.tokens.map (fun token => (token.kind, token.text))) :
    (∃ compiled, compile source = .ok compiled ∧ compile source' = .ok compiled) ∨
    ∃ (fault : Fault) (i : Nat) (token token' : Token),
      ((Lexer.ofSource source).scan.tokens ++ [eof])[i]? = some token ∧
      ((Lexer.ofSource source').scan.tokens ++ [eof'])[i]? = some token' ∧
      compile source = .error (.inSource fault (some (.ofSpan source token.span))) ∧
      compile source' = .error (.inSource fault (some (.ofSpan source' token'.span))) := by
  have hlexemes := lexemes_eq_of_texts htexts
  have hlength := congrArg List.length hlexemes
  rw [List.length_map, List.length_map] at hlength
  have hrun := run_numbered (Lexer.ofSource source).scan.tokens (Lexer.scan_stop_ok hstop) [] {}
  have hrun' := run_numbered (Lexer.ofSource source').scan.tokens (Lexer.scan_stop_ok hstop') [] {}
  rw [← hlexemes, ← hlength, ← hstop'] at hrun'
  rw [← hstop] at hrun
  -- both runs are the numbered one, moved
  rcases hresult : run (.ok ⟨.endOfFile, (Lexer.ofSource source).scan.tokens.length, 0⟩) []
    (numbered ((Lexer.ofSource source).scan.tokens.map (·.lexeme))) program {} with
    ⟨done, diagnostic | state⟩
  · right
    obtain ⟨token, htoken, hspan⟩ :=
      placeOf_eq (Lexer.ofSource source).scan.tokens eof diagnostic.span
    obtain ⟨token', htoken', hspan'⟩ :=
      placeOf_eq (Lexer.ofSource source').scan.tokens eof' diagnostic.span
    rw [← hlength] at htoken'
    rw [hresult] at hrun hrun'
    refine ⟨diagnostic.fault, _, token, token', htoken, htoken', ?_, ?_⟩
    · rw [compile_eq_error.mpr ⟨_, _, hrun, rfl⟩, ← hspan]
      rfl
    · rw [compile_eq_error.mpr ⟨_, _, hrun', rfl⟩, ← hspan']
      rfl
  · left
    rw [hresult] at hrun hrun'
    exact ⟨_, compile_eq_ok.mpr ⟨_, _, hrun, rfl⟩, compile_eq_ok.mpr ⟨_, _, hrun', rfl⟩⟩

/-! One class on a line of its own and the same with comments and other line ends; it declares no
`x`. -/

def tightSource : String := "class A\x7bfunction void f()\x7blet x=1;\x7d\x7d"

def looseSource : String :=
  "/** A class. */\r\nclass A \x7b\r\n\tfunction void f() \x7b // nothing declared\n\r    let x\t= 1 ;\x7d\n\x7d\n"

theorem loose_compile_layout :
    (Lexer.ofSource tightSource).scan.stop = .ok ⟨.endOfFile, 36, 0⟩ ∧
      (Lexer.ofSource looseSource).scan.stop = .ok ⟨.endOfFile, 89, 0⟩ ∧
      (Lexer.ofSource tightSource).scan.tokens.map (fun token => (token.kind, token.text)) =
        (Lexer.ofSource looseSource).scan.tokens.map (fun token => (token.kind, token.text)) ∧
      ((∃ compiled, compile tightSource = .ok compiled ∧ compile looseSource = .ok compiled) ∨
      ∃ (fault : Fault) (i : Nat) (token token' : Token),
        ((Lexer.ofSource tightSource).scan.tokens ++ [⟨.endOfFile, 36, 0⟩])[i]? = some token ∧
        ((Lexer.ofSource looseSource).scan.tokens ++ [⟨.endOfFile, 89, 0⟩])[i]? = some token' ∧
        compile tightSource = .error (.inSource fault (some (.ofSpan tightSource token.span))) ∧
        compile looseSource = .error (.inSource fault (some (.ofSpan looseSource token'.span)))) := by
  have hstop : (Lexer.ofSource tightSource).scan.stop = .ok ⟨.endOfFile, 36, 0⟩ := by
    decide +kernel
  have hstop' : (Lexer.ofSource looseSource).scan.stop = .ok ⟨.endOfFile, 89, 0⟩ := by
    decide +kernel
  have htexts :
      (Lexer.ofSource tightSource).scan.tokens.map (fun token => (token.kind, token.text)) =
        (Lexer.ofSource looseSource).scan.tokens.map (fun token => (token.kind, token.text)) := by
    decide +kernel
  exact ⟨hstop, hstop', htexts, compile_layout hstop hstop' htexts⟩

end JackCompiler
