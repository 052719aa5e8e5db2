import JackCompiler.Proofs.Faults
/-!
# Tokens stand at different positions

The further on in a source, the greater the position (`Position.after_append`). What a scan meets
stands one behind another (`met_pairwise`), so a location is that of at most one token
(`location_ne`).
-/

namespace JackCompiler

open Text (byteLength)

/-! ## Positions grow -/

/-- A position is on an earlier line than another one, or to the left of it on the same line. -/
def Position.Before (a b : Position) : Prop :=
  a.line < b.line ∨ a.line = b.line ∧ a.column < b.column

theorem Position.Before.ne {a b : Position} (h : a.Before b) : a ≠ b := by
  rintro rfl
  rcases h with h | ⟨-, h⟩
  · exact Nat.lt_irrefl _ h
  · exact Nat.lt_irrefl _ h

theorem Position.after_append (head : List Char) (c : Char) (more : List Char) :
    (Position.after head).Before (Position.after (head ++ c :: more)) := by
  unfold Position.Before Position.after
  by_cases h : '\n' ∈ c :: more
  · left
    have hpos : 0 < (c :: more).count '\n' := List.count_pos_iff.mpr h
    dsimp only
    rw [List.count_append]
    omega
  · -- no line ends, so the line goes on with all that is behind `head`
    right
    have hline : ∀ d ∈ (c :: more).reverse, decide (d ≠ '\n') = true := by
      intro d hd
      rw [decide_eq_true_eq]
      rintro rfl
      exact h (List.mem_reverse.mp hd)
    have hcount : (c :: more).count '\n' = 0 := List.count_eq_zero.mpr h
    dsimp only
    rw [List.count_append, hcount, List.reverse_append, List.takeWhile_append_of_pos hline,
      List.length_append, List.length_reverse, List.length_cons]
    omega

namespace Span.Marks

variable {a b : Span} {source : String} {before text after before' text' after' : List Char}

/-- What begins further on in a source has more before it. -/
theorem before_append (ha : a.Marks source before text after)
    (hb : b.Marks source before' text' after') (h : a.index < b.index) :
    ∃ c more, before' = before ++ c :: more := by
  have hsource : before ++ (text ++ after) = before' ++ (text' ++ after') := by
    rw [← List.append_assoc, ← ha.source_eq, hb.source_eq, List.append_assoc]
  rw [ha.index_eq, hb.index_eq] at h
  rcases List.append_eq_append_iff.mp hsource with ⟨more, rfl, -⟩ | ⟨more, rfl, -⟩
  · rcases more with _ | ⟨c, more⟩
    · rw [List.append_nil] at h
      exact absurd h (Nat.lt_irrefl _)
    · exact ⟨c, more, rfl⟩
  · rw [Text.byteLength_append] at h
    omega

/-- What begins at different places is at different positions. -/
theorem position_before (ha : a.Marks source before text after)
    (hb : b.Marks source before' text' after') (h : a.index < b.index) :
    (a.position source).Before (b.position source) := by
  obtain ⟨c, more, hbefore⟩ := ha.before_append hb h
  unfold Span.position
  rw [ha.before_eq, hb.before_eq, hbefore]
  exact Position.after_append before c more

end Span.Marks

/-! ## What a scan meets -/

/-- The tokens of a scan, and the end of the file if it comes there. -/
def Lexer.Scan.met (scan : Lexer.Scan) : List Token := scan.tokens ++ scan.stop.toOption.toList

theorem mem_met {source : String} {token : Token} :
    token ∈ (Lexer.ofSource source).scan.met ↔ token.Met source := by
  unfold Lexer.Scan.met Token.Met
  rw [List.mem_append]
  cases (Lexer.ofSource source).scan.stop <;> simp [Except.toOption, eq_comm]

theorem Lexeme.byteLength_pos {lexeme : Lexeme} (h : lexeme.WellFormed) :
    0 < byteLength lexeme.text.toList := by
  obtain ⟨c, text, htext, -⟩ := Lexeme.text_begins h
  obtain ⟨n, hn, -⟩ := Text.byteLength_cons c text
  rw [htext, hn]
  exact Nat.succ_pos n

theorem tokensAt_pairwise {rest : List Char} {pieces : List Piece} {offset : Nat}
    (hdivides : Divides rest pieces) :
    (tokensAt offset pieces).Pairwise fun a b => a.span.index < b.span.index := by
  induction pieces generalizing offset with
  | nil => exact .nil
  | cons piece pieces ih =>
    obtain ⟨hpiece, hpieces⟩ := hdivides
    cases piece with
    | token lexeme =>
      refine List.pairwise_cons.mpr ⟨fun token htoken => ?_, ih hpieces⟩
      obtain ⟨-, before, after, -, hspan⟩ := mem_tokensAt hpieces htoken
      have hpos := Lexeme.byteLength_pos hpiece.1
      rw [hspan]
      dsimp only
      omega
    | blank | lineComment | blockComment => exact ih hpieces

/-- What a scan meets begins further and further on. -/
theorem met_pairwise (source : String) :
    (Lexer.ofSource source).scan.met.Pairwise fun a b => a.span.index < b.span.index := by
  obtain ⟨pieces, rest, hsource, hdivides, htokens, hstops⟩ := Lexer.exists_scan_division source
  unfold Lexer.Scan.met
  rw [htokens]
  refine List.pairwise_append.mpr ⟨tokensAt_pairwise hdivides, ?_, fun token htoken eof heof => ?_⟩
  · cases (Lexer.ofSource source).scan.stop <;> simp [Except.toOption]
  generalize (Lexer.ofSource source).scan.stop = stop at hstops heof
  cases hstops with
  | refused => cases heof
  | endOfFile =>
    obtain rfl := List.mem_singleton.mp heof
    obtain ⟨hlexeme, before, after, htexts, hspan⟩ := mem_tokensAt hdivides htoken
    have hpos : 0 < byteLength token.text.toList := Lexeme.byteLength_pos hlexeme
    rw [hspan, htexts, Text.byteLength_append, Text.byteLength_append]
    dsimp only
    omega

/-- Every token ends before the lexical fault that the scan stops at. -/
theorem stop_le_fault {source : String} {token : Token} {diagnostic : Diagnostic}
    (htoken : token ∈ (Lexer.ofSource source).scan.tokens)
    (hstop : (Lexer.ofSource source).scan.stop = .error diagnostic) :
    token.span.stop ≤ diagnostic.span.index := by
  obtain ⟨pieces, rest, -, hdivides, htokens, hstops⟩ := Lexer.exists_scan_division source
  rw [htokens] at htoken
  rw [hstop] at hstops
  cases hstops with
  | refused =>
    obtain ⟨-, before, after, htexts, hspan⟩ := mem_tokensAt hdivides htoken
    rw [Span.stop, hspan, htexts, Text.byteLength_append, Text.byteLength_append]
    dsimp only
    omega

/-- Of what a scan meets, no two things have one location. -/
theorem location_ne {source : String} {before after : List Token} {token other : Token}
    (h : (Lexer.ofSource source).scan.met = before ++ token :: after)
    (hother : other ∈ before ++ after) :
    Location.ofSpan source other.span ≠ Location.ofSpan source token.span := by
  have hmet {t : Token} (ht : t ∈ before ++ token :: after) : t.Met source := by
    rw [← h] at ht
    exact mem_met.mp ht
  have hpairwise := met_pairwise source
  rw [h, List.pairwise_append, List.pairwise_cons] at hpairwise
  obtain ⟨-, ⟨hafter, -⟩, hbefore⟩ := hpairwise
  obtain ⟨_, _, hmarks⟩ := (hmet (t := token) (by simp)).marks
  intro hlocation
  have hposition : other.span.position source = token.span.position source :=
    congrArg Location.position hlocation
  rcases List.mem_append.mp hother with hother | hother
  · obtain ⟨_, _, hmarks'⟩ := (hmet (t := other) (by simp [hother])).marks
    exact (hmarks'.position_before hmarks (hbefore other hother token (by simp))).ne hposition
  · obtain ⟨_, _, hmarks'⟩ := (hmet (t := other) (by simp [hother])).marks
    exact (hmarks.position_before hmarks' (hafter other hother)).ne hposition.symm

end JackCompiler
