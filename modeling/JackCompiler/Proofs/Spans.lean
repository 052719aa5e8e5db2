import JackCompiler.Compile
import JackCompiler.Proofs.Tokenization
/-!
# Spans lie on their text

The span of a token of a source is that of its text there, that of the end of the file is behind all
of the source, and that of a lexical fault is that of the text that is refused (`token_marks`,
`endOfFile_marks`, `fault_marks`). So a source can be cut at these spans (`Span.Marks.slice`), and
the line around any place can be cut out of it (`surroundingLine_slice`).
-/

namespace JackCompiler

namespace Text

/-- A byte offset behind a character is past it, and so far behind it. -/
theorem byteLength_cons (c : Char) (text : List Char) :
    ∃ n, byteLength (c :: text) = n + 1 ∧ c.utf8Size ≤ n + 1 ∧
      n + 1 - c.utf8Size = byteLength text := by
  have hpos := c.utf8Size_pos
  refine ⟨byteLength (c :: text) - 1, ?_, ?_, ?_⟩
  all_goals
    rw [byteLength]
    omega

theorem splitAtByte?_append (head tail : List Char) :
    splitAtByte? (byteLength head) (head ++ tail) = some (head, tail) := by
  induction head with
  | nil => rw [byteLength, List.nil_append, splitAtByte?]
  | cons c head ih =>
    obtain ⟨n, hn, hle, hrest⟩ := byteLength_cons c head
    rw [hn, List.cons_append, splitAtByte?, if_pos hle, hrest, ih]
    rfl

theorem onBoundary_append (head tail : List Char) :
    onBoundary (byteLength head) (head ++ tail) = true := by
  induction head with
  | nil => rw [byteLength, onBoundary]
  | cons c head ih =>
    obtain ⟨n, hn, hle, hrest⟩ := byteLength_cons c head
    rw [hn, List.cons_append, onBoundary, hrest, ih, decide_eq_true hle]
    rfl

theorem before_append (head tail : List Char) :
    before (byteLength head) (head ++ tail) = head := by
  induction head with
  | nil => rw [byteLength, before]
  | cons c head ih =>
    obtain ⟨n, hn, -, hrest⟩ := byteLength_cons c head
    rw [hn, List.cons_append, before, hrest, ih]

end Text

open Text (byteLength)

/-- A span is that of some text of a source, with what is before it and behind it. -/
structure Span.Marks (span : Span) (source : String) (before text after : List Char) : Prop where
  source_eq : source.toList = before ++ text ++ after
  index_eq : span.index = byteLength before
  size_eq : span.size = byteLength text

namespace Span.Marks

variable {span : Span} {source : String} {before text after : List Char}

theorem slice (h : span.Marks source before text after) :
    span.slice? source = some (String.ofList text) := by
  unfold slice?
  rw [h.source_eq, h.index_eq, h.size_eq, List.append_assoc, Text.splitAtByte?_append]
  simp only [Option.bind_eq_bind, Option.bind_some, Text.splitAtByte?_append]
  rfl

theorem stop_le (h : span.Marks source before text after) :
    span.stop ≤ byteLength source.toList := by
  rw [Span.stop, h.source_eq, h.index_eq, h.size_eq, Text.byteLength_append,
    Text.byteLength_append]
  omega

theorem before_eq (h : span.Marks source before text after) :
    Text.before span.index source.toList = before := by
  rw [h.source_eq, h.index_eq, List.append_assoc, Text.before_append]

theorem located (h : span.Marks source before text after) :
    Location.ofSpan? source span = some (.ofSpan source span) := by
  have hboundary : Text.onBoundary span.index source.toList = true := by
    rw [h.source_eq, h.index_eq, List.append_assoc, Text.onBoundary_append]
  rw [Location.ofSpan?, if_pos hboundary]

end Span.Marks

/-! ## What a scan marks -/

/-- A token among pieces stands where its text does. -/
theorem mem_tokensAt {rest : List Char} {pieces : List Piece} {offset : Nat} {token : Token}
    (hdivides : Divides rest pieces) (h : token ∈ tokensAt offset pieces) :
    token.lexeme.WellFormed ∧ ∃ before after,
      Piece.texts pieces = before ++ token.text.toList ++ after ∧
      token.span = ⟨offset + byteLength before, byteLength token.text.toList⟩ := by
  induction pieces generalizing offset with
  | nil => cases h
  | cons piece pieces ih =>
    obtain ⟨hpiece, hpieces⟩ := hdivides
    have hlater (h : token ∈ tokensAt (offset + byteLength piece.text) pieces) :
        token.lexeme.WellFormed ∧ ∃ before after,
          Piece.texts (piece :: pieces) = before ++ token.text.toList ++ after ∧
          token.span = ⟨offset + byteLength before, byteLength token.text.toList⟩ := by
      obtain ⟨hlexeme, before, after, htexts, hspan⟩ := ih hpieces h
      refine ⟨hlexeme, piece.text ++ before, after, ?_, ?_⟩
      · rw [Piece.texts_cons, htexts, List.append_assoc, List.append_assoc, List.append_assoc]
      · rw [hspan, Text.byteLength_append, Nat.add_assoc]
    cases piece with
    | token lexeme =>
      rcases List.mem_cons.mp h with rfl | h
      · exact ⟨hpiece.1, [], Piece.texts pieces, rfl, rfl⟩
      · exact hlater h
    | blank | lineComment | blockComment => exact hlater h

section

variable {source : String}

theorem token_marks {token : Token} (h : token ∈ (Lexer.ofSource source).scan.tokens) :
    token.lexeme.WellFormed ∧ ∃ before after,
      token.span.Marks source before token.text.toList after := by
  obtain ⟨pieces, rest, hsource, hdivides, htokens, -⟩ := Lexer.exists_scan_division source
  rw [htokens] at h
  obtain ⟨hlexeme, before, after, htexts, hspan⟩ := mem_tokensAt hdivides h
  refine ⟨hlexeme, before, after ++ rest, ?_, ?_, ?_⟩
  · rw [hsource, htexts, List.append_assoc]
  · rw [hspan, Nat.zero_add]
  · rw [hspan]

theorem endOfFile_marks {eof : Token} (h : (Lexer.ofSource source).scan.stop = .ok eof) :
    eof.lexeme = .endOfFile ∧ eof.span.Marks source source.toList [] [] := by
  obtain ⟨pieces, rest, hsource, -, -, hstops⟩ := Lexer.exists_scan_division source
  rw [h] at hstops
  cases hstops with
  | endOfFile =>
    rw [List.append_nil] at hsource
    exact ⟨rfl, by simp, by rw [hsource], rfl⟩

theorem fault_marks {diagnostic : Diagnostic}
    (h : (Lexer.ofSource source).scan.stop = .error diagnostic) :
    ∃ fault before text after, diagnostic.fault = .lexical fault ∧ Refused text after fault ∧
      diagnostic.span.Marks source before text after := by
  obtain ⟨pieces, rest, hsource, -, -, hstops⟩ := Lexer.exists_scan_division source
  rw [h] at hstops
  cases hstops with
  | @refused text after fault hrefused =>
    exact ⟨fault, _, text, after, rfl, hrefused, by rw [hsource, List.append_assoc], rfl, rfl⟩

end

/-! ## The line around a place -/

namespace Text

/-- What is left of a source at a byte offset. -/
def Left (source : List Char) (place : Nat × List Char) : Prop :=
  ∃ head, source = head ++ place.2 ∧ place.1 = byteLength head

theorem Left.next {source text : List Char} {offset : Nat} {c : Char}
    (h : Left source (offset, c :: text)) : Left source (offset + c.utf8Size, text) := by
  obtain ⟨head, hsource, hoffset⟩ := h
  dsimp only at hsource hoffset
  refine ⟨head ++ [c], by simpa using hsource, ?_⟩
  rw [byteLength_append, hoffset]
  rfl

theorem lineStart_left {source : List Char} (index : Nat) {start : Nat × List Char} {offset : Nat}
    {text : List Char} (hstart : Left source start) (htext : Left source (offset, text)) :
    Left source (lineStart index start offset text) := by
  fun_induction lineStart index start offset text with
  | case1 | case2 => exact hstart
  | case3 start offset hindex rest ih => exact ih htext.next.next htext.next.next
  | case4 start offset hindex text hreturn ih => exact ih htext.next htext.next
  | case5 start offset c text hindex hc ih => exact ih hstart htext.next

theorem throughLineEnd_prefix (index offset : Nat) (text : List Char) :
    throughLineEnd index offset text <+: text := by
  fun_induction throughLineEnd index offset text with
  | case1 => exact List.prefix_rfl
  | case2 offset c h rest => simp [h.1]
  | case3 offset c h text hreturn => simp [h.1]
  | case4 offset c text h ih => exact List.cons_prefix_cons.mpr ⟨rfl, ih⟩

end Text

/-- The line around a span can be cut out of the source where it is said to be. -/
theorem surroundingLine_slice (span : Span) (source : String) :
    (span.surroundingLine source).2.slice? source = some (span.surroundingLine source).1 := by
  have hwhole : Text.Left source.toList (0, source.toList) := ⟨[], rfl, rfl⟩
  obtain ⟨head, hsource, hstart⟩ := Text.lineStart_left span.index hwhole hwhole
  obtain ⟨more, hline⟩ := Text.throughLineEnd_prefix span.index
    (Text.lineStart span.index (0, source.toList) 0 source.toList).1
    (Text.lineStart span.index (0, source.toList) 0 source.toList).2
  have hmarks : (span.surroundingLine source).2.Marks source head
      (Text.throughLineEnd span.index
        (Text.lineStart span.index (0, source.toList) 0 source.toList).1
        (Text.lineStart span.index (0, source.toList) 0 source.toList).2) more := by
    refine ⟨?_, hstart, rfl⟩
    rw [List.append_assoc, hline]
    exact hsource
  exact hmarks.slice

/-- A span that lies inside a source, which can be cut at both its ends and around its line. -/
structure Span.Inside (span : Span) (source : String) : Prop where
  stop_le : span.stop ≤ byteLength source.toList
  slice : ∃ fragment, span.slice? source = some fragment
  located : Location.ofSpan? source span = some (.ofSpan source span)
  line : (span.surroundingLine source).2.slice? source = some (span.surroundingLine source).1

theorem Span.Marks.inside {span : Span} {source : String} {before text after : List Char}
    (h : span.Marks source before text after) : span.Inside source :=
  ⟨h.stop_le, ⟨_, h.slice⟩, h.located, surroundingLine_slice span source⟩

end JackCompiler
