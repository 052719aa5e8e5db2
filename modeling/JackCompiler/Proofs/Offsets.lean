import JackCompiler.Proofs.Lines
import JackCompiler.Proofs.Paths
import JackCompiler.Proofs.Positions
/-!
# A position identifies a place

Line and column are counted from the text before a place. They grow from place to place, so the
place can be found again from them (`Position.offsetIn_after`). Past the end of a text every place
has the position of the end, and the line shown there is still a slice of the text
(`positions_identify`).
-/

namespace JackCompiler

open Text (byteLength)

/-! ## Places of a text -/

namespace Text

variable {text : List Char} {offset : Nat}

/-- An offset between two characters, or at an end of the text, has some of the text before it. -/
theorem exists_before (h : onBoundary offset text = true) (hle : offset ≤ byteLength text) :
    ∃ head tail, text = head ++ tail ∧ offset = byteLength head := by
  induction text generalizing offset with
  | nil =>
    rw [byteLength] at hle
    exact ⟨[], [], rfl, Nat.le_zero.mp hle⟩
  | cons c text ih =>
    cases offset with
    | zero => exact ⟨[], c :: text, rfl, rfl⟩
    | succ n =>
      rw [onBoundary, Bool.and_eq_true, decide_eq_true_eq] at h
      obtain ⟨hc, hrest⟩ := h
      rw [byteLength] at hle
      obtain ⟨head, tail, rfl, hhead⟩ := ih hrest (by omega)
      refine ⟨c :: head, tail, rfl, ?_⟩
      rw [byteLength]
      omega

theorem onBoundary_past (h : byteLength text ≤ offset) : onBoundary offset text = true := by
  induction text generalizing offset with
  | nil => cases offset <;> rfl
  | cons c text ih =>
    rw [byteLength] at h
    cases offset with
    | zero => rfl
    | succ n =>
      rw [onBoundary, ih (by omega), decide_eq_true (by omega)]
      rfl

theorem before_past (h : byteLength text ≤ offset) : before offset text = text := by
  induction text generalizing offset with
  | nil => cases offset <;> rfl
  | cons c text ih =>
    have hpos := c.utf8Size_pos
    rw [byteLength] at h
    cases offset with
    | zero => omega
    | succ n => rw [before, ih (by omega)]

end Text

namespace Span

variable {span : Span} {text : String}

/-- The span starts between two characters of the text, or at one of its ends. -/
def Starts (span : Span) (text : String) : Prop :=
  Text.onBoundary span.index text.toList = true ∧ span.index ≤ byteLength text.toList

theorem Starts.marks (h : span.Starts text) :
    ∃ before after, Marks ⟨span.index, 0⟩ text before [] after := by
  obtain ⟨before, after, htext, hindex⟩ := Text.exists_before h.1 h.2
  exact ⟨before, after, by rw [htext, List.append_nil], hindex, rfl⟩

theorem Starts.position?_eq (h : span.Starts text) :
    span.position? text = some (span.position text) := if_pos h.1

/-- A span past the end of a text has the position of the end. -/
theorem position?_past (h : byteLength text.toList ≤ span.index) :
    span.position? text = some (.after text.toList) := by
  rw [position?, if_pos (Text.onBoundary_past h), position, Text.before_past h]

end Span

/-! ## Counting -/

namespace Position

/-- A position counts what is before it: the line ends, and the characters behind the last of
them. -/
structure Counts (position : Position) (before : List Char) : Prop where
  line : position.line = before.count '\n' + 1
  column : ∃ lines last, before = lines ++ last ∧
    (lines = [] ∨ ∃ earlier, lines = earlier ++ ['\n']) ∧ '\n' ∉ last ∧
    position.column = last.length + 1

theorem after_eq (head : List Char) :
    after head = ⟨head.count '\n' + 1, (Text.lastLine head).length + 1⟩ := by
  rw [after, Text.lastLine, List.length_reverse]

theorem after_counts (head : List Char) : (after head).Counts head := by
  refine ⟨rfl, (Path.splitLast '\n' head).1, Text.lastLine head, ?_, ?_, ?_, ?_⟩
  · exact (Path.splitLast_append '\n' head).symm
  · exact Path.splitLast_start '\n' head
  · exact Text.not_mem_lastLine head
  · rw [after_eq]

/-! ## Finding a place again -/

/-- The offset at a position of a text. It is looked for from the start: lines are passed until the
first one of what is left is the right one, and then characters of it. -/
def offsetIn : List Char → Position → Nat
  | [], _ => 0
  | c :: text, ⟨line, column⟩ =>
    if line ≤ 1 then
      if column ≤ 1 then 0 else c.utf8Size + offsetIn text ⟨line, column - 1⟩
    else c.utf8Size + offsetIn text ⟨if c = '\n' then line - 1 else line, column⟩

theorem after_newline (head : List Char) :
    after ('\n' :: head) = ⟨(after head).line + 1, (after head).column⟩ := by
  rw [after_eq, after_eq, Text.lastLine_newline, List.count_cons_self]

theorem after_cons_of_mem {c : Char} {head : List Char} (hc : c ≠ '\n') (h : '\n' ∈ head) :
    after (c :: head) = after head := by
  rw [after_eq, after_eq, Text.lastLine_cons_of_mem c h, List.count_cons_of_ne hc]

theorem after_of_not_mem {head : List Char} (h : '\n' ∉ head) :
    after head = ⟨1, head.length + 1⟩ := by
  rw [after_eq, Text.lastLine_of_not_mem h, List.count_eq_zero.mpr h]

/-- The place behind some text is found again from its position. -/
theorem offsetIn_after (head tail : List Char) :
    (after head).offsetIn (head ++ tail) = byteLength head := by
  induction head with
  | nil => cases tail <;> rfl
  | cons c head ih =>
    rw [List.cons_append, byteLength, ← ih]
    by_cases hc : c = '\n'
    · subst hc
      have hline : ¬ (after head).line + 1 ≤ 1 := by
        rw [after_eq]
        simp
      rw [after_newline, offsetIn, if_neg hline, if_pos rfl, Nat.add_sub_cancel]
    · by_cases hmem : '\n' ∈ head
      · have hline : ¬ (after head).line ≤ 1 := by
          have hpos : 0 < head.count '\n' := List.count_pos_iff.mpr hmem
          rw [after_eq]
          dsimp only
          omega
        rw [after_cons_of_mem hc hmem, offsetIn, if_neg hline, if_neg hc]
      · have hmem' : '\n' ∉ c :: head := by simp [hmem, Ne.symm hc]
        rw [after_of_not_mem hmem', after_of_not_mem hmem, offsetIn, if_pos (Nat.le_refl 1),
          if_neg (by simp), List.length_cons, Nat.add_sub_cancel]

example : (⟨3, 2⟩ : Position).offsetIn "a\né\nß!".toList = 7 := by decide

end Position

/-! ## What positions say about places -/

/-- What the positions of a text say about its places, all together. The position of a span is that
of its start, whatever its size is. -/
structure PositionsIdentify (text : String) : Prop where
  /-- Further on in the text the position is greater. -/
  grow : ∀ a b : Span, a.Starts text → b.Starts text → a.index < b.index →
    ∃ p q, a.position? text = some p ∧ b.position? text = some q ∧ p.Before q
  /-- A position counts the text before it, and its place can be found again. -/
  counts : ∀ span : Span, span.Starts text → ∃ position before after,
    span.position? text = some position ∧ text.toList = before ++ after ∧
    byteLength before = span.index ∧ position.Counts before ∧
    position.offsetIn text.toList = span.index
  /-- From the end on every place has the position of the end. -/
  past : ∀ span : Span, byteLength text.toList ≤ span.index →
    span.position? text = (⟨byteLength text.toList, 0⟩ : Span).position? text ∧
    span.position? text = some (.after text.toList)
  /-- The line around any place, past the end or inside of a character too, is the slice of the text
  that its span denotes. -/
  line : ∀ span : Span,
    (span.surroundingLine text).2.slice? text = some (span.surroundingLine text).1

/-- Whatever a text is, its positions identify its places. -/
theorem positions_identify (text : String) : PositionsIdentify text := by
  constructor
  case grow =>
    intro a b ha hb hlt
    obtain ⟨before, after, hmarks⟩ := ha.marks
    obtain ⟨before', after', hmarks'⟩ := hb.marks
    have hbefore := hmarks.position_before hmarks' hlt
    exact ⟨_, _, ha.position?_eq, hb.position?_eq, hbefore⟩
  case counts =>
    intro span hstarts
    obtain ⟨before, after, hmarks⟩ := hstarts.marks
    have htext : text.toList = before ++ after := by
      rw [hmarks.source_eq, List.append_nil]
    have hposition : span.position text = .after before :=
      congrArg Position.after hmarks.before_eq
    refine ⟨.after before, before, after, ?_, htext, hmarks.index_eq.symm, ?_, ?_⟩
    · rw [hstarts.position?_eq, hposition]
    · exact Position.after_counts before
    · rw [htext, Position.offsetIn_after]
      exact hmarks.index_eq.symm
  case past =>
    intro span hpast
    have hend : (⟨byteLength text.toList, 0⟩ : Span).position? text = some (.after text.toList) :=
      Span.position?_past (Nat.le_refl _)
    rw [Span.position?_past hpast, hend]
    exact ⟨rfl, rfl⟩
  case line => exact fun span => surroundingLine_slice span text

end JackCompiler
