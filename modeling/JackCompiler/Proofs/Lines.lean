import JackCompiler.Proofs.Faults
/-!
# Where an error points

The location of an error has a column, which counts the characters behind the last `\n`, and the
text of the line around it. One scan finds the column and another one the text, and the caret of a
snippet stands under the character that is blamed as far as both agree (`Location.Points`). They do
not where a `\r` comes right behind the last `\n`, and where the source ends with a `\r` and the
error is at its end: the column counts such a `\r`, and the text is without it (`error_points_iff`).
-/

namespace JackCompiler

open Text (byteLength)

/-! ## The last line of a text -/

namespace Text

/-- The characters behind the last `\n`. -/
def lastLine (text : List Char) : List Char := (text.reverse.takeWhile (· ≠ '\n')).reverse

/-- A line without the `\r` it begins with. -/
def dropReturn : List Char → List Char
  | '\r' :: line => line
  | line => line

/-- What the text of a location shows of the line that `before` ends on. -/
def shownLine (before : List Char) : List Char :=
  if '\n' ∈ before then dropReturn (lastLine before) else before

/-- A `\r` comes right behind the last `\n`. -/
def Returns (before : List Char) : Prop := '\n' ∈ before ∧ (lastLine before).head? = some '\r'

theorem not_mem_lastLine (text : List Char) : '\n' ∉ lastLine text := by
  intro h
  unfold lastLine at h
  have h := List.mem_takeWhile_imp (List.mem_reverse.mp h)
  simp at h

theorem forall_reverse_ne {text : List Char} (h : '\n' ∉ text) :
    ∀ c ∈ text.reverse, decide (c ≠ '\n') = true := by
  intro c hc
  rw [decide_eq_true_eq]
  rintro rfl
  exact h (List.mem_reverse.mp hc)

theorem lastLine_of_not_mem {text : List Char} (h : '\n' ∉ text) : lastLine text = text := by
  unfold lastLine
  rw [List.takeWhile_eq_self_iff.mpr (forall_reverse_ne h), List.reverse_reverse]

theorem lastLine_cons_of_mem (c : Char) {text : List Char} (h : '\n' ∈ text) :
    lastLine (c :: text) = lastLine text := by
  have hne : (text.reverse.takeWhile (· ≠ '\n')).length ≠ text.reverse.length := by
    intro hlength
    have hself := (List.takeWhile_prefix (· ≠ '\n')).eq_of_length hlength
    rw [List.takeWhile_eq_self_iff] at hself
    exact absurd (hself '\n' (List.mem_reverse.mpr h)) (by decide)
  unfold lastLine
  rw [List.reverse_cons, List.takeWhile_append, if_neg hne]

theorem lastLine_newline (text : List Char) : lastLine ('\n' :: text) = lastLine text := by
  by_cases h : '\n' ∈ text
  · exact lastLine_cons_of_mem '\n' h
  · rw [lastLine_of_not_mem h]
    unfold lastLine
    rw [List.reverse_cons, List.takeWhile_append_of_pos (forall_reverse_ne h)]
    simp

theorem dropReturn_of_ne {line : List Char} (h : ∀ rest, line ≠ '\r' :: rest) :
    dropReturn line = line := by
  rw [dropReturn.eq_def]
  split
  · exact absurd rfl (h _)
  · rfl

theorem lastLine_of_returns {before : List Char} (h : Returns before) :
    lastLine before = '\r' :: shownLine before := by
  obtain ⟨hmem, hhead⟩ := h
  rw [shownLine, if_pos hmem]
  rcases hline : lastLine before with _ | ⟨c, line⟩
  · rw [hline] at hhead
    cases hhead
  · rw [hline] at hhead
    cases hhead
    rfl

theorem shownLine_of_not_returns {before : List Char} (h : ¬ Returns before) :
    shownLine before = lastLine before := by
  by_cases hmem : '\n' ∈ before
  · rw [shownLine, if_pos hmem]
    exact dropReturn_of_ne fun line hline => h ⟨hmem, by rw [hline]; rfl⟩
  · rw [shownLine, if_neg hmem, lastLine_of_not_mem hmem]

/-! ## The line around a place -/

/-- A character that begins before the place is one of those before it. -/
theorem cons_of_before {index offset : Nat} {c : Char} {before rest text : List Char}
    (hindex : index = offset + byteLength before) (hlt : ¬ index ≤ offset)
    (htext : before ++ rest = c :: text) :
    ∃ before', before = c :: before' ∧ before' ++ rest = text ∧
      index = offset + c.utf8Size + byteLength before' := by
  rcases before with _ | ⟨d, before⟩
  · exact absurd (Nat.le_of_eq hindex) hlt
  · obtain ⟨rfl, hrest⟩ := List.cons.inj htext
    exact ⟨before, rfl, hrest, by rw [hindex, byteLength, Nat.add_assoc]⟩

/-- The search for a line start comes to the last one before the place, and past a `\r` there. It
stays where it started if there is none. -/
theorem lineStart_append (start : Nat × List Char) {index offset : Nat} {before rest : List Char}
    (hindex : index = offset + byteLength before) (hrest : ∀ c ∈ rest.head?, c ≠ '\r') :
    ('\n' ∉ before → lineStart index start offset (before ++ rest) = start) ∧
    ('\n' ∈ before → ∃ first,
      lineStart index start offset (before ++ rest) = (first, dropReturn (lastLine before) ++ rest) ∧
      index = first + byteLength (dropReturn (lastLine before))) := by
  generalize htext : before ++ rest = text
  fun_induction lineStart index start offset text generalizing before with
  | case1 =>
    obtain ⟨rfl, -⟩ := List.append_eq_nil_iff.mp htext
    simp
  | case2 start offset c text hle =>
    rcases before with _ | ⟨d, before⟩
    · simp
    · obtain ⟨n, hn, -⟩ := byteLength_cons d before
      omega
  | case3 start offset hlt text ih =>
    obtain ⟨line, rfl, hline, hindex⟩ := cons_of_before hindex hlt htext
    rcases line with _ | ⟨d, before⟩
    · rw [show rest = '\r' :: text from hline] at hrest
      exact absurd rfl (hrest '\r' rfl)
    obtain ⟨rfl, rfl⟩ := List.cons.inj hline
    rw [byteLength, ← Nat.add_assoc] at hindex
    obtain ⟨hnot, hmem⟩ := ih hindex rfl
    refine ⟨by simp, fun _ => ?_⟩
    rw [lastLine_newline]
    by_cases h : '\n' ∈ before
    · rw [lastLine_cons_of_mem _ h]
      exact hmem h
    · rw [hnot h, lastLine_of_not_mem (by simp [h])]
      exact ⟨_, rfl, hindex⟩
  | case4 start offset hlt text hreturn ih =>
    obtain ⟨before, rfl, rfl, hindex⟩ := cons_of_before hindex hlt htext
    obtain ⟨hnot, hmem⟩ := ih hindex rfl
    refine ⟨by simp, fun _ => ?_⟩
    rw [lastLine_newline]
    by_cases h : '\n' ∈ before
    · exact hmem h
    · have hself : dropReturn before = before :=
        dropReturn_of_ne fun line hline => hreturn (line ++ rest) (by rw [hline, List.cons_append])
      rw [hnot h, lastLine_of_not_mem h, hself]
      exact ⟨_, rfl, hindex⟩
  | case5 start offset c text hlt hc ih =>
    obtain ⟨before, rfl, rfl, hindex⟩ := cons_of_before hindex hlt htext
    obtain ⟨hnot, hmem⟩ := ih hindex rfl
    refine ⟨fun h => hnot fun hbefore => h (List.mem_cons_of_mem _ hbefore), fun h => ?_⟩
    have h : '\n' ∈ before := by
      rcases List.mem_cons.mp h with h | h
      · exact absurd h.symm hc
      · exact h
    rw [lastLine_cons_of_mem c h]
    exact hmem h

/-- No line end before the place ends the line. -/
theorem throughLineEnd_append {index offset : Nat} {line : List Char} (rest : List Char)
    (hindex : index = offset + byteLength line) :
    throughLineEnd index offset (line ++ rest) = line ++ throughLineEnd index index rest := by
  induction line generalizing offset with
  | nil =>
    rw [byteLength, Nat.add_zero] at hindex
    rw [hindex]
    rfl
  | cons c line ih =>
    have hpos := c.utf8Size_pos
    rw [byteLength] at hindex
    have hnot : ¬ (c = '\n' ∧ index ≤ offset) := by omega
    have hstep : throughLineEnd index offset (c :: (line ++ rest)) =
        c :: throughLineEnd index (offset + c.utf8Size) (line ++ rest) := by
      rw [throughLineEnd.eq_def]
      exact if_neg hnot
    rw [List.cons_append, hstep, ih (by omega), List.cons_append]

/-! ## Trimming -/

theorem trimLineEnd_append_cons {c : Char} (hc : ¬ isLineEnd c) (line rest : List Char) :
    trimLineEnd (line ++ c :: rest) = line ++ c :: trimLineEnd rest := by
  have hstop : (c :: line.reverse).dropWhile isLineEnd = c :: line.reverse :=
    List.dropWhile_cons_of_neg hc
  change ((line ++ c :: rest).reverse.dropWhile isLineEnd).reverse =
    line ++ c :: (rest.reverse.dropWhile isLineEnd).reverse
  rw [List.reverse_append, List.reverse_cons, List.append_assoc, List.singleton_append,
    List.dropWhile_append]
  by_cases hall : (rest.reverse.dropWhile isLineEnd).isEmpty
  · rw [if_pos hall, hstop, List.isEmpty_iff.mp hall]
    simp
  · rw [if_neg hall]
    simp

theorem trimLineEnd_length_le (line : List Char) : (trimLineEnd line).length ≤ line.length := by
  have hle : (line.reverse.dropWhile isLineEnd).length ≤ line.reverse.length :=
    (List.dropWhile_suffix isLineEnd).length_le
  change (line.reverse.dropWhile isLineEnd).reverse.length ≤ line.length
  rw [List.length_reverse] at hle ⊢
  exact hle

/-- A line that does not close with a line end stays as it is. -/
theorem trimLineEnd_eq_self {line : List Char} (h : ∀ c ∈ line.getLast?, ¬ isLineEnd c) :
    trimLineEnd line = line := by
  rcases List.eq_nil_or_concat line with rfl | ⟨line, c, rfl⟩
  · rfl
  · have hc : ¬ isLineEnd c := h c (by simp)
    rw [List.concat_eq_append, trimLineEnd_append_cons hc]
    rfl

/-- A line that closes with a `\r` becomes shorter. -/
theorem trimLineEnd_length_lt {line : List Char} (h : line.getLast? = some '\r') :
    (trimLineEnd line).length < line.length := by
  rcases List.eq_nil_or_concat line with rfl | ⟨line, c, rfl⟩
  · cases h
  · rw [List.concat_eq_append, List.getLast?_concat] at h
    cases h
    have htrim : trimLineEnd (line ++ ['\r']) = trimLineEnd line := by
      unfold trimLineEnd
      rw [List.reverse_append]
      rfl
    have hle := trimLineEnd_length_le line
    rw [List.concat_eq_append, htrim, List.length_append, List.length_singleton]
    omega

end Text

/-! ## The text of a location -/

namespace Span.Marks

variable {span : Span} {source : String} {before text after : List Char}

theorem position_eq (h : span.Marks source before text after) :
    (Location.ofSpan source span).position =
      ⟨before.count '\n' + 1, (Text.lastLine before).length + 1⟩ := by
  unfold Location.ofSpan Span.position Position.after
  rw [h.before_eq, Text.lastLine, List.length_reverse]

/-- The text of the location of what begins with no line end shows the line before it, and goes on
with what follows there. -/
theorem text_eq (h : span.Marks source before text after)
    (hbegins : ∀ c ∈ (text ++ after).head?, ¬ isLineEnd c) :
    (Location.ofSpan source span).text.toList = Text.trimLineEnd
      (Text.shownLine before ++ Text.throughLineEnd span.index span.index (text ++ after)) := by
  have hindex : span.index = 0 + byteLength before := by rw [h.index_eq, Nat.zero_add]
  have hreturn : ∀ c ∈ (text ++ after).head?, c ≠ '\r' := by
    rintro c hc rfl
    exact hbegins _ hc rfl
  obtain ⟨hnot, hmem⟩ := Text.lineStart_append (0, source.toList) hindex hreturn
  have hsource : source.toList = before ++ (text ++ after) := by
    rw [h.source_eq, List.append_assoc]
  rw [← hsource] at hnot hmem
  unfold Location.ofSpan Span.surroundingLine
  simp only [String.toList_ofList]
  by_cases hline : '\n' ∈ before
  · obtain ⟨first, hstart, hfirst⟩ := hmem hline
    rw [hstart, Text.shownLine, if_pos hline]
    dsimp only
    rw [Text.throughLineEnd_append _ hfirst]
  · rw [hnot hline, Text.shownLine, if_neg hline]
    dsimp only
    rw [hsource, Text.throughLineEnd_append _ hindex]

end Span.Marks

/-! ## Where it points -/

/-- A location points at `text`, which is behind `before`: its column is one more than the number of
characters behind the last `\n` before it, its own text begins with them, and the caret of the
snippet is under the first character of `text`, or one past the last one where `text` is empty. -/
structure Location.Points (location : Location) (before text : List Char) : Prop where
  column : location.position.column = (Text.lastLine before).length + 1
  begins : Text.lastLine before <+: location.text.toList
  snippet : location.snippet = "    " ++ location.text ++ "\n    " ++
    String.ofList ((Text.lastLine before).map fun c => if c = '\t' then '\t' else ' ') ++ "^"
  above : location.text.toList[(Text.lastLine before).length]? = text.head?

/-- A location points where its column counts to, if its text has the characters counted. -/
theorem Location.points_of_text {location : Location} {before text rest : List Char}
    (hcolumn : location.position.column = (Text.lastLine before).length + 1)
    (htext : location.text.toList = Text.lastLine before ++ rest) (hrest : rest.head? = text.head?) :
    location.Points before text := by
  refine ⟨hcolumn, ⟨rest, htext.symm⟩, ?_, ?_⟩
  · unfold Location.snippet
    rw [hcolumn, Nat.add_sub_cancel, htext, List.take_left]
  · rw [htext, List.getElem?_append_right (Nat.le_refl _), Nat.sub_self, ← List.head?_eq_getElem?, hrest]

/-- With a `\r` put before it, a line is not how the line itself begins when it goes on with another
character. -/
theorem Text.not_prefix_of_cons {c : Char} (hc : c ≠ '\r') (line rest : List Char) :
    ¬ '\r' :: line <+: line ++ c :: rest := by
  induction line with
  | nil =>
    intro h
    exact hc (List.cons_prefix_cons.mp h).1.symm
  | cons d line ih =>
    intro h
    obtain ⟨rfl, h⟩ := List.cons_prefix_cons.mp h
    exact ih h

section

variable {span : Span} {source : String} {before text after : List Char}

/-- The location of a token points at it if and only if no `\r` comes right behind the last `\n`
before it. -/
theorem Span.Marks.points_token {c : Char} (h : span.Marks source before (c :: text) after)
    (hc : ¬ isLineEnd c) :
    (Location.ofSpan source span).Points before (c :: text) ↔ ¬ Text.Returns before := by
  have hbegins : ∀ d ∈ (c :: text ++ after).head?, ¬ isLineEnd d := by
    rintro d ⟨⟩
    exact hc
  have hnewline : c ≠ '\n' := by
    rintro rfl
    exact hc rfl
  have htext := h.text_eq hbegins
  rw [List.cons_append, Text.throughLineEnd.eq_def] at htext
  dsimp only at htext
  rw [if_neg (fun hand => hnewline hand.1), Text.trimLineEnd_append_cons hc] at htext
  constructor
  · intro hpoints hreturns
    have hline := hpoints.begins
    rw [htext, Text.lastLine_of_returns hreturns] at hline
    exact Text.not_prefix_of_cons (fun hreturn => hc (by rw [hreturn]; rfl)) _ _ hline
  · intro hreturns
    rw [Text.shownLine_of_not_returns hreturns] at htext
    exact Location.points_of_text (by rw [h.position_eq]) htext rfl

/-- The location of the end of a source points there if and only if no `\r` comes right behind the
last `\n`, and none is the last character. -/
theorem Span.Marks.points_end (h : span.Marks source before [] []) :
    (Location.ofSpan source span).Points before [] ↔
      ¬ Text.Returns before ∧ (Text.lastLine before).getLast? ≠ some '\r' := by
  have htext := h.text_eq (by simp)
  rw [List.append_nil, Text.throughLineEnd.eq_def, List.append_nil] at htext
  constructor
  · intro hpoints
    have hle := hpoints.begins.length_le
    rw [htext] at hle
    refine ⟨fun hreturns => ?_, fun hlast => ?_⟩
    · have hshort := Text.trimLineEnd_length_le (Text.shownLine before)
      rw [Text.lastLine_of_returns hreturns, List.length_cons] at hle
      omega
    · have hshort := Text.trimLineEnd_length_lt hlast
      by_cases hreturns : Text.Returns before
      · have hshown := Text.trimLineEnd_length_le (Text.shownLine before)
        rw [Text.lastLine_of_returns hreturns, List.length_cons] at hle
        omega
      · rw [Text.shownLine_of_not_returns hreturns] at hle
        omega
  · rintro ⟨hreturns, hlast⟩
    rw [Text.shownLine_of_not_returns hreturns, Text.trimLineEnd_eq_self] at htext
    · exact Location.points_of_text (by rw [h.position_eq]) (by rw [htext, List.append_nil]) rfl
    · intro c hc hend
      unfold isLineEnd at hend
      simp only [Bool.or_eq_true, decide_eq_true_eq] at hend
      rcases hend with rfl | rfl
      · exact Text.not_mem_lastLine before (List.mem_of_getLast? hc)
      · exact hlast hc

end

/-- A document of tokens fails for something the source is to blame for. -/
theorem blames_of_tokensXml {source : String} {error : Error} (h : tokensXml source = .error error) :
    ∃ fault span, error = .inSource fault (some (.ofSpan source span)) ∧
      Blames source fault span := by
  unfold tokensXml at h
  dsimp only at h
  split at h
  · cases h
  · rename_i diagnostic hstop
    cases h
    exact ⟨_, _, rfl, stop_blames hstop⟩

/-- The line of an error is one more than the number of `\n` before what is blamed, and its column
one more than the number of characters behind the last of them. The location points there if and
only if no `\r` comes right behind the last `\n` and, where the end of the source is blamed, its last
line does not close with a `\r`. -/
theorem error_points_iff (source : String) (error : Error)
    (h : compile source = .error error ∨ tokensXml source = .error error) :
    ∃ fault span before text after,
      error = .inSource fault (some (.ofSpan source span)) ∧ Blames source fault span ∧
      span.Marks source before text after ∧ (text = [] → after = []) ∧
      (Location.ofSpan source span).position =
        ⟨before.count '\n' + 1, (Text.lastLine before).length + 1⟩ ∧
      ((Location.ofSpan source span).Points before text ↔ ¬ Text.Returns before ∧
        (text = [] → (Text.lastLine before).getLast? ≠ some '\r')) := by
  obtain ⟨fault, span, herror, hblames⟩ := h.elim blames_of_compile blames_of_tokensXml
  rcases hblames.marks with ⟨before, c, text, after, hmarks, hc⟩ | hmarks
  · have hpoints := hmarks.points_token fun hend => hc (isBlank_of_isLineEnd hend)
    exact ⟨fault, span, before, c :: text, after, herror, hblames, hmarks, by simp,
      hmarks.position_eq, by simpa using hpoints⟩
  · have hpoints := hmarks.points_end
    exact ⟨fault, span, source.toList, [], [], herror, hblames, hmarks, fun _ => rfl,
      hmarks.position_eq, by simpa using hpoints⟩

/-- A source of two lines, with a tab before what is wrong. -/
def tabbedSource : String := "class\r\n\t#"

def tabbedError : Error :=
  .inSource (.lexical (.unknownCharacter '#')) (some ⟨⟨2, 2⟩, "\t#"⟩)

theorem compile_tabbed : compile tabbedSource = .error tabbedError := by decide +kernel

theorem tabbed_error_points_iff :
    compile tabbedSource = .error tabbedError ∧ ∃ fault span before text after,
      tabbedError = .inSource fault (some (.ofSpan tabbedSource span)) ∧
      Blames tabbedSource fault span ∧ span.Marks tabbedSource before text after ∧
      (text = [] → after = []) ∧
      (Location.ofSpan tabbedSource span).position =
        ⟨before.count '\n' + 1, (Text.lastLine before).length + 1⟩ ∧
      ((Location.ofSpan tabbedSource span).Points before text ↔ ¬ Text.Returns before ∧
        (text = [] → (Text.lastLine before).getLast? ≠ some '\r')) :=
  ⟨compile_tabbed, error_points_iff tabbedSource tabbedError (.inl compile_tabbed)⟩

/-- Behind `\n\r` the column is 2, and the text of the line is without the `\r`: the caret is one
character too far to the right. -/
theorem returned_not_points :
    ∃ location span, compile "\n\r#" = .error (.inSource (.lexical (.unknownCharacter '#'))
        (some location)) ∧
      (Lexer.ofSource "\n\r#").scan.stop = .error ⟨.lexical (.unknownCharacter '#'), span⟩ ∧
      span.Marks "\n\r#" ['\n', '\r'] ['#'] [] ∧
      location = ⟨⟨2, 2⟩, "#"⟩ ∧ location.snippet = "    #\n     ^" ∧
      ¬ location.Points ['\n', '\r'] ['#'] := by
  refine ⟨⟨⟨2, 2⟩, "#"⟩, ⟨2, 1⟩, by decide +kernel, by decide +kernel, ?_, rfl, by decide +kernel, ?_⟩
  · exact ⟨by decide +kernel, by decide, by decide⟩
  · intro hpoints
    exact absurd hpoints.begins (by decide +kernel)

end JackCompiler
