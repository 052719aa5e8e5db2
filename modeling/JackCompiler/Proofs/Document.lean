import JackCompiler.Proofs.Acceptance
import JackCompiler.Proofs.Spans
/-!
# The token document can be read back

Escaping hides every character that could be taken for the end of a text, of its element or of its
line (`inside_escape`), and is undone by `unescape?`. So each token has one line of the document, on
which its category and its text are read (`readElement?_line`), and the document gives back all of
them (`document_records`). Two sources have the same document if and only if their tokens agree in
category and text (`tokensXml_lossless`).
-/

namespace JackCompiler

namespace Xml

/-! ## Escaping -/

/-- What can follow a `&` inside an element. -/
def references : List (List Char) :=
  [['l', 't', ';'], ['g', 't', ';'], ['a', 'm', 'p', ';'], ['q', 'u', 'o', 't', ';']]

/-- A text in which nothing can be taken for the end of it: a `&` begins the name of a character, and
the other reserved characters are not there, nor is a line end. -/
structure Inside (text : List Char) : Prop where
  apart : ∀ c ∈ text, c ≠ '<' ∧ c ≠ '>' ∧ c ≠ '"' ∧ c ≠ '\n'
  reference : ∀ before after, text = before ++ '&' :: after → ∃ r ∈ references, r <+: after

/-- The text that an escaped one stands for. -/
def unescape? : List Char → Option (List Char)
  | [] => some []
  | '&' :: 'l' :: 't' :: ';' :: text => (unescape? text).map ('<' :: ·)
  | '&' :: 'g' :: 't' :: ';' :: text => (unescape? text).map ('>' :: ·)
  | '&' :: 'a' :: 'm' :: 'p' :: ';' :: text => (unescape? text).map ('&' :: ·)
  | '&' :: 'q' :: 'u' :: 'o' :: 't' :: ';' :: text => (unescape? text).map ('"' :: ·)
  | c :: text =>
    if c = '<' ∨ c = '>' ∨ c = '&' ∨ c = '"' then none else (unescape? text).map (c :: ·)

/-- A character stands for itself, or is one of the four that are named. -/
theorem escape_cases (c : Char) :
    (c = '<' ∧ escape c = "&lt;".toList) ∨ (c = '>' ∧ escape c = "&gt;".toList) ∨
    (c = '&' ∧ escape c = "&amp;".toList) ∨ (c = '"' ∧ escape c = "&quot;".toList) ∨
    ((c ≠ '<' ∧ c ≠ '>' ∧ c ≠ '&' ∧ c ≠ '"') ∧ escape c = [c]) := by
  unfold escape
  by_cases hlt : c = '<'
  · exact .inl ⟨hlt, if_pos hlt⟩
  by_cases hgt : c = '>'
  · exact .inr (.inl ⟨hgt, by rw [if_neg hlt, if_pos hgt]⟩)
  by_cases hamp : c = '&'
  · exact .inr (.inr (.inl ⟨hamp, by rw [if_neg hlt, if_neg hgt, if_pos hamp]⟩))
  by_cases hquot : c = '"'
  · exact .inr (.inr (.inr (.inl ⟨hquot, by rw [if_neg hlt, if_neg hgt, if_neg hamp, if_pos hquot]⟩)))
  · exact .inr (.inr (.inr (.inr ⟨⟨hlt, hgt, hamp, hquot⟩,
      by rw [if_neg hlt, if_neg hgt, if_neg hamp, if_neg hquot]⟩)))

theorem unescape?_escape (text : List Char) : unescape? (text.flatMap escape) = some text := by
  induction text with
  | nil => rfl
  | cons c text ih =>
    rw [List.flatMap_cons]
    rcases escape_cases c with ⟨rfl, hc⟩ | ⟨rfl, hc⟩ | ⟨rfl, hc⟩ | ⟨rfl, hc⟩ | ⟨hplain, hc⟩
    all_goals rw [hc]
    case inr.inr.inr.inr =>
      obtain ⟨hlt, hgt, hamp, hquot⟩ := hplain
      rw [List.singleton_append, unescape?]
      · rw [if_neg (by simp [hlt, hgt, hamp, hquot]), ih]
        rfl
      all_goals
        rintro _ rfl
        exact absurd rfl hamp
    all_goals
      change (unescape? (text.flatMap escape)).map _ = _
      rw [ih]
      rfl

namespace Inside

theorem nil : Inside [] := ⟨by simp, by simp⟩

theorem plain {c : Char} {text : List Char} (hc : c ≠ '<' ∧ c ≠ '>' ∧ c ≠ '"' ∧ c ≠ '\n')
    (hamp : c ≠ '&') (h : Inside text) : Inside (c :: text) := by
  refine ⟨List.forall_mem_cons.mpr ⟨hc, h.apart⟩, fun before after heq => ?_⟩
  cases before with
  | nil => exact absurd (List.cons.inj heq).1 hamp
  | cons d before => exact h.reference before after (List.cons.inj heq).2

theorem named {r text : List Char} (hr : r ∈ references) (h : Inside text) :
    Inside ('&' :: (r ++ text)) := by
  obtain ⟨happart, hamp⟩ :
      (∀ c ∈ '&' :: r, c ≠ '<' ∧ c ≠ '>' ∧ c ≠ '"' ∧ c ≠ '\n') ∧ '&' ∉ r := by
    simp only [references, List.mem_cons, List.not_mem_nil, or_false] at hr
    rcases hr with rfl | rfl | rfl | rfl <;> simp
  refine ⟨?_, fun before after heq => ?_⟩
  · exact List.forall_mem_append.mpr ⟨happart, h.apart⟩
  cases before with
  | nil =>
    obtain ⟨-, rfl⟩ := List.cons.inj heq
    exact ⟨r, hr, List.prefix_append r text⟩
  | cons d before =>
    have heq : r ++ text = before ++ '&' :: after := (List.cons.inj heq).2
    rcases List.append_eq_append_iff.mp heq with ⟨more, -, htext⟩ | ⟨more, hname, hafter⟩
    · exact h.reference more after htext
    · cases more with
      | nil => exact h.reference [] after hafter.symm
      | cons e more =>
        obtain ⟨rfl, -⟩ := List.cons.inj hafter
        exact absurd (by simp [hname]) hamp

end Inside

/-- An escaped text stands inside its element and on its line. -/
theorem inside_escape {text : List Char} (h : '\n' ∉ text) : Inside (text.flatMap escape) := by
  induction text with
  | nil => exact .nil
  | cons c text ih =>
    have hc : c ≠ '\n' := by
      rintro rfl
      exact h List.mem_cons_self
    have ih := ih fun hmem => h (List.mem_cons_of_mem c hmem)
    rw [List.flatMap_cons]
    rcases escape_cases c with ⟨rfl, hc⟩ | ⟨rfl, hc⟩ | ⟨rfl, hc⟩ | ⟨rfl, hc⟩ | ⟨hplain, hescape⟩
    case inr.inr.inr.inr =>
      obtain ⟨hlt, hgt, hamp, hquot⟩ := hplain
      rw [hescape]
      exact .plain ⟨hlt, hgt, hquot, hc⟩ hamp ih
    all_goals
      rw [hc]
      exact .named (by decide) ih

/-! ## Lines -/

/-- The lines of a text that closes each with a `\n`. -/
def lines? : List Char → Option (List (List Char))
  | [] => some []
  | c :: text =>
    if c = '\n' then (lines? text).map ([] :: ·)
    else
      match lines? text with
      | some (line :: lines) => some ((c :: line) :: lines)
      | _ => none

theorem lines?_append {line : List Char} (h : '\n' ∉ line) (rest : List Char) :
    lines? (line ++ '\n' :: rest) = (lines? rest).map (line :: ·) := by
  induction line with
  | nil => rw [List.nil_append, lines?, if_pos rfl]
  | cons c line ih =>
    have hc : c ≠ '\n' := by
      rintro rfl
      exact h List.mem_cons_self
    rw [List.cons_append, lines?, if_neg hc, ih fun hmem => h (List.mem_cons_of_mem c hmem)]
    cases lines? rest <;> rfl

theorem lines?_flatMap {lines : List (List Char)} (h : ∀ line ∈ lines, '\n' ∉ line) :
    lines? (lines.flatMap (· ++ ['\n'])) = some lines := by
  induction lines with
  | nil => rfl
  | cons line lines ih =>
    obtain ⟨hline, hlines⟩ := List.forall_mem_cons.mp h
    rw [List.flatMap_cons, List.append_assoc, List.singleton_append, lines?_append hline, ih hlines]
    rfl

/-! ## Elements -/

/-- The line of the element of a category around a text. -/
def line (category : Category) (text : List Char) : List Char :=
  '<' :: (category.name.toList ++ '>' :: ' ' :: (text.flatMap escape ++ ' ' ::
    '<' :: '/' :: (category.name.toList ++ ['>'])))

/-- The category that an element is named for. -/
def category? (name : List Char) : Option Category :=
  [.keyword, .symbol, .integerConstant, .stringConstant, .identifier].find? fun category =>
    category.name.toList = name

/-- The category and the text of the element that is a line. -/
def readElement? (text : List Char) : Option (Category × List Char) := do
  let rest := text.drop 1
  let name := rest.takeWhile (· ≠ '>')
  let body := (rest.drop (name.length + 2)).takeWhile (· ≠ '<')
  let category ← category? name
  let contents ← unescape? body.dropLast
  if text = line category contents then some (category, contents) else none

theorem readElement?_line {category : Category} {text : List Char}
    (hcategory : category ≠ .endOfFile) (htext : '\n' ∉ text) :
    readElement? (line category text) = some (category, text) := by
  have hname : ∀ c ∈ category.name.toList, decide (c ≠ '>') = true := by
    cases category <;> simp [Category.name]
  have hread : category? category.name.toList = some category := by
    cases category <;> first | rfl | exact absurd rfl hcategory
  have hbody : ∀ c ∈ text.flatMap escape ++ [' '], decide (c ≠ '<') = true := by
    intro c hc
    rw [decide_eq_true_eq]
    rcases List.mem_append.mp hc with hc | hc
    · exact ((inside_escape htext).apart c hc).1
    · rw [List.mem_singleton.mp hc]
      decide
  obtain ⟨close, hline⟩ : ∃ close, line category text =
      '<' :: (category.name.toList ++ '>' :: ' ' ::
        (text.flatMap escape ++ [' '] ++ '<' :: close)) :=
    ⟨'/' :: (category.name.toList ++ ['>']), by rw [line, List.append_assoc]; rfl⟩
  have htakeName : (category.name.toList ++ '>' :: ' ' ::
      (text.flatMap escape ++ [' '] ++ '<' :: close)).takeWhile (· ≠ '>') =
      category.name.toList := (Lexer.takeWhile_run hname (by simp)).1
  have htakeBody : (text.flatMap escape ++ [' '] ++ '<' :: close).takeWhile (· ≠ '<') =
      text.flatMap escape ++ [' '] := (Lexer.takeWhile_run hbody (by simp)).1
  have hdrop : (category.name.toList ++ '>' :: ' ' ::
      (text.flatMap escape ++ [' '] ++ '<' :: close)).drop (category.name.toList.length + 2) =
      text.flatMap escape ++ [' '] ++ '<' :: close := by
    rw [List.drop_append]
    simp
  unfold readElement?
  dsimp only
  rw [hline, List.drop_one, List.tail_cons, htakeName, hdrop, htakeBody, List.dropLast_concat, hread,
    unescape?_escape, ← hline]
  exact if_pos rfl

/-- A line with one element and nothing else: that of a category, around an escaped text. -/
structure IsElement (category : Category) (text line : List Char) : Prop where
  newline : '\n' ∉ line
  body : ∃ body, Inside body ∧ unescape? body = some text ∧
    line = '<' :: (category.name.toList ++ '>' :: ' ' :: (body ++ ' ' ::
      '<' :: '/' :: (category.name.toList ++ ['>'])))

theorem isElement_line (category : Category) {text : List Char} (htext : '\n' ∉ text) :
    IsElement category text (line category text) := by
  have hname : '\n' ∉ category.name.toList := by
    cases category <;> simp [Category.name]
  have hbody : Inside (text.flatMap escape) := inside_escape htext
  have hnewline : '\n' ∉ text.flatMap escape := fun hmem => (hbody.apart _ hmem).2.2.2 rfl
  refine ⟨?_, text.flatMap escape, hbody, unescape?_escape text, rfl⟩
  simp [line, hname, hnewline]

/-! ## Documents -/

def opening : List Char := "<tokens>".toList

def closing : List Char := "</tokens>".toList

/-- The category of a lexeme, and its text in the document. -/
def entry (lexeme : Lexeme) : Category × List Char :=
  (lexeme.kind.category, (contents lexeme).toList)

/-- The categories and texts on the lines behind the first one of a document. -/
def readElements? : List (List Char) → Option (List (Category × List Char))
  | [] => none
  | line :: lines =>
    if lines = [] then if line = closing then some [] else none
    else do return (← readElement? line) :: (← readElements? lines)

/-- The categories and texts of the elements of a document. -/
def read? (document : String) : Option (List (Category × List Char)) :=
  match lines? document.toList with
  | some (first :: lines) => if first = opening then readElements? lines else none
  | _ => none

/-- A document is the lines of its elements between two others. -/
theorem document_toList (tokens : List Token) :
    (document tokens).toList = (opening ::
      ((tokens.map fun token => entry token.lexeme).map fun entry => line entry.1 entry.2) ++
      [closing]).flatMap (· ++ ['\n']) := by
  have helement (lexeme : Lexeme) :
      (element lexeme).toList = line lexeme.kind.category (contents lexeme).toList ++ ['\n'] := by
    unfold element escapeText line
    generalize lexeme.kind.category.name = name
    simp
  unfold document opening closing entry
  simp [String.toList_join, List.flatMap_map, helement]

theorem readElements?_lines {entries : List (Category × List Char)}
    (h : ∀ entry ∈ entries, entry.1 ≠ .endOfFile ∧ '\n' ∉ entry.2) :
    readElements? (entries.map (fun entry => line entry.1 entry.2) ++ [closing]) = some entries := by
  induction entries with
  | nil => rfl
  | cons entry entries ih =>
    obtain ⟨⟨hcategory, htext⟩, hentries⟩ := List.forall_mem_cons.mp h
    rw [List.map_cons, List.cons_append, readElements?, if_neg (by simp),
      readElement?_line hcategory htext, ih hentries]
    rfl

/-! ## The document of a source -/

/-- No token of a source has a line end in its text. -/
theorem newline_not_mem_contents {lexeme : Lexeme} (h : lexeme.WellFormed) :
    '\n' ∉ (contents lexeme).toList := by
  have hword {text : List Char} (htext : IsWord text) : '\n' ∉ text :=
    fun hmem => absurd (htext.characters _ hmem) (by decide)
  cases lexeme with
  | keyword word => exact hword word.isWord
  | identifier name => exact hword h.1
  | string contents => exact fun hmem => (h _ hmem).2 rfl
  | endOfFile => exact h.elim
  | symbol symbol =>
    intro hmem
    have hchar : '\n' = symbol.char := by simpa [contents, Lexeme.text] using hmem
    exact symbol.char_apart.1 (by rw [← hchar]; rfl)
  | integer digits =>
    intro hmem
    have hdigit := Nat.isDigit_of_mem_toDigits (by decide) (by decide) (Nat.toList_repr ▸ hmem)
    exact absurd hdigit (by decide)

theorem entry_ok {lexeme : Lexeme} (h : lexeme.WellFormed) :
    (entry lexeme).1 ≠ .endOfFile ∧ '\n' ∉ (entry lexeme).2 := by
  refine ⟨?_, newline_not_mem_contents h⟩
  cases lexeme with
  | endOfFile => exact h.elim
  | _ => simp [entry, Lexeme.kind, TokenKind.category]

/-- A document of tokens: a line for each of them, in order, between two other lines, from which
their categories and texts are read back. -/
structure Records (document : String) (tokens : List Token) : Prop where
  lines : ∃ elements : List (List Char),
    document.toList = (opening :: elements ++ [closing]).flatMap (· ++ ['\n']) ∧
    List.Forall₂ (fun token line =>
      IsElement token.kind.category (contents token.lexeme).toList line) tokens elements
  read : read? document = some (tokens.map fun token => entry token.lexeme)

theorem document_records {tokens : List Token} (h : ∀ token ∈ tokens, token.lexeme.WellFormed) :
    Records (document tokens) tokens := by
  have hentries : ∀ found ∈ tokens.map (fun token => entry token.lexeme),
      found.1 ≠ .endOfFile ∧ '\n' ∉ found.2 := by
    intro found hfound
    obtain ⟨token, htoken, rfl⟩ := List.mem_map.mp hfound
    exact entry_ok (h token htoken)
  have hopening : '\n' ∉ opening := by decide
  have hclosing : '\n' ∉ closing := by decide
  have hlines : ∀ text ∈ opening :: ((tokens.map fun token => entry token.lexeme).map fun entry =>
      line entry.1 entry.2) ++ [closing], '\n' ∉ text := by
    intro text htext
    rw [List.cons_append, List.mem_cons, List.mem_append, List.mem_singleton, List.mem_map] at htext
    rcases htext with heq | ⟨found, hfound, heq⟩ | heq
    · rwa [heq]
    · rw [← heq]
      exact (isElement_line found.1 (hentries found hfound).2).newline
    · rwa [heq]
  refine ⟨⟨_, document_toList tokens, ?_⟩, ?_⟩
  · rw [List.map_map, List.forall₂_map_right_iff, List.forall₂_same]
    intro token htoken
    exact isElement_line _ (newline_not_mem_contents (h token htoken))
  · unfold read?
    rw [document_toList, lines?_flatMap hlines, List.cons_append]
    dsimp only
    rw [if_pos rfl, readElements?_lines hentries]

end Xml

/-- Two lexemes are of one category and say the same: a string constant what is between its quotes,
an integer constant its value, and any other its text. -/
def Lexeme.Agrees : Lexeme → Lexeme → Prop
  | .string contents, .string contents' => contents = contents'
  | .integer digits, .integer digits' =>
    decimalValue digits.toList = decimalValue digits'.toList
  | a, b => a.kind.category = b.kind.category ∧ a.text = b.text

theorem Xml.entry_eq_iff (a b : Lexeme) : entry a = entry b ↔ a.Agrees b := by
  unfold entry
  rw [Prod.mk.injEq, String.toList_inj]
  cases a with
  | string contents =>
    cases b <;> simp [Lexeme.Agrees, Xml.contents, Lexeme.kind, TokenKind.category]
  | integer digits =>
    cases b with
    | integer digits' =>
      refine ⟨fun h => Nat.repr_injective h.2, fun h => ⟨rfl, congrArg Nat.repr h⟩⟩
    | _ => simp [Lexeme.Agrees, Xml.contents, Lexeme.kind, TokenKind.category]
  | _ => cases b <;> simp [Lexeme.Agrees, Xml.contents, Lexeme.kind, TokenKind.category]

/-- Two documents are the same if and only if their tokens agree one by one. -/
theorem Xml.document_eq_iff {tokens tokens' : List Token}
    (h : ∀ token ∈ tokens, token.lexeme.WellFormed)
    (h' : ∀ token ∈ tokens', token.lexeme.WellFormed) :
    document tokens = document tokens' ↔
      List.Forall₂ (fun a b => a.lexeme.Agrees b.lexeme) tokens tokens' := by
  have hentries : List.Forall₂ (fun a b => a.lexeme.Agrees b.lexeme) tokens tokens' ↔
      tokens.map (fun token => entry token.lexeme) =
        tokens'.map (fun token => entry token.lexeme) := by
    rw [← List.forall₂_eq_eq_eq, List.forall₂_map_left_iff, List.forall₂_map_right_iff]
    simp only [entry_eq_iff]
  rw [hentries]
  constructor
  · intro hdocument
    have hread := (document_records h).read
    rw [hdocument, (document_records h').read] at hread
    exact (Option.some.inj hread).symm
  · intro hsame
    apply String.toList_inj.mp
    rw [document_toList, document_toList, hsame]

/-- Two sources have these documents, each a record of the tokens of its source, and the documents
are the same if and only if the tokens agree one by one. -/
structure Xml.Tells (source source' document document' : String) : Prop where
  first : tokensXml source = .ok document
  second : tokensXml source' = .ok document'
  firstRecords : Xml.Records document (Lexer.ofSource source).scan.tokens
  secondRecords : Xml.Records document' (Lexer.ofSource source').scan.tokens
  same : document = document' ↔ List.Forall₂ (fun a b => a.lexeme.Agrees b.lexeme)
    (Lexer.ofSource source).scan.tokens (Lexer.ofSource source').scan.tokens

/-- A source with a string constant that looks like the end of an element, and one that differs from
it in zeros before a number alone. -/
def markedSource : String := "let s = \"</b> & c\"; return 7;"

def paddedSource : String := "let s = \"</b> & c\"; return 007;"

end JackCompiler
