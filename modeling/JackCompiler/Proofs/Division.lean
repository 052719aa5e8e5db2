import JackCompiler.Proofs.Lexing
/-!
# How a source divides

A source divides into blanks, comments and tokens, each as long as it can be where it stands, up to
its end or to the first text that none of them begins with. This is said here without a scan: a
piece is its own text, `Piece.Stands` tells what may be behind it, and `Refused` is text that no
piece begins with, with what is wrong with it. Every text divides (`exists_division`), as it begins
with a piece or is refused (`begins`).
-/

namespace JackCompiler

open Text (byteLength)

/-! ## Pieces -/

/-- A stretch of a source. -/
inductive Piece
  | blank (c : Char)
  /-- A comment up to the end of its line, which is not part of it. -/
  | lineComment (body : List Char)
  | blockComment (body : List Char)
  | token (lexeme : Lexeme)

def Piece.text : Piece → List Char
  | blank c => [c]
  | lineComment body => '/' :: '/' :: body
  | blockComment body => '/' :: '*' :: (body ++ ['*', '/'])
  | token lexeme => lexeme.text.toList

def Piece.texts (pieces : List Piece) : List Char := pieces.flatMap Piece.text

@[simp]
theorem Piece.texts_nil : texts [] = [] := rfl

@[simp]
theorem Piece.texts_cons (piece : Piece) (pieces : List Piece) :
    texts (piece :: pieces) = piece.text ++ texts pieces := rfl

/-- The mark that closes a block comment does not stand in its body. -/
def Unclosed (body : List Char) : Prop := ¬ ['*', '/'] <:+: body

theorem Unclosed.tail {c : Char} {body : List Char} (h : Unclosed (c :: body)) : Unclosed body :=
  fun hin => h (List.infix_cons_iff.mpr (.inr hin))

/-- Text that reads as a word. -/
def IsWord : List Char → Prop
  | [] => False
  | first :: more => isLetter first ∧ ∀ c ∈ more, isWordCharacter c

/-- Text that a string constant can have between its quotes. -/
def IsQuotable (text : List Char) : Prop := ∀ c ∈ text, c ≠ '"' ∧ ¬ isLineEnd c

/-- A lexeme that can stand in a source. -/
def Lexeme.WellFormed : Lexeme → Prop
  | keyword _ | symbol _ => True
  | integer digits => digits.toList ≠ [] ∧ (∀ c ∈ digits.toList, isDigit c) ∧
      decimalValue digits.toList ≤ maxInt
  | string contents => IsQuotable contents.toList
  | identifier name => IsWord name.toList ∧ ∀ word : Keyword, word.spelling ≠ name
  | endOfFile => False

/-- The lexeme ends before `rest`: no longer token and no comment begins where it does. -/
def Lexeme.EndsBefore (rest : List Char) : Lexeme → Prop
  | keyword _ | identifier _ => ∀ c ∈ rest.head?, ¬ isWordCharacter c
  | integer _ => ∀ c ∈ rest.head?, ¬ isDigit c
  | symbol .slash => ∀ c ∈ rest.head?, c ≠ '/' ∧ c ≠ '*'
  | _ => True

/-- A source that goes on with `rest` behind the piece begins with the piece. -/
def Piece.Stands (rest : List Char) : Piece → Prop
  | blank c => isBlank c
  | lineComment body => (∀ c ∈ body, ¬ isLineEnd c) ∧ ∀ c ∈ rest.head?, isLineEnd c
  | blockComment body => Unclosed body
  | token lexeme => lexeme.WellFormed ∧ lexeme.EndsBefore rest

/-- Text that no piece begins with, what is behind it, and what is wrong with it. -/
inductive Refused : List Char → List Char → LexicalFault → Prop
  | unknownCharacter {c : Char} {rest : List Char} (hblank : ¬ isBlank c)
    (hword : ¬ isWordCharacter c) (hquote : c ≠ '"') (hsymbol : ∀ symbol : Symbol, symbol.char ≠ c) :
    Refused [c] rest (.unknownCharacter c)
  | unterminatedString {contents rest : List Char} (hcontents : IsQuotable contents)
    (hrest : ∀ c ∈ rest.head?, isLineEnd c) : Refused ('"' :: contents) rest .unterminatedString
  | unterminatedComment {body : List Char} (hbody : Unclosed body) :
    Refused ('/' :: '*' :: body) [] .unterminatedComment
  | integerOverflow {digits rest : List Char} (hne : digits ≠ []) (hdigits : ∀ c ∈ digits, isDigit c)
    (hvalue : maxInt < decimalValue digits) (hrest : ∀ c ∈ rest.head?, ¬ isDigit c) :
    Refused digits rest (.integerOverflow (String.ofList digits))

/-- Each piece stands before the text of those behind it and `rest`. -/
def Divides (rest : List Char) : List Piece → Prop
  | [] => True
  | piece :: pieces => piece.Stands (Piece.texts pieces ++ rest) ∧ Divides rest pieces

/-- What is met at an offset before text that no piece begins with: the end of the file, where
nothing is left, or a fault. -/
inductive Stops (offset : Nat) : List Char → Except Diagnostic Token → Prop
  | endOfFile : Stops offset [] (.ok ⟨.endOfFile, offset, 0⟩)
  | refused {text rest : List Char} {fault : LexicalFault} (h : Refused text rest fault) :
    Stops offset (text ++ rest) (.error ⟨.lexical fault, offset, byteLength text⟩)

/-- The tokens among pieces that stand at an offset and behind it. -/
def tokensAt : Nat → List Piece → List Token
  | _, [] => []
  | offset, .token lexeme :: pieces =>
    ⟨lexeme, offset, byteLength lexeme.text.toList⟩ ::
      tokensAt (offset + byteLength lexeme.text.toList) pieces
  | offset, piece :: pieces => tokensAt (offset + byteLength piece.text) pieces

/-! ## Characters -/

theorem Symbol.char_apart (symbol : Symbol) :
    ¬ isBlank symbol.char ∧ ¬ isWordCharacter symbol.char ∧ symbol.char ≠ '"' := by
  cases symbol <;> decide

theorem Keyword.isWord (word : Keyword) : IsWord word.spelling.toList := by
  cases word <;> simp [Keyword.spelling, IsWord] <;> decide

theorem isWordCharacter_of_isLetter {c : Char} (h : isLetter c) : isWordCharacter c := by
  unfold isWordCharacter
  rw [h, Bool.true_or]

theorem isWordCharacter_of_isDigit {c : Char} (h : isDigit c) : isWordCharacter c := by
  unfold isWordCharacter
  rw [h, Bool.or_true]

theorem not_isBlank_of_isWordCharacter {c : Char} (h : isWordCharacter c) : ¬ isBlank c := by
  intro hblank
  unfold isBlank at hblank
  simp only [Bool.or_eq_true, decide_eq_true_eq] at hblank
  rcases hblank with (((((rfl | rfl) | rfl) | rfl) | rfl) | rfl) | rfl
  all_goals exact absurd h (by decide)

theorem isBlank_of_isLineEnd {c : Char} (h : isLineEnd c) : isBlank c := by
  unfold isLineEnd at h
  simp only [Bool.or_eq_true, decide_eq_true_eq] at h
  rcases h with rfl | rfl <;> decide

theorem IsWord.ne_nil {text : List Char} (h : IsWord text) : text ≠ [] := by
  rintro rfl
  exact h

theorem IsWord.characters {text : List Char} (h : IsWord text) : ∀ c ∈ text, isWordCharacter c := by
  rcases text with _ | ⟨first, more⟩
  · exact h.elim
  · exact List.forall_mem_cons.mpr ⟨isWordCharacter_of_isLetter h.1, h.2⟩

/-! ## Every text divides -/

/-- A character that a run of characters stops at. -/
theorem not_of_head?_dropWhile (p : Char → Bool) (text : List Char) :
    ∀ c ∈ (text.dropWhile p).head?, ¬ p c := by
  intro c hc
  have h := List.head?_dropWhile_not p text
  rw [Option.mem_def.mp hc] at h
  simpa using h

/-- A block comment is closed for the first time somewhere, or nowhere. -/
theorem closed_or_unclosed (text : List Char) :
    (∃ body rest, text = body ++ '*' :: '/' :: rest ∧ Unclosed body) ∨ Unclosed text := by
  by_cases h : ['*', '/'] <:+: text
  · left
    induction text with
    | nil => simp at h
    | cons c text ih =>
      rcases List.infix_cons_iff.mp h with ⟨rest, hhere⟩ | hlater
      · exact ⟨[], rest, hhere.symm, by simp [Unclosed]⟩
      · by_cases hhere : ['*', '/'] <+: c :: text
        · obtain ⟨rest, hhere⟩ := hhere
          exact ⟨[], rest, hhere.symm, by simp [Unclosed]⟩
        · obtain ⟨body, rest, rfl, hbody⟩ := ih hlater
          refine ⟨c :: body, rest, rfl, fun hin => ?_⟩
          rcases List.infix_cons_iff.mp hin with hstart | hin
          · exact hhere (hstart.trans (List.prefix_append (c :: body) _))
          · exact hbody hin
  · exact .inr h

/-- A piece or refused text is the beginning of the text. -/
inductive Begins : List Char → Prop
  | piece (piece : Piece) {rest : List Char} (h : piece.Stands rest) : Begins (piece.text ++ rest)
  | refused {text rest : List Char} {fault : LexicalFault} (h : Refused text rest fault) :
    Begins (text ++ rest)

theorem Begins.token (lexeme : Lexeme) {text rest : List Char} (htext : lexeme.text.toList = text)
    (hlexeme : lexeme.WellFormed) (hrest : lexeme.EndsBefore rest) : Begins (text ++ rest) :=
  htext ▸ .piece (.token lexeme) ⟨hlexeme, hrest⟩

/-- A digit begins an integer constant or one that is too large. -/
theorem begins_digit {c : Char} (text : List Char) (hc : isDigit c) : Begins (c :: text) := by
  have hdigits : ∀ d ∈ c :: text.takeWhile isDigit, isDigit d := by
    intro d hd
    rcases List.mem_cons.mp hd with rfl | hd
    · exact hc
    · exact List.mem_takeWhile_imp hd
  have hrest := not_of_head?_dropWhile isDigit text
  rw [← List.takeWhile_append_dropWhile (p := isDigit) (l := text), ← List.cons_append]
  by_cases hvalue : decimalValue (c :: text.takeWhile isDigit) ≤ maxInt
  · refine .token (.integer (String.ofList (c :: text.takeWhile isDigit)))
      String.toList_ofList ⟨?_, ?_, ?_⟩ hrest
    all_goals rw [String.toList_ofList]
    · exact List.cons_ne_nil _ _
    · exact hdigits
    · exact hvalue
  · exact .refused (.integerOverflow (List.cons_ne_nil _ _) hdigits (by omega) hrest)

/-- A letter begins a reserved word or an identifier. -/
theorem begins_letter {c : Char} (text : List Char) (hc : isLetter c) : Begins (c :: text) := by
  have hrest := not_of_head?_dropWhile isWordCharacter text
  rw [← List.takeWhile_append_dropWhile (p := isWordCharacter) (l := text), ← List.cons_append]
  by_cases hkeyword : ∃ word : Keyword,
      word.spelling = String.ofList (c :: text.takeWhile isWordCharacter)
  · obtain ⟨word, hword⟩ := hkeyword
    refine .token (.keyword word) ?_ trivial hrest
    rw [Lexeme.text, hword, String.toList_ofList]
  · refine .token (.identifier (String.ofList (c :: text.takeWhile isWordCharacter)))
      String.toList_ofList ⟨?_, fun word hword => hkeyword ⟨word, hword⟩⟩ hrest
    rw [String.toList_ofList]
    exact ⟨hc, fun d hd => List.mem_takeWhile_imp hd⟩

/-- A quote begins a string constant or one that is not closed. -/
theorem begins_quote (text : List Char) : Begins ('"' :: text) := by
  let p : Char → Bool := fun c => c ≠ '"' && !isLineEnd c
  have hcontents : IsQuotable (text.takeWhile p) := by
    intro c hc
    simpa [p] using List.mem_takeWhile_imp hc
  have hrest := not_of_head?_dropWhile p text
  rw [← List.takeWhile_append_dropWhile (p := p) (l := text)]
  generalize text.dropWhile p = after at hrest ⊢
  rcases after with _ | ⟨d, rest⟩
  · exact .refused (.unterminatedString hcontents (by simp))
  · by_cases hd : d = '"'
    · subst hd
      have htoken : Begins ('"' :: text.takeWhile p ++ ['"'] ++ rest) :=
        .token (.string (String.ofList (text.takeWhile p))) (by simp [Lexeme.text])
          (by simpa [Lexeme.WellFormed] using hcontents) trivial
      simpa using htoken
    · refine .refused (.unterminatedString hcontents ?_)
      simpa [p, hd] using hrest

/-- A slash begins a comment, or one that is not closed, or is a symbol. -/
theorem begins_slash (text : List Char) : Begins ('/' :: text) := by
  have hsymbol (h : ∀ c ∈ text.head?, c ≠ '/' ∧ c ≠ '*') : Begins ('/' :: text) :=
    .piece (.token (.symbol .slash)) ⟨trivial, h⟩
  rcases text with _ | ⟨c, text⟩
  · exact hsymbol (by simp)
  by_cases hline : c = '/'
  · subst hline
    let p : Char → Bool := fun c => !isLineEnd c
    have hbody : ∀ c ∈ text.takeWhile p, ¬ isLineEnd c := by
      intro c hc
      simpa [p] using List.mem_takeWhile_imp hc
    have hrest : ∀ c ∈ (text.dropWhile p).head?, isLineEnd c := by
      simpa [p] using not_of_head?_dropWhile p text
    rw [← List.takeWhile_append_dropWhile (p := p) (l := text)]
    exact .piece (.lineComment _) ⟨hbody, hrest⟩
  by_cases hblock : c = '*'
  · subst hblock
    rcases closed_or_unclosed text with ⟨body, rest, rfl, hbody⟩ | hbody
    · have hcomment : Begins (Piece.text (.blockComment body) ++ rest) := .piece _ hbody
      simpa [Piece.text] using hcomment
    · simpa using Begins.refused (.unterminatedComment hbody)
  · exact hsymbol (by simp [hline, hblock])

/-- Text that is not at its end begins with a piece or is refused. -/
theorem begins (c : Char) (text : List Char) : Begins (c :: text) := by
  by_cases hblank : isBlank c
  · exact .piece (.blank c) hblank
  by_cases hdigit : isDigit c
  · exact begins_digit text hdigit
  by_cases hletter : isLetter c
  · exact begins_letter text hletter
  by_cases hquote : c = '"'
  · subst hquote
    exact begins_quote text
  by_cases hsymbol : ∃ symbol : Symbol, symbol.char = c
  · obtain ⟨symbol, rfl⟩ := hsymbol
    by_cases hslash : symbol = .slash
    · subst hslash
      exact begins_slash text
    · refine .token (.symbol symbol) (String.toList_singleton _) trivial ?_
      cases symbol <;> first | exact absurd rfl hslash | trivial
  · have hword : ¬ isWordCharacter c := by
      unfold isWordCharacter
      simp [hletter, hdigit]
    have hrefused : Refused [c] text (.unknownCharacter c) :=
      .unknownCharacter hblank hword hquote fun symbol h => hsymbol ⟨symbol, h⟩
    exact .refused hrefused

/-- What begins at a token is no blank. -/
theorem Lexeme.text_begins {lexeme : Lexeme} (h : lexeme.WellFormed) :
    ∃ c text, lexeme.text.toList = c :: text ∧ ¬ isBlank c := by
  have hword {text : List Char} (h : IsWord text) : ∃ c more, text = c :: more ∧ ¬ isBlank c := by
    obtain ⟨c, more, rfl⟩ := List.exists_cons_of_ne_nil h.ne_nil
    exact ⟨c, more, rfl, not_isBlank_of_isWordCharacter (h.characters c List.mem_cons_self)⟩
  cases lexeme with
  | keyword word => exact hword word.isWord
  | symbol symbol => exact ⟨symbol.char, [], by simp [Lexeme.text], symbol.char_apart.1⟩
  | integer digits =>
    obtain ⟨c, more, hdigits⟩ := List.exists_cons_of_ne_nil h.1
    have hc : isDigit c := h.2.1 c (by rw [hdigits]; exact List.mem_cons_self)
    exact ⟨c, more, hdigits, not_isBlank_of_isWordCharacter (isWordCharacter_of_isDigit hc)⟩
  | string contents => exact ⟨'"', contents.toList ++ ['"'], by simp [Lexeme.text], by decide⟩
  | identifier name => exact hword h.1
  | endOfFile => exact h.elim

theorem Piece.text_ne_nil {piece : Piece} {rest : List Char} (h : piece.Stands rest) :
    piece.text ≠ [] := by
  cases piece with
  | token lexeme =>
    obtain ⟨c, text, htext, -⟩ := Lexeme.text_begins h.1
    rw [Piece.text, htext]
    exact List.cons_ne_nil _ _
  | _ => exact List.cons_ne_nil _ _

/-- What is refused begins with no blank. -/
theorem Refused.begins {text rest : List Char} {fault : LexicalFault} (h : Refused text rest fault) :
    ∃ c more, text = c :: more ∧ ¬ isBlank c := by
  cases h with
  | unknownCharacter hblank => exact ⟨_, [], rfl, hblank⟩
  | unterminatedString => exact ⟨'"', _, rfl, by decide⟩
  | unterminatedComment => exact ⟨'/', _, rfl, by decide⟩
  | integerOverflow hne hdigits =>
    obtain ⟨c, more, rfl⟩ := List.exists_cons_of_ne_nil hne
    have hc : isWordCharacter c := isWordCharacter_of_isDigit (hdigits c List.mem_cons_self)
    exact ⟨c, more, rfl, not_isBlank_of_isWordCharacter hc⟩

theorem exists_division (text : List Char) (offset : Nat) :
    ∃ pieces rest stop, text = Piece.texts pieces ++ rest ∧ Divides rest pieces ∧
      Stops (offset + byteLength (Piece.texts pieces)) rest stop := by
  -- on the length of the text: what is behind a piece is shorter
  induction h : text.length using Nat.strong_induction_on generalizing text offset with
  | _ n ih =>
    subst h
    cases text with
    | nil => exact ⟨[], [], _, rfl, trivial, .endOfFile⟩
    | cons c text =>
      generalize htext : c :: text = source at *
      cases htext ▸ begins c text with
      | @piece piece rest h =>
        have hpos := List.length_pos_iff.mpr (Piece.text_ne_nil h)
        obtain ⟨pieces, left, stop, rfl, hdivides, hstops⟩ :=
          ih rest.length (by rw [List.length_append]; omega) rest (offset + byteLength piece.text)
            rfl
        refine ⟨piece :: pieces, left, stop, ?_, ⟨h, hdivides⟩, ?_⟩
        · rw [Piece.texts_cons, List.append_assoc]
        · rw [Piece.texts_cons, Text.byteLength_append, ← Nat.add_assoc]
          exact hstops
      | @refused refused rest fault h =>
        exact ⟨[], refused ++ rest, _, rfl, trivial, .refused h⟩

end JackCompiler
