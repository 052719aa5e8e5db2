import JackCompiler.Proofs.Acceptance
import JackCompiler.Proofs.Printing
/-!
# Writing lexemes out

Every list of lexemes that can stand in a source has a source: with each of them on a line of its
own, none runs into the next (`lexes_spelled`). So sources of any size can be told by their
lexemes, such as those that declare any number of variables in one group (`crowdedGroup`).
-/

namespace JackCompiler

open Syntax

/-- A source that divides to its end is read to its end, as the tokens among its pieces. -/
theorem lexes_of_divides {source : String} {pieces : List Piece}
    (hsource : source.toList = Piece.texts pieces) (h : Divides [] pieces) :
    Lexes source ((tokensAt 0 pieces).map (·.lexeme)) := by
  have hscan : (Lexer.ofSource source).scan = ⟨tokensAt 0 pieces, .ok ⟨.endOfFile, _, 0⟩⟩ :=
    (scan_eq_iff source _ _).mpr
      ⟨pieces, [], by rw [List.append_nil, hsource], h, rfl, .endOfFile⟩
  rw [Lexes, hscan]
  exact ⟨_, rfl, rfl⟩

/-- Lexemes with a line end behind each. -/
def spelling (lexemes : List Lexeme) : List Piece :=
  lexemes.flatMap fun lexeme => [.token lexeme, .blank '\n']

/-- A source for lexemes. -/
def spelled (lexemes : List Lexeme) : String := String.ofList (Piece.texts (spelling lexemes))

theorem divides_spelling {lexemes : List Lexeme} (h : ∀ lexeme ∈ lexemes, lexeme.WellFormed) :
    Divides [] (spelling lexemes) := by
  induction lexemes with
  | nil => trivial
  | cons lexeme lexemes ih =>
    obtain ⟨hlexeme, hlexemes⟩ := List.forall_mem_cons.mp h
    have hblank : isBlank '\n' := by decide
    exact ⟨⟨hlexeme, lexeme.endsBefore_blank _ hblank⟩, hblank, ih hlexemes⟩

theorem tokensAt_spelling (lexemes : List Lexeme) (offset : Nat) :
    (tokensAt offset (spelling lexemes)).map (·.lexeme) = lexemes := by
  induction lexemes generalizing offset with
  | nil => rfl
  | cons lexeme lexemes ih => exact congrArg (lexeme :: ·) (ih _)

theorem lexes_spelled {lexemes : List Lexeme} (h : ∀ lexeme ∈ lexemes, lexeme.WellFormed) :
    Lexes (spelled lexemes) lexemes := by
  have hlex : Lexes (spelled lexemes) _ :=
    lexes_of_divides String.toList_ofList (divides_spelling h)
  rwa [tokensAt_spelling] at hlex

/-! ## Any number of names -/

def crowdedName (i : Nat) : String := "x" ++ toString i

/-- The name `x` and `count` more. -/
def crowdedNames (count : Nat) : List String := "x" :: (List.range count).map crowdedName

/-- The declaration of an integer variable `x` and `count` more. -/
def crowdedGroup (count : Nat) : VariableGroup := ⟨.int, "x", (List.range count).map crowdedName⟩

theorem crowdedName_toList (i : Nat) : (crowdedName i).toList = 'x' :: Nat.toDigits 10 i := by
  simp [crowdedName, String.toList_append, Nat.toString_eq_repr, Nat.toList_repr]

theorem crowdedName_injective : Function.Injective crowdedName := by
  intro i j h
  have hdigits := congrArg String.toList h
  rw [crowdedName_toList, crowdedName_toList] at hdigits
  exact Nat.repr_injective (congrArg String.ofList (List.cons.inj hdigits).2)

theorem crowdedName_ne (i : Nat) : crowdedName i ≠ "x" := by
  intro h
  have hdigits := congrArg String.toList h
  rw [crowdedName_toList] at hdigits
  exact Nat.toDigits_ne_nil (List.cons.inj hdigits).2

theorem crowdedNames_nodup (count : Nat) : (crowdedNames count).Nodup := by
  refine List.nodup_cons.mpr ⟨fun h => ?_, List.nodup_range.map crowdedName_injective⟩
  obtain ⟨i, -, hi⟩ := List.mem_map.mp h
  exact crowdedName_ne i hi

theorem crowdedGroup_declared (count : Nat) (storage : Storage) :
    (crowdedGroup count).declared storage =
      (crowdedNames count).map fun name => ⟨name, "int", storage⟩ := rfl

theorem crowdedGroup_names (count : Nat) (storage : Storage) :
    ((crowdedGroup count).declared storage).map (·.name) = crowdedNames count := by
  rw [crowdedGroup_declared, List.map_map, Function.comp_def, List.map_id']

theorem isDigit_of_mem_toDigits {c : Char} {n : Nat} (h : c ∈ Nat.toDigits 10 n) : isDigit c := by
  have hdigit := Nat.isDigit_of_mem_toDigits (by decide) (by decide) h
  simpa [isDigit, Char.isDigit, Char.le_def] using hdigit

theorem crowdedName_wellFormed (i : Nat) : (Lexeme.identifier (crowdedName i)).WellFormed := by
  refine ⟨?_, fun word hword => ?_⟩
  · rw [crowdedName_toList]
    exact ⟨by decide, fun c hc => isWordCharacter_of_isDigit (isDigit_of_mem_toDigits hc)⟩
  · have hhead : word.spelling.toList.head? = some 'x' := by rw [hword, crowdedName_toList]; rfl
    cases word <;> exact absurd hhead (by decide)

theorem crowdedGroup_wellFormed (count : Nat) :
    ∀ lexeme ∈ (crowdedGroup count).lexemes, lexeme.WellFormed := by
  have hfirst : (Lexeme.identifier "x").WellFormed :=
    ⟨by simp [IsWord]; decide, fun word => by cases word <;> decide⟩
  have hmore : ∀ lexeme ∈ nameTail ((List.range count).map crowdedName), lexeme.WellFormed := by
    intro lexeme h
    obtain ⟨name, hname, hlexeme⟩ := List.mem_flatMap.mp h
    obtain ⟨i, -, rfl⟩ := List.mem_map.mp hname
    simp only [List.mem_cons, List.not_mem_nil, or_false] at hlexeme
    rcases hlexeme with rfl | rfl
    · trivial
    · exact crowdedName_wellFormed i
  exact List.forall_mem_cons.mpr ⟨trivial, List.forall_mem_cons.mpr ⟨hfirst, hmore⟩⟩

end JackCompiler
