import JackCompiler.Proofs.Layout
import JackCompiler.Proofs.Renaming
import JackCompiler.Proofs.Spelling
/-!
# Renaming the identifiers of a source

With every identifier of a source replaced by another one, so that no two become one and those that
compiled code uses for itself stay, the source compiles exactly if it did before, and its code is
the code from before with the parts of its names replaced (`compile_renamed`). The rest of the
source stays as it is, and each new identifier stands where the old one did: what follows it can
neither lengthen it nor cut it short.
-/

namespace JackCompiler

open Compile

/-! ## Identifiers -/

/-- A word that is not reserved. -/
def IsIdentifier (text : String) : Prop := (Lexeme.identifier text).WellFormed

instance : DecidablePred IsWord
  | [] => inferInstanceAs (Decidable False)
  | first :: more => inferInstanceAs (Decidable (isLetter first ∧ ∀ c ∈ more, isWordCharacter c))

theorem isIdentifier_iff (text : String) :
    IsIdentifier text ↔ IsWord text.toList ∧ Keyword.ofSpelling? text = none := by
  refine and_congr_right fun _ => ?_
  rw [Option.eq_none_iff_forall_ne_some]
  exact forall_congr' fun word => not_congr Keyword.ofSpelling?_eq_some.symm

instance : DecidablePred IsIdentifier := fun text => decidable_of_iff' _ (isIdentifier_iff text)

structure Identifier where
  text : String
  valid : IsIdentifier text
  deriving DecidableEq

theorem Identifier.text_injective : Function.Injective Identifier.text := by
  rintro ⟨a, ha⟩ ⟨b, hb⟩ h
  cases h
  rfl

/-- There is no dot in a word. -/
theorem dot_not_mem {text : List Char} (h : IsWord text) : '.' ∉ text :=
  fun hdot => absurd (h.characters '.' hdot) (by decide)

/-! ## Replacing identifiers in names -/

section

variable (r : Identifier → Identifier)

/-- Replaces a text that is an identifier. -/
def replaceWord (text : String) : String :=
  if h : IsIdentifier text then (r ⟨text, h⟩).text else text

/-- Replaces each part of a name between its dots. -/
def replaceName (name : String) : String :=
  String.ofList (['.'].intercalate
    ((name.toList.splitOn '.').map fun part => (replaceWord r (String.ofList part)).toList))

end

section

variable {r : Identifier → Identifier}

theorem replaceWord_identifier (a : Identifier) : replaceWord r a.text = (r a).text := by
  unfold replaceWord
  rw [dif_pos a.valid]

theorem replaceWord_other {text : String} (h : ¬ IsIdentifier text) : replaceWord r text = text := by
  unfold replaceWord
  rw [dif_neg h]

theorem dot_not_mem_replaceWord {text : String} (h : '.' ∉ text.toList) :
    '.' ∉ (replaceWord r text).toList := by
  by_cases hword : IsIdentifier text
  · rw [replaceWord_identifier ⟨text, hword⟩]
    exact dot_not_mem (r ⟨text, hword⟩).valid.1
  · rwa [replaceWord_other hword]

theorem replaceWord_injective (hr : Function.Injective r) : Function.Injective (replaceWord r) := by
  intro a b h
  by_cases ha : IsIdentifier a <;> by_cases hb : IsIdentifier b
  · rw [replaceWord_identifier ⟨a, ha⟩, replaceWord_identifier ⟨b, hb⟩] at h
    exact congrArg Identifier.text (hr (Identifier.text_injective h))
  · rw [replaceWord_identifier ⟨a, ha⟩, replaceWord_other hb] at h
    exact absurd (h ▸ (r ⟨a, ha⟩).valid) hb
  · rw [replaceWord_other ha, replaceWord_identifier ⟨b, hb⟩] at h
    exact absurd (h ▸ (r ⟨b, hb⟩).valid) ha
  · rwa [replaceWord_other ha, replaceWord_other hb] at h

/-- A text without dots is one part. -/
theorem replaceName_of_not_mem {text : String} (h : '.' ∉ text.toList) :
    replaceName r text = replaceWord r text := by
  unfold replaceName
  rw [List.splitOn_eq_singleton h, List.map_singleton, List.intercalate_singleton,
    String.ofList_toList, String.ofList_toList]

theorem intercalate_append (separator : Char) {as bs : List (List Char)} (ha : as ≠ [])
    (hb : bs ≠ []) : [separator].intercalate (as ++ bs) =
      [separator].intercalate as ++ separator :: [separator].intercalate bs := by
  induction as with
  | nil => exact absurd rfl ha
  | cons a as ih =>
    rcases as with _ | ⟨a', as⟩
    · rw [List.singleton_append, List.intercalate_cons_of_ne_nil hb, List.intercalate_singleton,
        List.append_assoc, List.singleton_append]
    · rw [List.cons_append, List.intercalate_cons_of_ne_nil (List.append_ne_nil_of_right_ne_nil _ hb),
        ih (List.cons_ne_nil _ _), List.intercalate_cons_of_ne_nil (List.cons_ne_nil _ _)]
      simp only [List.append_assoc]

theorem replaceName_dotted (a b : String) :
    replaceName r (a ++ "." ++ b) = replaceName r a ++ "." ++ replaceName r b := by
  have hsplit : (a ++ "." ++ b).toList.splitOn '.' =
      a.toList.splitOn '.' ++ b.toList.splitOn '.' := by
    have htext : (a ++ "." ++ b).toList = a.toList ++ '.' :: b.toList := by
      simp [String.toList_append]
    rw [htext, List.splitOn_append_cons_self]
  unfold replaceName
  rw [hsplit, List.map_append, intercalate_append _ (by simp) (by simp)]
  apply String.toList_inj.mp
  simp [String.toList_append]

theorem not_mem_of_mem_splitOn (separator : Char) (text : List Char) :
    ∀ part ∈ text.splitOn separator, separator ∉ part := by
  induction text with
  | nil => simp
  | cons c text ih =>
    rw [List.splitOn_cons_eq_if_modifyHead]
    split
    · exact List.forall_mem_cons.mpr ⟨List.not_mem_nil, ih⟩
    · rename_i hc
      obtain ⟨first, more, hparts⟩ := List.exists_cons_of_ne_nil (List.splitOn_ne_nil separator text)
      rw [hparts] at ih ⊢
      obtain ⟨hfirst, hmore⟩ := List.forall_mem_cons.mp ih
      refine List.forall_mem_cons.mpr ⟨fun hmem => ?_, hmore⟩
      rcases List.mem_cons.mp hmem with rfl | hmem
      · simp at hc
      · exact hfirst hmem

theorem replaceName_injective (hr : Function.Injective r) : Function.Injective (replaceName r) := by
  intro a b h
  have hparts (name : String) : ∀ part ∈ (name.toList.splitOn '.').map
      (fun part => (replaceWord r (String.ofList part)).toList), '.' ∉ part := by
    intro part hpart
    obtain ⟨old, hold, rfl⟩ := List.mem_map.mp hpart
    apply dot_not_mem_replaceWord
    rw [String.toList_ofList]
    exact not_mem_of_mem_splitOn '.' _ old hold
  have hsplit (name : String) : (replaceName r name).toList.splitOn '.' =
      (name.toList.splitOn '.').map fun part => (replaceWord r (String.ofList part)).toList := by
    unfold replaceName
    rw [String.toList_ofList, List.splitOn_intercalate _ (hparts name) (by simp)]
  have hmap := (hsplit a).symm.trans
    ((congrArg (fun name => name.toList.splitOn '.') h).trans (hsplit b))
  have hinjective : Function.Injective fun part : List Char =>
      (replaceWord r (String.ofList part)).toList := by
    intro part part' h
    exact String.ofList_injective (replaceWord_injective hr (String.toList_inj.mp h))
  have hold := hinjective.list_map hmap
  have hjoin (name : String) : ['.'].intercalate (name.toList.splitOn '.') = name.toList :=
    List.intercalate_splitOn '.'
  rw [← String.toList_inj, ← hjoin a, hold, hjoin]

theorem replaceName_identifier (a : Identifier) : replaceName r a.text = (r a).text := by
  rw [replaceName_of_not_mem (dot_not_mem a.valid.1), replaceWord_identifier]

/-- What is no identifier and has no dot stays. -/
theorem replaceName_other {text : String} (hdot : '.' ∉ text.toList) (h : ¬ IsIdentifier text) :
    replaceName r text = text := by
  rw [replaceName_of_not_mem hdot, replaceWord_other h]

/-- The words that compiled code uses for itself. -/
def systemWords : List String :=
  ["Memory", "alloc", "Math", "multiply", "divide", "String", "new", "appendChar"]

/-- A run goes along with the replacement of identifiers. -/
theorem renames_replaceName (hr : Function.Injective r)
    (hsystem : ∀ a : Identifier, a.text ∈ systemWords → r a = a) : Renames (replaceName r) where
  injective := replaceName_injective hr
  dotted := replaceName_dotted
  keyword word := by
    refine replaceName_other (dot_not_mem word.isWord) fun h => ?_
    exact h.2 word rfl
  empty := replaceName_other (by decide) fun h => h.1
  system := by
    have hword (word : String) (hmem : word ∈ systemWords) (hdot : '.' ∉ word.toList) :
        replaceName r word = word := by
      by_cases h : IsIdentifier word
      · rw [replaceName_identifier ⟨word, h⟩, hsystem ⟨word, h⟩ hmem]
      · exact replaceName_other hdot h
    have hcallee (a b : String) (ha : a ∈ systemWords ∧ '.' ∉ a.toList)
        (hb : b ∈ systemWords ∧ '.' ∉ b.toList) :
        replaceName r (a ++ "." ++ b) = a ++ "." ++ b := by
      rw [replaceName_dotted, hword a ha.1 ha.2, hword b hb.1 hb.2]
    simp only [systemCallees, List.forall_mem_cons]
    refine ⟨?_, ?_, ?_, ?_, ?_, List.forall_mem_nil _⟩
    · exact hcallee "Memory" "alloc" (by decide) (by decide)
    · exact hcallee "Math" "multiply" (by decide) (by decide)
    · exact hcallee "Math" "divide" (by decide) (by decide)
    · exact hcallee "String" "new" (by decide) (by decide)
    · exact hcallee "String" "appendChar" (by decide) (by decide)

end

/-! ## Replacing identifiers in a source -/

/-- Replaces an identifier; what is none stays as it is. -/
def Piece.rename (r : Identifier → Identifier) : Piece → Piece
  | token lexeme => token (lexeme.rename (replaceName r))
  | piece => piece

/-- The source is the other one with each identifier replaced. -/
def SourceRenamed (r : Identifier → Identifier) (source source' : String) : Prop :=
  ∃ pieces, source.toList = Piece.texts pieces ∧ Divides [] pieces ∧
    source'.toList = Piece.texts (pieces.map (·.rename r))

section

variable {r : Identifier → Identifier}

theorem wellFormed_rename {lexeme : Lexeme} (h : lexeme.WellFormed) :
    (lexeme.rename (replaceName r)).WellFormed := by
  cases lexeme with
  | identifier name =>
    rw [Lexeme.rename, replaceName_identifier ⟨name, h⟩]
    exact (r ⟨name, h⟩).valid
  | keyword | symbol | integer | string | endOfFile => exact h

/-- Where an identifier stood one stands, so what follows a piece begins as it did, or with a letter
both times. -/
theorem head?_rename {pieces : List Piece} (hpieces : Divides [] pieces) {P : Char → Prop}
    (hP : ∀ c c', isLetter c → isLetter c' → P c → P c')
    (h : ∀ c ∈ (Piece.texts pieces).head?, P c) :
    ∀ c ∈ (Piece.texts (pieces.map (·.rename r))).head?, P c := by
  rcases pieces with _ | ⟨piece, pieces⟩
  · exact h
  obtain ⟨hpiece, -⟩ := hpieces
  rw [Piece.texts_cons] at h
  rw [List.map_cons, Piece.texts_cons]
  have hsame (hrename : piece.rename r = piece) :
      ∀ c ∈ ((piece.rename r).text ++ Piece.texts (pieces.map (·.rename r))).head?, P c := by
    rw [hrename]
    rw [List.head?_append_of_ne_nil _ (Piece.text_ne_nil hpiece)] at h ⊢
    exact h
  cases piece with
  | token lexeme =>
    cases lexeme with
    | identifier name =>
      have hletter {text : List Char} (more : List Char) (hword : IsWord text) :
          ∃ c, (text ++ more).head? = some c ∧ isLetter c := by
        rcases text with _ | ⟨c, text⟩
        · exact hword.elim
        · exact ⟨c, rfl, hword.1⟩
      obtain ⟨c, hc, hcletter⟩ := hletter (Piece.texts pieces) hpiece.1.1
      obtain ⟨d, hd, hdletter⟩ := hletter (Piece.texts (pieces.map (·.rename r)))
        (wellFormed_rename (r := r) hpiece.1).1
      intro e he
      rw [Piece.rename, Piece.text, Lexeme.rename, Lexeme.text, hd] at he
      cases he
      exact hP c d hcletter hdletter (h c hc)
    | keyword | symbol | integer | string | endOfFile => exact hsame rfl
  | blank | lineComment | blockComment => exact hsame rfl

/-- No letter begins what a lexeme ends before if something else does. -/
theorem endsBefore_rename {pieces : List Piece} (hpieces : Divides [] pieces) {lexeme : Lexeme}
    (h : lexeme.EndsBefore (Piece.texts pieces)) :
    (lexeme.rename (replaceName r)).EndsBefore (Piece.texts (pieces.map (·.rename r))) := by
  cases lexeme with
  | keyword | identifier =>
    refine head?_rename (P := fun c => ¬ isWordCharacter c) hpieces (fun c c' hc _ hend => ?_) h
    exact absurd (isWordCharacter_of_isLetter hc) hend
  | integer =>
    refine head?_rename (P := fun c => ¬ isDigit c) hpieces (fun c c' _ hc' _ => ?_) h
    exact Lexer.isLetter_not_isDigit hc'
  | symbol symbol =>
    cases symbol with
    | slash =>
      refine head?_rename (P := fun c => c ≠ '/' ∧ c ≠ '*') hpieces (fun c c' _ hc' _ => ?_) h
      constructor <;> rintro rfl <;> exact absurd hc' (by decide)
    | _ => trivial
  | string | endOfFile => trivial

theorem divides_rename {pieces : List Piece} (h : Divides [] pieces) :
    Divides [] (pieces.map (·.rename r)) := by
  induction pieces with
  | nil => trivial
  | cons piece pieces ih =>
    obtain ⟨hpiece, hpieces⟩ := h
    refine ⟨?_, ih hpieces⟩
    rw [List.append_nil] at hpiece ⊢
    cases piece with
    | blank | blockComment => exact hpiece
    | lineComment body =>
      refine ⟨hpiece.1, head?_rename (P := fun c => isLineEnd c) hpieces (fun c c' hc _ hend => ?_)
        hpiece.2⟩
      exact absurd (isBlank_of_isLineEnd hend)
        (not_isBlank_of_isWordCharacter (isWordCharacter_of_isLetter hc))
    | token lexeme => exact ⟨wellFormed_rename hpiece.1, endsBefore_rename hpieces hpiece.2⟩

theorem tokensAt_rename (offset offset' : Nat) (pieces : List Piece) :
    (tokensAt offset' (pieces.map (·.rename r))).map (·.lexeme) =
      ((tokensAt offset pieces).map (·.lexeme)).map (·.rename (replaceName r)) := by
  induction pieces generalizing offset offset' with
  | nil => rfl
  | cons piece pieces ih =>
    cases piece with
    | token lexeme =>
      simp only [List.map_cons, Piece.rename, tokensAt]
      exact congrArg _ (ih _ _)
    | blank | lineComment | blockComment => exact ih _ _

theorem lexes_rename {source source' : String} {lexemes : List Lexeme}
    (h : SourceRenamed r source source') (hlex : Lexes source lexemes) :
    Lexes source' (lexemes.map (·.rename (replaceName r))) := by
  obtain ⟨pieces, hsource, hdivides, hsource'⟩ := h
  rw [hlex.unique (lexes_of_divides hsource hdivides), ← tokensAt_rename 0 0]
  exact lexes_of_divides hsource' (divides_rename hdivides)

/-- The identifiers of a source that is read to its end can be replaced. -/
theorem exists_sourceRenamed {source : String} {eof : Token}
    (hstop : (Lexer.ofSource source).scan.stop = .ok eof) :
    ∃ source', SourceRenamed r source source' := by
  obtain ⟨pieces, rest, hsource, hdivides, -, hstops⟩ := Lexer.exists_scan_division source
  rw [hstop] at hstops
  cases hstops
  rw [List.append_nil] at hsource
  exact ⟨String.ofList (Piece.texts (pieces.map (·.rename r))), pieces, hsource, hdivides,
    String.toList_ofList⟩

end

/-! ## Compiling -/

/-- Replaces the names of a class and its code. -/
def CompiledClass.rename (f : String → String) (compiled : CompiledClass) : CompiledClass :=
  ⟨f compiled.name, compiled.program.map (·.rename f)⟩

namespace Compile

variable {f : String → String}

theorem numbered_rename (lexemes : List Lexeme) :
    (numbered lexemes).map (·.rename f) = numbered (lexemes.map (·.rename f)) := by
  apply List.ext_getElem
  · simp [numbered]
  · intro i hi hi'
    simp [numbered, Token.rename]

theorem commands_rename (events : List Event) :
    (events.map (·.rename f)).filterMap (·.command?) =
      (events.filterMap (·.command?)).map (·.rename f) := by
  rw [List.filterMap_map, List.map_filterMap]
  congr 1
  funext event
  cases event <;> rfl

/-- The run over the lexemes of a source tells what it compiles to. -/
theorem compile_eq_ok_numbered {source : String} {lexemes : List Lexeme} (h : Lexes source lexemes)
    {compiled : CompiledClass} :
    compile source = .ok compiled ↔ ∃ done state,
      run (.ok ⟨.endOfFile, lexemes.length, 0⟩) [] (numbered lexemes) program {} =
        (done, .ok state) ∧
      compiled = ⟨state.className, done.reverse.filterMap (·.command?)⟩ := by
  obtain ⟨eof, hstop, rfl⟩ := h
  rw [compile_eq_ok, hstop, run_numbered _ (Lexer.scan_stop_ok hstop), List.length_map]
  simp only [Result.mapSpan_eq_ok]

end Compile

/-- Sources whose lexemes differ in their names only compile alike. -/
theorem compile_rename {f : String → String} (hf : Renames f) {source source' : String}
    {lexemes : List Lexeme} (h : Lexes source lexemes)
    (h' : Lexes source' (lexemes.map (·.rename f))) :
    (∃ compiled, compile source = .ok compiled ∧ compile source' = .ok (compiled.rename f)) ∨
      (∀ compiled, compile source ≠ .ok compiled) ∧ ∀ compiled, compile source' ≠ .ok compiled := by
  have hrun := run_rename hf (.ok ⟨.endOfFile, lexemes.length, 0⟩) [] (numbered lexemes) program {}
  have hgoals : program.map (·.rename f) = program := rfl
  have hstate : ({} : State).rename f = {} := by
    rw [State.rename, hf.empty]
    rfl
  rw [numbered_rename, hgoals, hstate] at hrun
  have hstop : (.ok ⟨.endOfFile, lexemes.length, 0⟩ : Except Diagnostic Token).map (·.rename f) =
      .ok ⟨.endOfFile, (lexemes.map (·.rename f)).length, 0⟩ := by
    rw [List.length_map]
    rfl
  rw [hstop, List.map_nil] at hrun
  simp only [ne_eq, compile_eq_ok_numbered h, compile_eq_ok_numbered h']
  generalize run _ [] (numbered lexemes) program {} = result at hrun ⊢
  generalize run _ [] (numbered (lexemes.map _)) program {} = result' at hrun ⊢
  cases hrun with
  | ended done state =>
    refine .inl ⟨_, ⟨done, state, rfl, rfl⟩, done.map (·.rename f), state.rename f, rfl, ?_⟩
    rw [CompiledClass.rename, ← List.map_reverse, commands_rename]
    rfl
  | failed done done' diagnostic diagnostic' => simp

def counterName : Identifier where
  text := "Counter"
  valid := ⟨by simp [IsWord]; decide, fun word => by cases word <;> decide⟩

def meterName : Identifier where
  text := "Meter"
  valid := ⟨by simp [IsWord]; decide, fun word => by cases word <;> decide⟩

def upToName : Identifier where
  text := "upTo"
  valid := ⟨by simp [IsWord]; decide, fun word => by cases word <;> decide⟩

def asMeter : Equiv.Perm Identifier := Equiv.swap counterName meterName

end JackCompiler
