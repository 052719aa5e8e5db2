import JackCompiler.Proofs.Division
/-!
# Scanning gives the longest tokens

However a source divides, the scan skips the pieces that are no tokens, reads those that are, and
stops where the pieces do (`scan_divided`). As every source divides, what is scanned is exactly
what a division says (`scan_eq_iff`).
-/

namespace JackCompiler

open Text (byteLength)

namespace Lexer

/-! ## Skipping -/

theorem skipTrivia_blank {c : Char} (rest : List Char) (offset : Nat) (h : isBlank c) :
    skipTrivia .blanks offset (c :: rest) = skipTrivia .blanks (offset + c.utf8Size) rest := by
  rw [skipTrivia.eq_def]
  simp only [h, if_true]

/-- A line comment is skipped up to the line end, which is a blank. -/
theorem skipTrivia_lineComment {body rest : List Char} (offset : Nat)
    (hbody : ∀ c ∈ body, ¬ isLineEnd c) (hrest : ∀ c ∈ rest.head?, isLineEnd c) :
    skipTrivia .lineComment offset (body ++ rest) =
      skipTrivia .blanks (offset + byteLength body) rest := by
  induction body generalizing offset with
  | nil =>
    rcases rest with _ | ⟨c, rest⟩
    · rfl
    · have hc : isLineEnd c := hrest c rfl
      have hsize : c.utf8Size = 1 := by
        simp only [isLineEnd, Bool.or_eq_true, decide_eq_true_eq] at hc
        rcases hc with rfl | rfl <;> decide
      rw [List.nil_append, skipTrivia.eq_def, skipTrivia_blank rest _ (isBlank_of_isLineEnd hc),
        hsize]
      simp only [hc, if_true]
      rfl
  | cons c body ih =>
    obtain ⟨hc, hbody⟩ := List.forall_mem_cons.mp hbody
    rw [List.cons_append, skipTrivia.eq_def]
    simp only [hc, Bool.false_eq_true, if_false]
    rw [ih _ hbody, byteLength, Nat.add_assoc]

/-- Inside a block comment a character is skipped if it does not begin the closing mark. -/
theorem skipTrivia_inComment {c : Char} {rest : List Char} (opened offset : Nat)
    (h : ¬ ['*', '/'] <+: c :: rest) :
    skipTrivia (.blockComment opened) offset (c :: rest) =
      skipTrivia (.blockComment opened) (offset + c.utf8Size) rest := by
  rw [skipTrivia.eq_def]
  dsimp only
  split
  · exact absurd (by simp) h
  · rfl

theorem skipTrivia_blockComment {body : List Char} (rest : List Char) (opened offset : Nat)
    (hbody : Unclosed body) :
    skipTrivia (.blockComment opened) offset (body ++ '*' :: '/' :: rest) =
      skipTrivia .blanks (offset + byteLength body + 2) rest := by
  induction body generalizing offset with
  | nil => rw [List.nil_append, skipTrivia.eq_def]; rfl
  | cons c body ih =>
    have hc : ¬ ['*', '/'] <+: c :: (body ++ '*' :: '/' :: rest) := by
      rintro ⟨more, hmore⟩
      rcases body with _ | ⟨d, body⟩
      · simp at hmore
      · obtain ⟨rfl, rfl, -⟩ : '*' = c ∧ '/' = d ∧ _ := by simpa using hmore
        exact hbody ⟨[], body, rfl⟩
    rw [List.cons_append, skipTrivia_inComment _ _ hc, ih _ hbody.tail, byteLength]
    congr 1
    omega

theorem skipTrivia_unclosed {body : List Char} (opened offset : Nat) (hbody : Unclosed body) :
    skipTrivia (.blockComment opened) offset body = .error (opened, offset + byteLength body) := by
  induction body generalizing offset with
  | nil => rfl
  | cons c body ih =>
    have hc : ¬ ['*', '/'] <+: c :: body := fun hmark => hbody hmark.isInfix
    rw [skipTrivia_inComment _ _ hc, ih _ hbody.tail, byteLength, Nat.add_assoc]

/-- Nothing is skipped before text that is neither blank nor a comment. -/
theorem skipTrivia_stays {c : Char} {rest : List Char} (offset : Nat) (hblank : ¬ isBlank c)
    (hcomment : c = '/' → ∀ d ∈ rest.head?, d ≠ '/' ∧ d ≠ '*') :
    skipTrivia .blanks offset (c :: rest) = .ok ⟨offset, c :: rest⟩ := by
  rw [skipTrivia.eq_def]
  simp only [hblank, Bool.false_eq_true, if_false]
  split
  · exact absurd rfl (hcomment rfl '/' rfl).1
  · exact absurd rfl (hcomment rfl '*' rfl).2
  · rfl

/-- A run of digits or letters is neither blank nor a comment. -/
theorem skipTrivia_run {run : List Char} (rest : List Char) (offset : Nat) (hne : run ≠ [])
    (hrun : ∀ c ∈ run, isWordCharacter c) :
    skipTrivia .blanks offset (run ++ rest) = .ok ⟨offset, run ++ rest⟩ := by
  rcases run with _ | ⟨c, run⟩
  · exact absurd rfl hne
  · have hc := hrun c List.mem_cons_self
    refine skipTrivia_stays offset (not_isBlank_of_isWordCharacter hc) ?_
    rintro rfl
    exact absurd hc (by decide)

/-! ## Reading -/

/-- A run of characters is taken up to what stops it. -/
theorem takeWhile_run {p : Char → Bool} {run rest : List Char} (hrun : ∀ c ∈ run, p c)
    (hrest : ∀ c ∈ rest.head?, ¬ p c) :
    (run ++ rest).takeWhile p = run ∧ (run ++ rest).dropWhile p = rest := by
  rw [List.takeWhile_append_of_pos hrun, List.dropWhile_append_of_pos hrun]
  rcases rest with _ | ⟨c, rest⟩
  · simp
  · have hc : ¬ p c := hrest c rfl
    simp [hc]

theorem ofChar?_eq_none {c : Char} (h : ∀ symbol : Symbol, symbol.char ≠ c) :
    Symbol.ofChar? c = none := by
  rw [Option.eq_none_iff_forall_ne_some]
  exact fun symbol hsymbol => h symbol (Symbol.ofChar?_eq_some.mp hsymbol)

theorem ofChar?_wordCharacter {c : Char} (h : isWordCharacter c) : Symbol.ofChar? c = none := by
  refine ofChar?_eq_none fun symbol hc => symbol.char_apart.2.1 ?_
  rwa [hc]

theorem isLetter_not_isDigit {c : Char} (h : isLetter c) : ¬ isDigit c := by
  intro hdigit
  simp only [isLetter, isDigit, Bool.or_eq_true, Bool.and_eq_true, decide_eq_true_eq, Char.le_def,
    UInt32.le_iff_toNat_le] at h hdigit
  change 48 ≤ c.val.toNat ∧ c.val.toNat ≤ 57 at hdigit
  rcases h with (h | h) | rfl
  · change 97 ≤ c.val.toNat ∧ c.val.toNat ≤ 122 at h
    omega
  · change 65 ≤ c.val.toNat ∧ c.val.toNat ≤ 90 at h
    omega
  · exact absurd hdigit (by decide)

theorem readToken_digits {digits rest : List Char} (offset : Nat) (hne : digits ≠ [])
    (hdigits : ∀ c ∈ digits, isDigit c) (hrest : ∀ c ∈ rest.head?, ¬ isDigit c) :
    readToken offset (digits ++ rest) =
      if decimalValue digits ≤ maxInt then
        accept offset (.integer (String.ofList digits)) digits rest
      else refuse offset (.integerOverflow (String.ofList digits)) digits rest := by
  rcases digits with _ | ⟨c, digits⟩
  · exact absurd rfl hne
  · obtain ⟨hc, hdigits⟩ := List.forall_mem_cons.mp hdigits
    obtain ⟨htake, hdrop⟩ := takeWhile_run hdigits hrest
    rw [List.cons_append, readToken]
    simp only [ofChar?_wordCharacter (isWordCharacter_of_isDigit hc), hc, if_true, htake, hdrop]

/-- A word is read as the reserved word it spells, or else as an identifier. -/
theorem readToken_word {word rest : List Char} (offset : Nat) (hword : IsWord word)
    (hrest : ∀ c ∈ rest.head?, ¬ isWordCharacter c) :
    (∀ keyword, Keyword.ofSpelling? (String.ofList word) = some keyword →
      readToken offset (word ++ rest) = accept offset (.keyword keyword) word rest) ∧
    (Keyword.ofSpelling? (String.ofList word) = none →
      readToken offset (word ++ rest) =
        accept offset (.identifier (String.ofList word)) word rest) := by
  rcases word with _ | ⟨c, word⟩
  · exact hword.elim
  · obtain ⟨hc, hword⟩ := hword
    obtain ⟨htake, hdrop⟩ := takeWhile_run hword hrest
    rw [List.cons_append, readToken]
    simp only [ofChar?_wordCharacter (isWordCharacter_of_isLetter hc), isLetter_not_isDigit hc, hc,
      Bool.false_eq_true, if_false, if_true, htake, hdrop]
    constructor
    · intro keyword h
      rw [h]
    · intro h
      rw [h]

/-- Behind a quote the contents are read up to a quote or a line end. -/
theorem readToken_quote {contents rest : List Char} (offset : Nat) (hcontents : IsQuotable contents)
    (hrest : ∀ c ∈ rest.head?, c = '"' ∨ isLineEnd c) :
    (∀ more, rest = '"' :: more → readToken offset ('"' :: contents ++ rest) =
      accept offset (.string (String.ofList contents)) ('"' :: contents ++ ['"']) more) ∧
    ((∀ c ∈ rest.head?, isLineEnd c) → readToken offset ('"' :: contents ++ rest) =
      refuse offset .unterminatedString ('"' :: contents) rest) := by
  have hrun : ∀ c ∈ contents, (c ≠ '"' && !isLineEnd c) = true := by
    simpa [IsQuotable] using hcontents
  have hstop : ∀ c ∈ rest.head?, ¬ (c ≠ '"' && !isLineEnd c) = true := by
    simpa [imp_iff_not_or] using hrest
  obtain ⟨htake, hdrop⟩ := takeWhile_run hrun hstop
  rw [List.cons_append, readToken]
  simp only [show Symbol.ofChar? '"' = none from rfl, show isDigit '"' = false from rfl,
    show isLetter '"' = false from rfl, Bool.false_eq_true, if_false, if_true, htake, hdrop]
  constructor
  · rintro more rfl
    rfl
  · intro hend
    split
    · exact absurd (hend '"' rfl) (by decide)
    · rfl

theorem readToken_symbol (symbol : Symbol) (rest : List Char) (offset : Nat) :
    readToken offset (symbol.char :: rest) =
      accept offset (.symbol symbol) [symbol.char] rest := by
  rw [readToken, Symbol.ofChar?_eq_some.mpr rfl]

/-- A well-formed lexeme that ends where its text does is read. -/
theorem readToken_lexeme {lexeme : Lexeme} {rest : List Char} (offset : Nat)
    (h : (Piece.token lexeme).Stands rest) :
    readToken offset (lexeme.text.toList ++ rest) =
      accept offset lexeme lexeme.text.toList rest := by
  obtain ⟨hlexeme, hrest⟩ := h
  cases lexeme with
  | keyword word =>
    have hkeyword : Keyword.ofSpelling? (String.ofList word.spelling.toList) = some word := by
      rw [String.ofList_toList, Keyword.ofSpelling?_eq_some]
    exact (readToken_word offset word.isWord hrest).1 word hkeyword
  | symbol symbol =>
    rw [Lexeme.text, String.toList_singleton]
    exact readToken_symbol symbol rest offset
  | integer digits =>
    obtain ⟨hne, hdigits, hvalue⟩ := hlexeme
    rw [Lexeme.text, readToken_digits offset hne hdigits hrest, if_pos hvalue,
      String.ofList_toList]
  | string contents =>
    have htext : (Lexeme.string contents).text.toList ++ rest =
        '"' :: contents.toList ++ '"' :: rest := by
      simp [Lexeme.text]
    rw [htext, (readToken_quote offset hlexeme (by simp)).1 rest rfl]
    simp [Lexeme.text]
  | identifier name =>
    obtain ⟨hword, hkeyword⟩ := hlexeme
    have hnone : Keyword.ofSpelling? (String.ofList name.toList) = none := by
      rw [String.ofList_toList, Option.eq_none_iff_forall_ne_some]
      exact fun word h => hkeyword word (Keyword.ofSpelling?_eq_some.mp h)
    have hread := (readToken_word offset hword hrest).2 hnone
    rwa [String.ofList_toList] at hread
  | endOfFile => exact hlexeme.elim

/-- Refused text is refused. -/
theorem readToken_refused {text rest : List Char} {fault : LexicalFault} (offset : Nat)
    (h : Refused text rest fault) (hfault : fault ≠ .unterminatedComment) :
    readToken offset (text ++ rest) = refuse offset fault text rest := by
  cases h with
  | @unknownCharacter c _ hblank hword hquote hsymbol =>
    have hletter : ¬ isLetter c := fun h => hword (isWordCharacter_of_isLetter h)
    have hdigit : ¬ isDigit c := fun h => hword (isWordCharacter_of_isDigit h)
    rw [List.cons_append, readToken, ofChar?_eq_none hsymbol]
    simp only [hdigit, hletter, hquote, Bool.false_eq_true, if_false]
    rfl
  | @unterminatedString contents _ hcontents hrest =>
    exact (readToken_quote offset hcontents fun c hc => .inr (hrest c hc)).2 hrest
  | unterminatedComment => exact absurd rfl hfault
  | integerOverflow hne hdigits hvalue hrest =>
    rw [readToken_digits offset hne hdigits hrest, if_neg (by omega)]

/-! ## Scanning -/

/-- The next token depends on what is left when blanks and comments have been skipped. -/
theorem next_congr {a b : Lexer}
    (h : skipTrivia .blanks a.offset a.rest = skipTrivia .blanks b.offset b.rest) :
    a.next = b.next := by
  unfold next
  rw [h]

theorem next_of_stays {offset : Nat} {text : List Char}
    (h : skipTrivia .blanks offset text = .ok ⟨offset, text⟩) :
    next ⟨offset, text⟩ = readToken offset text := by
  unfold next
  dsimp only
  rw [h]

/-- A piece that is no token is skipped. -/
theorem next_skip {piece : Piece} {rest : List Char} (offset : Nat) (h : piece.Stands rest)
    (htoken : ∀ lexeme, piece ≠ .token lexeme) :
    next ⟨offset, piece.text ++ rest⟩ = next ⟨offset + byteLength piece.text, rest⟩ := by
  apply next_congr
  cases piece with
  | blank c => exact skipTrivia_blank rest offset h
  | lineComment body =>
    obtain ⟨hbody, hrest⟩ := h
    change skipTrivia .lineComment (offset + 2) (body ++ rest) = _
    rw [skipTrivia_lineComment _ hbody hrest]
    congr 1
    simp only [Piece.text, byteLength, show '/'.utf8Size = 1 from rfl]
    omega
  | blockComment body =>
    have htext : Piece.text (.blockComment body) ++ rest =
        '/' :: '*' :: (body ++ '*' :: '/' :: rest) := by
      simp [Piece.text]
    dsimp only
    rw [htext]
    change skipTrivia (.blockComment offset) (offset + 2) (body ++ '*' :: '/' :: rest) = _
    rw [skipTrivia_blockComment rest _ _ h]
    congr 1
    simp only [Piece.text, byteLength, Text.byteLength_append, show '/'.utf8Size = 1 from rfl,
      show '*'.utf8Size = 1 from rfl]
    omega
  | token lexeme => exact absurd rfl (htoken lexeme)

/-- No blank and no comment is at the beginning of a token. -/
theorem skipTrivia_token {lexeme : Lexeme} {rest : List Char} (offset : Nat)
    (h : (Piece.token lexeme).Stands rest) :
    skipTrivia .blanks offset (lexeme.text.toList ++ rest) =
      .ok ⟨offset, lexeme.text.toList ++ rest⟩ := by
  obtain ⟨hlexeme, hrest⟩ := h
  cases lexeme with
  | keyword word => exact skipTrivia_run rest offset word.isWord.ne_nil word.isWord.characters
  | identifier name =>
    exact skipTrivia_run rest offset hlexeme.1.ne_nil hlexeme.1.characters
  | integer digits =>
    obtain ⟨hne, hdigits, -⟩ := hlexeme
    exact skipTrivia_run rest offset hne fun c hc => isWordCharacter_of_isDigit (hdigits c hc)
  | symbol symbol =>
    rw [Lexeme.text, String.toList_singleton]
    refine skipTrivia_stays offset symbol.char_apart.1 fun hslash => ?_
    cases symbol <;> first | exact hrest | exact absurd hslash (by decide)
  | string contents =>
    have htext : (Lexeme.string contents).text.toList ++ rest =
        '"' :: (contents.toList ++ '"' :: rest) := by
      simp [Lexeme.text]
    rw [htext]
    exact skipTrivia_stays offset (by decide) fun h => absurd h (by decide)
  | endOfFile => exact hlexeme.elim

theorem next_token {lexeme : Lexeme} {rest : List Char} (offset : Nat)
    (h : (Piece.token lexeme).Stands rest) :
    next ⟨offset, lexeme.text.toList ++ rest⟩ = accept offset lexeme lexeme.text.toList rest := by
  rw [next_of_stays (skipTrivia_token offset h), readToken_lexeme offset h]

/-- Behind a comment that is not closed nothing is left. -/
theorem next_unclosed {body : List Char} (offset : Nat) (hbody : Unclosed body) :
    next ⟨offset, '/' :: '*' :: body⟩ =
      (.error ⟨.lexical .unterminatedComment, offset, byteLength ('/' :: '*' :: body)⟩,
        ⟨offset + byteLength ('/' :: '*' :: body), []⟩) := by
  have hskip : skipTrivia .blanks offset ('/' :: '*' :: body) =
      .error (offset, offset + 2 + byteLength body) :=
    skipTrivia_unclosed offset (offset + 2) hbody
  have hlength : byteLength ('/' :: '*' :: body) = 2 + byteLength body := by
    simp only [byteLength, show '/'.utf8Size = 1 from rfl, show '*'.utf8Size = 1 from rfl]
    omega
  unfold next
  dsimp only
  rw [hskip, hlength, ← Nat.add_assoc]
  simp only [Nat.add_sub_cancel_left, Nat.add_assoc]

/-- Any other refused text is not skipped, and reading goes on from its last character. -/
theorem next_refuse {text rest : List Char} {fault : LexicalFault} (offset : Nat)
    (h : Refused text rest fault) (hfault : fault ≠ .unterminatedComment) :
    next ⟨offset, text ++ rest⟩ = refuse offset fault text rest := by
  have hstays : skipTrivia .blanks offset (text ++ rest) = .ok ⟨offset, text ++ rest⟩ := by
    cases h with
    | unknownCharacter hblank hword hquote hsymbol =>
      exact skipTrivia_stays offset hblank fun hslash => absurd hslash.symm (hsymbol .slash)
    | unterminatedString =>
      exact skipTrivia_stays offset (by decide) fun h => absurd h (by decide)
    | unterminatedComment => exact absurd rfl hfault
    | integerOverflow hne hdigits =>
      exact skipTrivia_run rest offset hne fun c hc => isWordCharacter_of_isDigit (hdigits c hc)
  rw [next_of_stays hstays, readToken_refused offset h hfault]

/-- Refused text is met with its fault, at its place. Reading goes on somewhere in it or right
behind it. -/
theorem next_refused {text rest : List Char} {fault : LexicalFault} (offset : Nat)
    (h : Refused text rest fault) :
    ∃ kept resumed, text = kept ++ resumed ∧
      next ⟨offset, text ++ rest⟩ = (.error ⟨.lexical fault, offset, byteLength text⟩,
        ⟨offset + byteLength kept, resumed ++ rest⟩) := by
  by_cases hfault : fault = .unterminatedComment
  · subst hfault
    cases h with
    | unterminatedComment hbody =>
      refine ⟨_, [], (List.append_nil _).symm, ?_⟩
      rw [List.append_nil]
      exact next_unclosed offset hbody
  · refine ⟨text.dropLast, text.drop (text.length - 1), ?_, next_refuse offset h hfault⟩
    rw [List.dropLast_eq_take, List.take_append_drop]

theorem scan_congr {a b : Lexer} (h : a.next = b.next) : a.scan = b.scan := by
  rcases hb : b.next with ⟨_ | token, after⟩
  · rw [scan_of_next_error (h.trans hb), scan_of_next_error hb]
  · by_cases ht : token.lexeme = .endOfFile
    · rw [scan_of_next_endOfFile (h.trans hb) ht, scan_of_next_endOfFile hb ht]
    · rw [scan_of_next_ok (h.trans hb) ht, scan_of_next_ok hb ht]

theorem scan_stops {offset : Nat} {rest : List Char} {stop : Except Diagnostic Token}
    (h : Stops offset rest stop) : scan ⟨offset, rest⟩ = ⟨[], stop⟩ := by
  cases h with
  | endOfFile => exact scan_of_next_endOfFile rfl rfl
  | @refused text rest fault h =>
    obtain ⟨kept, resumed, -, hnext⟩ := next_refused offset h
    exact scan_of_next_error hnext

/-- However text divides, these are its tokens, and this is what the scan stops at. -/
theorem scan_divided {pieces : List Piece} {rest : List Char} {offset : Nat}
    {stop : Except Diagnostic Token} (h : Divides rest pieces)
    (hstop : Stops (offset + byteLength (Piece.texts pieces)) rest stop) :
    scan ⟨offset, Piece.texts pieces ++ rest⟩ = ⟨tokensAt offset pieces, stop⟩ := by
  induction pieces generalizing offset with
  | nil => exact scan_stops hstop
  | cons piece pieces ih =>
    obtain ⟨hpiece, hpieces⟩ := h
    rw [Piece.texts_cons, Text.byteLength_append, ← Nat.add_assoc] at hstop
    have hscan := ih hpieces hstop
    rw [Piece.texts_cons, List.append_assoc]
    by_cases htoken : ∃ lexeme, piece = .token lexeme
    · obtain ⟨lexeme, rfl⟩ := htoken
      have hne : lexeme ≠ .endOfFile := by
        rintro rfl
        exact hpiece.1
      rw [Piece.text] at hscan ⊢
      rw [scan_of_next_ok (next_token offset hpiece) hne, hscan]
      rfl
    · have htoken : ∀ lexeme, piece ≠ .token lexeme := fun lexeme h => htoken ⟨lexeme, h⟩
      rw [scan_congr (next_skip offset hpiece htoken), hscan]
      cases piece with
      | token lexeme => exact absurd rfl (htoken lexeme)
      | _ => rfl

/-- A source divides, and its scan goes by that. -/
theorem exists_scan_division (source : String) :
    ∃ pieces rest, source.toList = Piece.texts pieces ++ rest ∧ Divides rest pieces ∧
      (ofSource source).scan.tokens = tokensAt 0 pieces ∧
      Stops (byteLength (Piece.texts pieces)) rest (ofSource source).scan.stop := by
  obtain ⟨pieces, rest, stop, hsource, hdivides, hstops⟩ := exists_division source.toList 0
  have hscan : (ofSource source).scan = ⟨tokensAt 0 pieces, stop⟩ := by
    rw [ofSource, hsource]
    exact scan_divided hdivides hstops
  rw [Nat.zero_add] at hstops
  rw [hscan]
  exact ⟨pieces, rest, hsource, hdivides, rfl, hstops⟩

end Lexer

/-- The scan of a source gives some tokens and stops at something exactly if the source divides so:
it is, with nothing left out and nothing twice, the texts of pieces one after another and then text
that no piece begins with, each piece is the longest that can stand there, the tokens are those
among the pieces, and what is met behind them is the end of the file if nothing is left, and else
the fault of the text that is refused. Nothing but the end of the source is its end, so a NUL
outside of strings and comments is refused. -/
theorem scan_eq_iff (source : String) (tokens : List Token) (stop : Except Diagnostic Token) :
    (Lexer.ofSource source).scan = ⟨tokens, stop⟩ ↔
      ∃ pieces rest, source.toList = Piece.texts pieces ++ rest ∧ Divides rest pieces ∧
        tokens = tokensAt 0 pieces ∧ Stops (byteLength (Piece.texts pieces)) rest stop := by
  constructor
  · intro h
    have hdivision := Lexer.exists_scan_division source
    rwa [h] at hdivision
  · rintro ⟨pieces, rest, hsource, hdivides, rfl, hstops⟩
    rw [Lexer.ofSource, hsource]
    exact Lexer.scan_divided hdivides (by rwa [Nat.zero_add])

end JackCompiler
