import JackCompiler.Proofs.Cursor
import JackCompiler.Proofs.Recovery
/-!
# Looking ahead again

A token that has been seen stays to come, but an error is not kept: the next call reads on from the
last character of what was refused, or behind a comment that is not closed. So looking ahead twice
gives the same exactly at a token and at an error that refuses one character
(`lookahead_repeats`). Behind any other error something else is found, further on: of a constant
that is too large its last digit is a token, and behind a comment that is not closed is the end of
the file.
-/

namespace JackCompiler

open Text (byteLength)

/-- Reading on meets an error again if it refuses one character only. -/
def Diagnostic.Recurs (diagnostic : Diagnostic) : Prop :=
  match diagnostic.fault with
  | .lexical (.unknownCharacter _) => True
  | .lexical .unterminatedString => diagnostic.span.size = 1
  | _ => False

theorem Text.byteLength_pos {text : List Char} (h : text ≠ []) : 0 < byteLength text := by
  obtain ⟨c, text, rfl⟩ := List.exists_cons_of_ne_nil h
  obtain ⟨n, hn, -, -⟩ := byteLength_cons c text
  omega

/-! ## Where reading goes on -/

namespace Lexer

variable {offset : Nat} {text rest : List Char} {fault : LexicalFault} {lexer after : Lexer}
  {diagnostic : Diagnostic}

/-- An error is that of some text ahead, and the lexer might as well be right before it. -/
theorem exists_refused (h : lexer.next.1 = .error diagnostic) :
    ∃ offset text rest fault, Refused text rest fault ∧
      diagnostic = ⟨.lexical fault, offset, byteLength text⟩ ∧
      lexer.next = next ⟨offset, text ++ rest⟩ := by
  obtain ⟨offset, text⟩ := lexer
  induction hlength : text.length using Nat.strong_induction_on generalizing text offset with
  | _ n ih =>
    subst hlength
    cases text with
    | nil => cases h
    | cons c text =>
      generalize htext : c :: text = text at *
      cases htext ▸ begins c _ with
      | @piece piece rest hstands =>
        by_cases htoken : ∃ lexeme, piece = .token lexeme
        · obtain ⟨lexeme, rfl⟩ := htoken
          rw [Piece.text, next_token offset hstands] at h
          cases h
        · have htoken : ∀ lexeme, piece ≠ .token lexeme := fun lexeme h => htoken ⟨lexeme, h⟩
          have hpos := List.length_pos_iff.mpr (Piece.text_ne_nil hstands)
          rw [next_skip offset hstands htoken] at h ⊢
          refine ih rest.length ?_ _ rest h rfl
          rw [List.length_append]
          omega
      | @refused text rest fault hrefused =>
        refine ⟨offset, text, rest, fault, hrefused, ?_, rfl⟩
        obtain ⟨kept, resumed, -, hnext⟩ := next_refused offset hrefused
        rw [hnext] at h
        exact (Except.error.inj h).symm

theorem utf8Size_digit {c : Char} (hc : isDigit c) : c.utf8Size = 1 := by
  rw [isDigit, Bool.and_eq_true, decide_eq_true_eq, decide_eq_true_eq] at hc
  have hnine : c.val ≤ 57 := hc.2
  exact Char.utf8Size_eq_one_iff.mpr (UInt32.le_trans hnine (by decide))

/-- A digit alone is not too large. -/
theorem not_overflow_singleton {c : Char} (hc : isDigit c) : ¬ maxInt < decimalValue [c] := by
  rw [isDigit, Bool.and_eq_true, decide_eq_true_eq, decide_eq_true_eq] at hc
  have hnine : c.toNat ≤ 57 := hc.2
  have hvalue : decimalValue [c] = c.toNat - 48 := by
    show 10 * 0 + (c.toNat - 48) = c.toNat - 48
    omega
  rw [hvalue, maxInt]
  omega

/-- An error that recurs leaves the lexer where it is met. -/
theorem next_recurs (h : Refused text rest fault)
    (hrecurs : Diagnostic.Recurs ⟨.lexical fault, offset, byteLength text⟩) :
    next ⟨offset, text ++ rest⟩ =
      (.error ⟨.lexical fault, offset, byteLength text⟩, ⟨offset, text ++ rest⟩) := by
  have hsingle : fault ≠ .unterminatedComment ∧ ∃ c, text = [c] := by
    cases h with
    | unknownCharacter => exact ⟨by simp, _, rfl⟩
    | @unterminatedString contents =>
      have hsize : 1 + byteLength contents = 1 := hrecurs
      have hcontents : contents = [] := by
        by_contra hne
        have hpos := Text.byteLength_pos hne
        omega
      exact ⟨by simp, '"', by rw [hcontents]⟩
    | unterminatedComment | integerOverflow => exact hrecurs.elim
  obtain ⟨hfault, c, rfl⟩ := hsingle
  exact next_refuse offset h hfault

/-- Any other error leaves the lexer further on. -/
theorem next_passes (h : Refused text rest fault)
    (hrecurs : ¬ Diagnostic.Recurs ⟨.lexical fault, offset, byteLength text⟩) :
    offset < (next ⟨offset, text ++ rest⟩).2.offset := by
  have hrefuse (hfault : fault ≠ .unterminatedComment) (hlast : text.dropLast ≠ []) :
      offset < (next ⟨offset, text ++ rest⟩).2.offset := by
    rw [next_refuse offset h hfault]
    exact Nat.lt_add_of_pos_right (Text.byteLength_pos hlast)
  cases h with
  | unknownCharacter => exact absurd trivial hrecurs
  | @unterminatedString contents =>
    refine hrefuse (by simp) fun hlast => hrecurs ?_
    cases contents with
    | nil => rfl
    | cons => cases hlast
  | unterminatedComment hbody =>
    rw [List.append_nil, next_unclosed offset hbody]
    exact Nat.lt_add_of_pos_right (Text.byteLength_pos (List.cons_ne_nil _ _))
  | integerOverflow hne hdigits hvalue =>
    refine hrefuse (by simp) fun hlast => ?_
    obtain ⟨c, rfl⟩ : ∃ c, text = [c] := by
      have hlength := congrArg List.length hlast
      rw [List.length_dropLast, List.length_nil] at hlength
      have hpos := List.length_pos_iff.mpr hne
      exact List.length_eq_one_iff.mp (by omega)
    exact not_overflow_singleton (hdigits c List.mem_cons_self) hvalue

/-- Of a constant that is too large the last digit is read as a token. -/
theorem next_overflow (offset : Nat) {digits : List Char}
    (h : Refused digits rest (.integerOverflow (String.ofList digits))) :
    ∃ digit, digits.getLast? = some digit ∧
      (next (next ⟨offset, digits ++ rest⟩).2).1 =
        .ok ⟨.integer (String.singleton digit), offset + byteLength digits - 1, 1⟩ := by
  rw [next_refuse offset h (by simp)]
  generalize hfault : LexicalFault.integerOverflow (String.ofList digits) = fault at h
  cases h with
  | integerOverflow hne hdigits hvalue hrest =>
    obtain ⟨init, digit, rfl⟩ := (List.eq_nil_or_concat' digits).resolve_left hne
    have hdigit : isDigit digit := hdigits digit (by simp)
    have hsize := utf8Size_digit hdigit
    have hstands : (Piece.token (.integer (String.singleton digit))).Stands rest := by
      have hsmall := Nat.le_of_not_lt (not_overflow_singleton hdigit)
      exact ⟨⟨by simp, by simpa using hdigit, by simpa using hsmall⟩, hrest⟩
    have hread := next_token (offset + byteLength init) hstands
    have hplace : byteLength (init ++ [digit]) - 1 = byteLength init := by
      simp [byteLength, hsize]
    have hresume : (init ++ [digit]).drop ((init ++ [digit]).length - 1) = [digit] := by simp
    refine ⟨digit, by simp, ?_⟩
    rw [refuse, hresume, List.dropLast_concat, Nat.add_sub_assoc (by simp [byteLength, hsize]),
      hplace]
    rw [Lexeme.text, String.toList_singleton] at hread
    rw [hread, accept]
    simp [byteLength, hsize]
  | _ => cases hfault

end Lexer

namespace TokenStream

variable {stream : TokenStream} {token : Token} {diagnostic : Diagnostic}

/-! ## Calls that look ahead -/

/-- A call that looks ahead and takes nothing. -/
inductive Look
  | hasNext | peek | peekKind
  deriving DecidableEq, Repr

def Look.call : Look → Call
  | hasNext => .hasNext
  | peek => .peek
  | peekKind => .peekKind

/-- What is told of the token that is seen. -/
def Look.told : Look → Token → Reply
  | hasNext, token => .truth (token.lexeme ≠ .endOfFile)
  | peek, token => .token token
  | peekKind, token => .kind token.kind

/-- The call asks for the token to come. The others are about the token given last. -/
def Call.Asks : Call → Prop
  | current | read _ => False
  | _ => True

/-- What is ahead is found there again: a token, or an error that recurs. -/
def Steady : Except Diagnostic Token → Prop
  | .ok _ => True
  | .error diagnostic => diagnostic.Recurs

theorem call_look (h : stream.peek.1 = .ok token) (look : Look) :
    stream.call look.call = (look.told token, stream.peek.2) := by
  have hpeek : stream.peek = (.ok token, stream.peek.2) := Prod.ext h rfl
  cases look with
  | peek =>
    rw [Look.call, call, hpeek]
    rfl
  | hasNext =>
    rw [Look.call, call, hasNext, withPeek, hpeek]
    rfl
  | peekKind =>
    rw [Look.call, call, peekKind, withPeek, hpeek]
    rfl

/-- Where an error is ahead every call that asks for a token reports it. -/
theorem call_error (h : stream.peek.1 = .error diagnostic) {call : Call} (hasks : call.Asks) :
    stream.call call = (.failed diagnostic, stream.peek.2) := by
  have hpeek : stream.peek = (.error diagnostic, stream.peek.2) := Prod.ext h rfl
  have hlook {α : Type} (tell : α → Reply)
      (next : Token → TokenStream → Except Diagnostic α × TokenStream) :
      reply tell (stream.withPeek next) = (.failed diagnostic, stream.peek.2) := by
    rw [withPeek, hpeek]
    rfl
  cases call
  case current | read => exact hasks.elim
  case peek =>
    rw [TokenStream.call, hpeek]
    rfl
  all_goals exact hlook _ _

theorem Look.asks (look : Look) : look.call.Asks := by
  cases look <;> exact trivial

theorem Look.told_ne_failed (look : Look) (token : Token) (diagnostic : Diagnostic) :
    look.told token ≠ .failed diagnostic := by
  cases look <;> simp [Look.told]

/-! ## The stream behind a peek -/

/-- A token that has been seen stays to come. -/
theorem peek_token (h : stream.peek.1 = .ok token) :
    stream.peek.2.peek = (.ok token, stream.peek.2) := by
  have hpeeked : stream.peek.2.peeked = some token :=
    ((peek_spec stream).2 token h).peeked
  rw [peek, hpeeked]

/-- Only reading on can fail, and the stream is left with the lexer as it is then. -/
theorem peek_refused (h : stream.peek.1 = .error diagnostic) :
    stream.lexer.next.1 = .error diagnostic ∧
      stream.peek.2 = { stream with lexer := stream.lexer.next.2, peeked := none } := by
  obtain ⟨lexer, current, peeked⟩ := stream
  cases peeked with
  | some token => cases h
  | none =>
    unfold peek at h ⊢
    dsimp only at h ⊢
    rcases hnext : lexer.next with ⟨_ | token, after⟩
    · rw [hnext] at h
      cases h
      exact ⟨rfl, rfl⟩
    · rw [hnext] at h
      cases h

/-- Before an error that recurs a stream stands as before: it is met again and again. -/
structure Blocked (stream : TokenStream) (diagnostic : Diagnostic) : Prop where
  ahead : stream.peek.1 = .error diagnostic
  again : stream.peek.2.peek = (.error diagnostic, stream.peek.2)

theorem peek_of_next {lexer after : Lexer} (h : lexer.next = (.error diagnostic, after))
    (current : Option Token) :
    peek ⟨lexer, current, none⟩ = (.error diagnostic, ⟨after, current, none⟩) := by
  unfold peek
  dsimp only
  rw [h]

theorem blocked_of_recurs (h : stream.peek.1 = .error diagnostic) (hrecurs : diagnostic.Recurs) :
    stream.Blocked diagnostic := by
  obtain ⟨hnext, hafter⟩ := peek_refused h
  obtain ⟨offset, text, rest, fault, hrefused, rfl, hat⟩ := Lexer.exists_refused hnext
  have hstays := Lexer.next_recurs hrefused hrecurs
  refine ⟨h, ?_⟩
  rw [hafter, hat, hstays]
  exact peek_of_next hstays _

/-- Whatever is called, the stream stays before the error. -/
theorem Blocked.call (h : stream.Blocked diagnostic) (call : Call) :
    (call.Asks → (stream.call call).1 = .failed diagnostic) ∧
      (stream.call call).2.Blocked diagnostic := by
  have hpeek : stream.peek.2.Blocked diagnostic := by
    have hagain := h.again
    exact ⟨by rw [hagain], by rw [hagain]; exact hagain⟩
  have hasked (hasks : call.Asks) : (call.Asks → (stream.call call).1 = .failed diagnostic) ∧
      (stream.call call).2.Blocked diagnostic := by
    rw [call_error h.ahead hasks]
    exact ⟨fun _ => rfl, hpeek⟩
  cases call
  case current | read => exact ⟨False.elim, h⟩
  all_goals exact hasked trivial

theorem Blocked.replies (h : stream.Blocked diagnostic) (calls : List Call) :
    List.Forall₂ (fun call reply => call.Asks → reply = .failed diagnostic)
      calls (stream.replies calls) := by
  induction calls generalizing stream with
  | nil => exact .nil
  | cons call calls ih =>
    obtain ⟨hreply, hafter⟩ := h.call call
    exact .cons hreply (ih hafter)

/-- However often it is looked at, it is the same token. -/
theorem replies_looks (h : stream.peek.1 = .ok token) (looks : List Look) :
    stream.replies (looks.map Look.call) = looks.map fun look => look.told token := by
  induction looks generalizing stream with
  | nil => rfl
  | cons look looks ih =>
    rw [List.map_cons, replies, call_look h look, List.map_cons, ih]
    rw [peek_token h]

/-- After an error the next peek asks the lexer on. -/
theorem peek_again (h : stream.peek.1 = .error diagnostic) :
    stream.peek.2.peek.1 = stream.lexer.next.2.next.1 := by
  obtain ⟨-, hafter⟩ := peek_refused h
  rw [hafter, peek]
  rcases stream.lexer.next.2.next with ⟨_ | _, _⟩ <;> rfl

/-- Behind an error that does not recur whatever is found begins further on. -/
theorem further_of_not_recurs (h : stream.peek.1 = .error diagnostic)
    (hrecurs : ¬ diagnostic.Recurs) :
    diagnostic.span.index < (Lexer.spanOf stream.peek.2.peek.1).index := by
  obtain ⟨offset, text, rest, fault, hrefused, rfl, hat⟩ :=
    Lexer.exists_refused (peek_refused h).1
  have hpasses := Lexer.next_passes hrefused hrecurs
  have hbefore := (Lexer.next_step stream.lexer.next.2).between.1
  rw [← hat] at hpasses
  rw [peek_again h]
  exact hpasses.trans_le hbefore

theorem peek_after_overflow {digits : String} (h : stream.peek.1 = .error diagnostic)
    (hfault : diagnostic.fault = .lexical (.integerOverflow digits)) :
    ∃ digit, digits.toList.getLast? = some digit ∧
      stream.peek.2.peek.1 =
        .ok ⟨.integer (String.singleton digit), diagnostic.span.stop - 1, 1⟩ := by
  obtain ⟨offset, text, rest, fault, hrefused, rfl, hat⟩ :=
    Lexer.exists_refused (peek_refused h).1
  cases hfault
  obtain rfl : digits = String.ofList text := by
    cases hrefused
    rfl
  obtain ⟨digit, hlast, hread⟩ := Lexer.next_overflow offset hrefused
  refine ⟨digit, by rw [String.toList_ofList, hlast], ?_⟩
  rw [peek_again h, hat, hread]
  rfl

theorem peek_after_unclosed (h : stream.peek.1 = .error diagnostic)
    (hfault : diagnostic.fault = .lexical .unterminatedComment) :
    stream.peek.2.peek.1 = .ok ⟨.endOfFile, diagnostic.span.stop, 0⟩ := by
  obtain ⟨offset, text, rest, fault, hrefused, rfl, hat⟩ :=
    Lexer.exists_refused (peek_refused h).1
  cases hfault
  cases hrefused with
  | unterminatedComment hbody =>
    rw [peek_again h, hat, List.append_nil, Lexer.next_unclosed offset hbody]
    rfl

/-- Looking ahead twice gives the same exactly if what is ahead is steady. -/
theorem look_again (stream : TokenStream) (look : Look) :
    ((stream.call look.call).2.call look.call).1 = (stream.call look.call).1 ↔
      Steady stream.peek.1 := by
  cases hpeek : stream.peek.1 with
  | ok token =>
    have hagain : stream.peek.2.peek.1 = .ok token := by rw [peek_token hpeek]
    rw [call_look hpeek, call_look hagain]
    exact iff_of_true rfl trivial
  | error diagnostic =>
    rw [call_error hpeek look.asks]
    by_cases hrecurs : diagnostic.Recurs
    · refine iff_of_true ?_ hrecurs
      have hblocked := blocked_of_recurs hpeek hrecurs
      rw [call_error (by rw [hblocked.again]) look.asks]
    · refine iff_of_false ?_ hrecurs
      have hfurther := further_of_not_recurs hpeek hrecurs
      cases hagain : stream.peek.2.peek.1 with
      | ok token =>
        rw [call_look hagain]
        exact look.told_ne_failed token diagnostic
      | error later =>
        rw [call_error hagain look.asks]
        rw [hagain] at hfurther
        intro hsame
        cases hsame
        exact Nat.lt_irrefl _ hfurther

/-! ## What looking ahead again gives -/

/-- What is found on a stream when it is looked ahead again. -/
structure LooksAgain (stream : TokenStream) : Prop where
  /-- Looking ahead twice gives the same exactly at a token or at an error that recurs. -/
  twice : ∀ look : Look, ((stream.call look.call).2.call look.call).1 = (stream.call look.call).1 ↔
    Steady stream.peek.1
  /-- However often it is looked at, it is the same token. -/
  token : ∀ token, stream.peek.1 = .ok token → ∀ looks : List Look,
    stream.replies (looks.map Look.call) = looks.map fun look => look.told token
  /-- An error that recurs is reported by every later call that asks for a token. -/
  recurs : ∀ diagnostic, stream.peek.1 = .error diagnostic → diagnostic.Recurs →
    ∀ calls : List Call, List.Forall₂ (fun call reply => call.Asks → reply = .failed diagnostic)
      calls (stream.replies calls)
  /-- Any other error is not met again. What is found next begins further on. -/
  further : ∀ diagnostic, stream.peek.1 = .error diagnostic → ¬ diagnostic.Recurs →
    diagnostic.span.index < (Lexer.spanOf stream.peek.2.peek.1).index
  /-- Behind a constant that is too large its last digit is found. -/
  overflow : ∀ diagnostic digits, stream.peek.1 = .error diagnostic →
    diagnostic.fault = .lexical (.integerOverflow digits) →
    ∃ digit, digits.toList.getLast? = some digit ∧ stream.peek.2.peek.1 =
      .ok ⟨.integer (String.singleton digit), diagnostic.span.stop - 1, 1⟩
  /-- Behind a comment that is not closed the end of the file is found. -/
  unclosed : ∀ diagnostic, stream.peek.1 = .error diagnostic →
    diagnostic.fault = .lexical .unterminatedComment →
    stream.peek.2.peek.1 = .ok ⟨.endOfFile, diagnostic.span.stop, 0⟩

/-- Whatever has been called on a stream, looking ahead again gives the same exactly at a token and
at an error that refuses one character. -/
theorem lookahead_repeats (stream : TokenStream) : stream.LooksAgain where
  twice := look_again stream
  token := fun _ h => replies_looks h
  recurs := fun _ h hrecurs => (blocked_of_recurs h hrecurs).replies
  further := fun _ => further_of_not_recurs
  overflow := fun _ _ => peek_after_overflow
  unclosed := fun _ => peek_after_unclosed

/-- Peeking twice does not always give the same: of a constant that is too large the last digit is
found the second time. -/
theorem overflow_then_digit :
    ¬ ∀ source, (ofSource source).peek.2.peek.1 = (ofSource source).peek.1 := by
  intro h
  have hfirst : (ofSource "99999").peek.1 =
      .error ⟨.lexical (.integerOverflow "99999"), 0, 5⟩ := by decide +kernel
  have hsecond : (ofSource "99999").peek.2.peek.1 = .ok ⟨.integer "9", 4, 1⟩ := by decide +kernel
  rw [h, hfirst] at hsecond
  cases hsecond

end TokenStream

end JackCompiler
