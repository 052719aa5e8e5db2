import JackCompiler.Proofs.Faults
import JackCompiler.Proofs.Stream
/-!
# A stream is a position among tokens

Whatever is called on the stream of a source, in whatever order, it replies as a position among the
tokens of the source does, until a call has to report the lexical fault behind them
(`stream_follows`). Looking ahead leaves the position where it is, taking a token moves it past the
token, and a call that fails or does not match leaves it alone (`Call.stays`).
-/

namespace JackCompiler

namespace TokenStream

/-! ## Calls and replies -/

/-- A way to read the current token. -/
inductive Access
  | keyword | symbol | identifier | integerValue | stringValue
  deriving DecidableEq, Repr

/-- What the current token is read as. -/
inductive Reading
  | keyword (word : Keyword)
  | symbol (symbol : Symbol)
  | text (text : String)
  | number (value : Nat)
  deriving DecidableEq, Repr

inductive Call
  | hasNext | peek | peekKind | advance
  | matchKind (kind : TokenKind)
  | consume (kind : TokenKind)
  | consumeIdentifier (what : String)
  | current
  | read (access : Access)
  deriving DecidableEq, Repr

/-- What a call is answered with. A text or a reading may be missing, for what is to be cut out of a
source or read from a text. -/
inductive Reply
  | truth (value : Bool)
  | token (token : Token)
  | kind (kind : TokenKind)
  | name (text : Option String) (span : Span)
  | current (token : Option Token)
  | reading (result : Except InvalidAccess (Option Reading))
  | failed (diagnostic : Diagnostic)

section

variable (stream : TokenStream)

def read : Access → Except InvalidAccess Reading
  | .keyword => stream.keyword.map .keyword
  | .symbol => stream.symbol.map .symbol
  | .identifier => stream.identifier.map .text
  | .integerValue => stream.integerValue.map .number
  | .stringValue => stream.stringValue.map .text

/-- The reply that tells the result of an operation. -/
def reply {α : Type} (tell : α → Reply) : Except Diagnostic α × TokenStream → Reply × TokenStream
  | (.ok a, stream) => (tell a, stream)
  | (.error diagnostic, stream) => (.failed diagnostic, stream)

/-- What the stream does on a call. -/
def call : Call → Reply × TokenStream
  | .hasNext => reply .truth stream.hasNext
  | .peek => reply .token stream.peek
  | .peekKind => reply .kind stream.peekKind
  | .advance => reply .token stream.advance
  | .matchKind kind => reply .truth (stream.matchKind kind)
  | .consume kind => reply .token (stream.consume kind)
  | .consumeIdentifier what =>
    reply (fun found => .name (some found.1) found.2) (stream.consumeIdentifier what)
  | .current => (.current stream.current, stream)
  | .read access => (.reading ((stream.read access).map some), stream)

end

/-- The replies to calls, each on the stream that the one before has left. -/
def replies (stream : TokenStream) : List Call → List Reply
  | [] => []
  | call :: calls => (stream.call call).1 :: (stream.call call).2.replies calls

end TokenStream

/-! ## Positions -/

namespace Lexer.Scan

section

variable (scan : Lexer.Scan)

/-- What is at a position: a token, or what the scan stops at. -/
def ahead (i : Nat) : Except Diagnostic Token :=
  match scan.tokens[i]? with
  | some token => .ok token
  | none => scan.stop

/-- The token right before a position. -/
def last : Nat → Option Token
  | 0 => none
  | i + 1 => scan.tokens[i]?

end

section

variable {scan : Lexer.Scan} {source : String} {i : Nat} {token : Token}

theorem ahead_of_lt (h : i < scan.tokens.length) : scan.ahead i = .ok scan.tokens[i] := by
  rw [ahead, List.getElem?_eq_getElem h]

theorem ahead_of_not_lt (h : ¬ i < scan.tokens.length) : scan.ahead i = scan.stop := by
  rw [ahead, List.getElem?_eq_none (Nat.le_of_not_lt h)]

theorem ahead_map_ok {α : Type} {found : Token → α} {a : α}
    (h : (scan.ahead i).map found = .ok a) : ∃ token, scan.ahead i = .ok token ∧ found token = a := by
  cases hahead : scan.ahead i with
  | ok token =>
    rw [hahead] at h
    exact ⟨token, rfl, Except.ok.inj h⟩
  | error diagnostic =>
    rw [hahead] at h
    cases h

theorem ahead_map_error {α : Type} {found : Token → α} {diagnostic : Diagnostic}
    (h : (scan.ahead i).map found = .error diagnostic) : scan.ahead i = .error diagnostic := by
  cases hahead : scan.ahead i with
  | ok token =>
    rw [hahead] at h
    cases h
  | error reason =>
    rw [hahead] at h
    cases h
    rfl

theorem mem_of_last (h : scan.last i = some token) : token ∈ scan.tokens := by
  cases i with
  | zero => cases h
  | succ i => exact List.mem_of_getElem? h

/-- Only behind the last token is the end of the file. -/
theorem ahead_ne_endOfFile (h : (Lexer.ofSource source).scan.ahead i = .ok token) :
    token.lexeme ≠ .endOfFile ↔ i < (Lexer.ofSource source).scan.tokens.length := by
  by_cases hlt : i < (Lexer.ofSource source).scan.tokens.length
  · rw [ahead_of_lt hlt] at h
    cases h
    exact iff_of_true (scan_ne_endOfFile _ _ (List.getElem_mem hlt)) hlt
  · rw [ahead_of_not_lt hlt] at h
    exact iff_of_false (fun hne => hne (scan_stop_ok h)) hlt

end

end Lexer.Scan

namespace TokenStream

namespace Access

def category : Access → Category
  | keyword => .keyword
  | symbol => .symbol
  | identifier => .identifier
  | integerValue => .integerConstant
  | stringValue => .stringConstant

/-- What a text is read as. -/
def reading? (fragment : String) : Access → Option Reading
  | keyword => (Keyword.ofSpelling? fragment).map .keyword
  | symbol =>
    match fragment.toList with
    | [c] => (Symbol.ofChar? c).map .symbol
    | _ => none
  | identifier => some (.text fragment)
  | integerValue => some (.number (decimalValue fragment.toList))
  | stringValue => some (.text (TokenKind.string.contents fragment))

/-- Reading a token of a source, which is to be of the category, from its text there. -/
def of (access : Access) (source : String) : Option Token → Except InvalidAccess (Option Reading)
  | some token =>
    if token.kind.category = access.category then
      .ok ((token.span.slice? source).bind access.reading?)
    else .error ⟨access.category, token.kind.category⟩
  | none => .error ⟨access.category, .endOfFile⟩

end Access

/-- Taking what is at a position, which only a token lets. -/
def Reply.taking (scan : Lexer.Scan) (i : Nat) (token : Token) (reply : Reply) : Reply × Nat :=
  if i < scan.tokens.length then (reply, i + 1)
  else (.failed ⟨.lexical .noMoreTokens, token.span⟩, i)

/-- What a position replies to a call, and where it goes. It is the lexical fault that it has to
report where a token is asked for and none can be read. -/
def Call.at (source : String) (scan : Lexer.Scan) (i : Nat) :
    Call → Except Diagnostic (Reply × Nat)
  | hasNext => (scan.ahead i).map fun _ => (.truth (i < scan.tokens.length), i)
  | peek => (scan.ahead i).map fun token => (.token token, i)
  | peekKind => (scan.ahead i).map fun token => (.kind token.kind, i)
  | advance => (scan.ahead i).map fun token => Reply.taking scan i token (.token token)
  | matchKind kind => (scan.ahead i).map fun token =>
    if token.kind = kind then Reply.taking scan i token (.truth true) else (.truth false, i)
  | consume kind => (scan.ahead i).map fun token =>
    if token.kind = kind then Reply.taking scan i token (.token token)
    else (.failed (token.unexpected kind.description), i)
  | consumeIdentifier what => (scan.ahead i).map fun token =>
    if token.kind = .identifier then
      Reply.taking scan i token (.name (token.span.slice? source) token.span)
    else (.failed (token.unexpected what), i)
  | current => .ok (.current (scan.last i), i)
  | read access => .ok (.reading (access.of source (scan.last i)), i)

/-- These are the replies of a position to calls, up to the first call that has to report the lexical
fault, and that one does. -/
inductive Follows (source : String) (scan : Lexer.Scan) : Nat → List Call → List Reply → Prop
  | nil (i : Nat) : Follows source scan i [] []
  | reply {i next : Nat} {call : Call} {reply : Reply} {calls : List Call} {replies : List Reply}
    (h : call.at source scan i = .ok (reply, next)) (rest : Follows source scan next calls replies) :
    Follows source scan i (call :: calls) (reply :: replies)
  | fault {i : Nat} {call : Call} {diagnostic : Diagnostic}
    (h : call.at source scan i = .error diagnostic) (calls : List Call) (replies : List Reply) :
    Follows source scan i (call :: calls) (.failed diagnostic :: replies)

/-- The reply of a call that fails or does not match. -/
def Reply.Refuses : Reply → Prop
  | failed _ | truth false | reading (.error _) => True
  | _ => False

/-- A call that fails or does not match leaves the position where it is. -/
theorem Call.stays {source : String} {scan : Lexer.Scan} {i next : Nat} {call : Call} {reply : Reply}
    (h : call.at source scan i = .ok (reply, next)) (hrefuses : reply.Refuses) : next = i := by
  have htake {token : Token} {told : Reply} (hnot : ¬ told.Refuses)
      (h : Reply.taking scan i token told = (reply, next)) : next = i := by
    unfold Reply.taking at h
    split at h
    · cases h
      exact absurd hrefuses hnot
    · cases h
      rfl
  cases call <;> simp only [Call.at] at h
  case hasNext | peek | peekKind =>
    obtain ⟨token, -, h⟩ := Lexer.Scan.ahead_map_ok h
    cases h
    rfl
  case advance =>
    obtain ⟨token, -, h⟩ := Lexer.Scan.ahead_map_ok h
    exact htake id h
  case matchKind | consume | consumeIdentifier =>
    obtain ⟨token, -, h⟩ := Lexer.Scan.ahead_map_ok h
    split at h
    · exact htake id h
    · cases h
      rfl
  case current | read =>
    cases h
    rfl

/-! ## A stream at a position -/

section

variable {source : String} {scan : Lexer.Scan} {stream : TokenStream} {i : Nat} {token : Token}
  {diagnostic : Diagnostic}

/-- A stream has taken the tokens before a position, and has those from there on left. -/
structure At (stream : TokenStream) (scan : Lexer.Scan) (i : Nat) : Prop where
  remaining : stream.remaining = ⟨scan.tokens.drop i, scan.stop⟩
  current : stream.current = scan.last i

namespace At

theorem ahead (h : stream.At scan i) :
    Compile.ahead stream.remaining.stop stream.remaining.tokens = scan.ahead i := by
  rw [h.remaining, Lexer.Scan.ahead, ← List.head?_drop]
  cases scan.tokens.drop i <;> rfl

theorem sees {after : TokenStream} (h : stream.At scan i) (hsees : after.Sees stream token) :
    after.At scan i :=
  ⟨hsees.remaining.trans h.remaining, hsees.current.trans h.current⟩

end At

/-- A reply, and the stream that is left with it, are what a position replies and comes to. -/
def Agrees (scan : Lexer.Scan) (found : Reply × TokenStream) (expected : Reply × Nat) : Prop :=
  found.1 = expected.1 ∧ found.2.At scan expected.2

theorem reply_error {α : Type} {result : Except Diagnostic α × TokenStream}
    (h : result.1 = .error diagnostic) (tell : α → Reply) :
    (reply tell result).1 = .failed diagnostic := by
  obtain ⟨_, after⟩ := result
  cases h
  rfl

/-- A call that looks ahead does what it does with the token there. -/
theorem At.withPeek {α : Type} (h : stream.At scan i) (hahead : scan.ahead i = .ok token)
    {tell : α → Reply} {next : Token → TokenStream → Except Diagnostic α × TokenStream}
    {expected : Reply × Nat}
    (hnext : ∀ after : TokenStream, after.At scan i →
      Agrees scan (reply tell (next token after)) expected) :
    Agrees scan (reply tell (stream.withPeek next)) expected := by
  have hstream := h.ahead.trans hahead
  rw [withPeek_token hstream]
  exact hnext _ (h.sees (peek_sees hstream))

end

/-! ## The stream of a source -/

section

variable {source : String} {stream : TokenStream} {i : Nat} {token : Token}

/-- What is at a position can be taken if it is a token. -/
theorem At.advance (h : stream.At (Lexer.ofSource source).scan i)
    (hahead : (Lexer.ofSource source).scan.ahead i = .ok token) (tell : Token → Reply) :
    Agrees (Lexer.ofSource source).scan (reply tell stream.advance)
      (Reply.taking (Lexer.ofSource source).scan i token (tell token)) := by
  have hstream := h.ahead.trans hahead
  unfold Reply.taking
  by_cases hlt : i < (Lexer.ofSource source).scan.tokens.length
  · rw [if_pos hlt]
    rw [Lexer.Scan.ahead_of_lt hlt] at hahead
    cases hahead
    have htoken := Lexer.scan_ne_endOfFile _ _ (List.getElem_mem hlt)
    obtain ⟨after, hadvance, hcurrent, hremaining⟩ := advance_token hstream htoken
    rw [h.remaining, List.drop_eq_getElem_cons hlt] at hremaining
    obtain ⟨htokens, hstop⟩ := Lexer.Scan.mk.inj hremaining
    have hat : after.At (Lexer.ofSource source).scan (i + 1) := by
      refine ⟨?_, ?_⟩
      · rw [(List.cons.inj htokens).2, hstop]
      · rw [hcurrent, Lexer.Scan.last, List.getElem?_eq_getElem hlt]
    rw [hadvance]
    exact ⟨rfl, hat⟩
  · rw [if_neg hlt]
    rw [Lexer.Scan.ahead_of_not_lt hlt] at hahead
    obtain ⟨after, hadvance, hsees⟩ := advance_endOfFile hstream (Lexer.scan_stop_ok hahead)
    rw [hadvance]
    exact ⟨rfl, h.sees hsees⟩

theorem At.matchKind (h : stream.At (Lexer.ofSource source).scan i)
    (hahead : (Lexer.ofSource source).scan.ahead i = .ok token) (kind : TokenKind) :
    Agrees (Lexer.ofSource source).scan (reply .truth (stream.matchKind kind))
      (if token.kind = kind then
        Reply.taking (Lexer.ofSource source).scan i token (.truth true)
      else (.truth false, i)) := by
  refine h.withPeek hahead fun after hafter => ?_
  by_cases hkind : token.kind = kind
  · rw [if_pos hkind, if_pos hkind]
    have htake := hafter.advance hahead fun _ => .truth true
    revert htake
    rcases after.advance with ⟨_ | _, later⟩ <;> exact id
  · rw [if_neg hkind, if_neg hkind]
    exact ⟨rfl, hafter⟩

/-- The text of an identifier is in the source, as it is a token of it. -/
theorem At.consumeIdentifier (h : stream.At (Lexer.ofSource source).scan i)
    (hahead : (Lexer.ofSource source).scan.ahead i = .ok token) (what : String) :
    Agrees (Lexer.ofSource source).scan
      (reply (fun found => .name (some found.1) found.2) (stream.consumeIdentifier what))
      (if token.kind = .identifier then
        Reply.taking (Lexer.ofSource source).scan i token
          (.name (token.span.slice? source) token.span)
      else (.failed (token.unexpected what), i)) := by
  refine h.withPeek hahead fun after hafter => ?_
  obtain ⟨lexeme, span⟩ := token
  cases lexeme with
  | identifier name =>
    have hlt := (Lexer.Scan.ahead_ne_endOfFile hahead).mp (by simp)
    have hadvance := hafter.advance hahead fun token => .name (some token.text) token.span
    rw [Reply.taking, if_pos hlt] at hadvance
    rw [Lexer.Scan.ahead_of_lt hlt] at hahead
    have hmem : ⟨.identifier name, span⟩ ∈ (Lexer.ofSource source).scan.tokens := by
      rw [← Except.ok.inj hahead]
      exact List.getElem_mem hlt
    rw [Token.Met.slice (.inl hmem), Reply.taking, if_pos hlt]
    revert hadvance
    rcases after.advance with ⟨_ | _, later⟩
    · exact fun hadvance => by cases hadvance.1
    · exact fun hadvance => ⟨rfl, hadvance.2⟩
  | _ => exact ⟨rfl, hafter⟩

/-- A text that is read as a lexeme of a category says what the lexeme does. -/
theorem Access.reading?_text {access : Access} {lexeme : Lexeme} {stream : TokenStream}
    (hlexeme : stream.currentLexeme = some lexeme)
    (hcategory : lexeme.kind.category = access.category) :
    (stream.read access).map some = .ok (access.reading? lexeme.text) := by
  cases access with
  | keyword =>
    cases lexeme with
    | keyword word =>
      have hword : Keyword.ofSpelling? word.spelling = some word :=
        Keyword.ofSpelling?_eq_some.mpr rfl
      simp [TokenStream.read, TokenStream.keyword, hlexeme, reading?, Lexeme.text, hword, Except.map]
    | _ => cases hcategory
  | symbol =>
    cases lexeme with
    | symbol symbol =>
      have hsymbol : Symbol.ofChar? symbol.char = some symbol := Symbol.ofChar?_eq_some.mpr rfl
      simp [TokenStream.read, TokenStream.symbol, hlexeme, reading?, Lexeme.text, hsymbol, Except.map]
    | _ => cases hcategory
  | identifier =>
    cases lexeme with
    | identifier name =>
      simp [TokenStream.read, TokenStream.identifier, hlexeme, reading?, Lexeme.text, Except.map]
    | _ => cases hcategory
  | integerValue =>
    cases lexeme with
    | integer digits =>
      simp [TokenStream.read, TokenStream.integerValue, hlexeme, reading?, Lexeme.text, Except.map]
    | _ => cases hcategory
  | stringValue =>
    cases lexeme with
    | string contents =>
      simp [TokenStream.read, TokenStream.stringValue, hlexeme, reading?,
        TokenKind.contents_string, Except.map]
    | _ => cases hcategory

/-- A lexeme of another category is not read. -/
theorem read_invalid {access : Access}
    (h : ∀ lexeme, stream.currentLexeme = some lexeme → lexeme.kind.category ≠ access.category) :
    stream.read access = .error (stream.invalidAccess access.category) := by
  cases access
  all_goals
    simp only [read, keyword, symbol, identifier, integerValue, stringValue]
    cases hlexeme : stream.currentLexeme with
    | none => rfl
    | some lexeme =>
      have hcategory := h lexeme hlexeme
      cases lexeme <;> first | rfl | exact absurd rfl hcategory

/-- The current token is read from its text. -/
theorem At.read_eq (h : stream.At (Lexer.ofSource source).scan i) (access : Access) :
    (stream.read access).map some = access.of source ((Lexer.ofSource source).scan.last i) := by
  rw [← h.current]
  cases hcurrent : stream.current with
  | none =>
    have hlexeme : stream.currentLexeme = none := by rw [currentLexeme, hcurrent]; rfl
    have hread := @read_invalid stream access (by simp [hlexeme])
    rw [hread, invalidAccess, hcurrent]
    rfl
  | some token =>
    have htoken := Lexer.Scan.mem_of_last (h.current.symm.trans hcurrent)
    have hslice : token.span.slice? source = some token.text := Token.Met.slice (.inl htoken)
    have hlexeme : stream.currentLexeme = some token.lexeme := by rw [currentLexeme, hcurrent]; rfl
    unfold Access.of
    dsimp only
    by_cases hcategory : token.kind.category = access.category
    · rw [if_pos hcategory, hslice]
      exact Access.reading?_text hlexeme hcategory
    · have hread : stream.read access = .error (stream.invalidAccess access.category) := by
        refine read_invalid fun lexeme hsome => ?_
        rw [hlexeme] at hsome
        cases hsome
        exact hcategory
      rw [if_neg hcategory, hread, invalidAccess, hcurrent]
      rfl

/-- Where no token can be read, a call that looks ahead fails for the reason. -/
theorem At.call_error (h : stream.At (Lexer.ofSource source).scan i) {call : Call}
    {diagnostic : Diagnostic}
    (herror : call.at source (Lexer.ofSource source).scan i = .error diagnostic) :
    (stream.call call).1 = .failed diagnostic := by
  have hlook {α : Type} {found : Token → α}
      (herror : ((Lexer.ofSource source).scan.ahead i).map found = .error diagnostic) :
      Compile.ahead stream.remaining.stop stream.remaining.tokens = .error diagnostic := by
    rw [h.ahead]
    exact Lexer.Scan.ahead_map_error herror
  cases call
  case current | read => cases herror
  case peek =>
    refine reply_error ?_ _
    rw [peek_eq, hlook herror]
  all_goals exact reply_error (withPeek_error (hlook herror) _) _

/-- A call replies what the position does, and the stream comes where the position does. -/
theorem At.call_ok (h : stream.At (Lexer.ofSource source).scan i) {call : Call}
    {expected : Reply × Nat}
    (hok : call.at source (Lexer.ofSource source).scan i = .ok expected) :
    Agrees (Lexer.ofSource source).scan (stream.call call) expected := by
  cases call <;> simp only [Call.at] at hok
  case current =>
    cases hok
    exact ⟨congrArg Reply.current h.current, h⟩
  case read access =>
    cases hok
    exact ⟨congrArg Reply.reading (h.read_eq access), h⟩
  all_goals obtain ⟨token, hahead, rfl⟩ := Lexer.Scan.ahead_map_ok hok
  case hasNext =>
    refine h.withPeek hahead fun after hafter => ⟨?_, hafter⟩
    exact congrArg Reply.truth (decide_eq_decide.mpr (Lexer.Scan.ahead_ne_endOfFile hahead))
  case peek =>
    have hstream := h.ahead.trans hahead
    have hpeek : stream.peek = (.ok token, stream.peek.2) :=
      Prod.ext ((peek_eq stream).trans hstream) rfl
    unfold call
    rw [hpeek]
    exact ⟨rfl, h.sees (peek_sees hstream)⟩
  case peekKind => exact h.withPeek hahead fun after hafter => ⟨rfl, hafter⟩
  case advance => exact h.advance hahead .token
  case matchKind kind => exact h.matchKind hahead kind
  case consume kind =>
    refine h.withPeek hahead fun after hafter => ?_
    by_cases hkind : token.kind = kind
    · rw [if_pos hkind, if_pos hkind]
      exact hafter.advance hahead .token
    · rw [if_neg hkind, if_neg hkind]
      exact ⟨rfl, hafter⟩
  case consumeIdentifier what => exact h.consumeIdentifier hahead what

/-- A stream at a position replies to any calls as the position does, until one of them has to report
the lexical fault of the source. -/
theorem At.replies_follow (h : stream.At (Lexer.ofSource source).scan i)
    (calls : List Call) :
    Follows source (Lexer.ofSource source).scan i calls (stream.replies calls) := by
  induction calls generalizing stream i with
  | nil => exact .nil i
  | cons call calls ih =>
    unfold replies
    cases hcall : call.at source (Lexer.ofSource source).scan i with
    | ok expected =>
      obtain ⟨reply, next⟩ := expected
      obtain ⟨hreply, hafter⟩ := h.call_ok hcall
      rw [hreply]
      exact .reply hcall (ih hafter)
    | error diagnostic =>
      rw [h.call_error hcall]
      exact .fault hcall _ _

end

/-- The stream of a source is a position among its tokens, before the first one to begin with.
Whatever is called on it, it replies as the position does, until a call has to report the lexical
fault of the source. A call that fails or does not match leaves the position where it is. -/
theorem stream_follows (source : String) (calls : List Call) :
    Follows source (Lexer.ofSource source).scan 0 calls
      ((TokenStream.ofSource source).replies calls) ∧
    ∀ (i next : Nat) (call : Call) (reply : Reply), reply.Refuses →
      call.at source (Lexer.ofSource source).scan i = .ok (reply, next) → next = i := by
  have hat : (TokenStream.ofSource source).At (Lexer.ofSource source).scan 0 := ⟨rfl, rfl⟩
  exact ⟨hat.replies_follow calls, fun i next call reply hrefuses h => Call.stays h hrefuses⟩

end TokenStream

end JackCompiler
