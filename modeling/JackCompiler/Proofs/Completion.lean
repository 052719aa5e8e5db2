import JackCompiler.Proofs.Division
import JackCompiler.Proofs.Grammar
import JackCompiler.Proofs.Moves
import JackCompiler.Proofs.Subterms
/-!
# What has been read can be completed

Whatever goals a run has come to, there is a text that they stand for: each goal has a shortest one
(`Goal.completion`). What the run has read up to there, followed by such a text, is a text of the
goals that it began with (`Passage.yields`), as every token was taken by a goal that can begin with
it.
-/

namespace JackCompiler

/-- A lexeme that a class can have in its text: it can stand in a source, and it can be built if it
is a string constant. -/
structure Lexeme.Usable (lexeme : Lexeme) : Prop where
  wellFormed : lexeme.WellFormed
  fits : ∀ contents, lexeme = .string contents → Syntax.Fits contents

namespace Syntax

/-- A class can be built if the string constants in its text can. -/
theorem Class.fit_of_lexemes {c : Class}
    (h : ∀ contents, .string contents ∈ c.lexemes → Fits contents) : c.Fit := by
  intro s hs contents hcontents
  obtain ⟨t, ht, hstring⟩ := List.mem_filterMap.mp hcontents
  have hlexeme : .string contents ∈ t.lexemes := by
    cases t <;> simp_all [Term.lexemes]
  have hbody : .string contents ∈ s.body.lexemes := s.body.terms_subset ht hlexeme
  have hsubroutine : .string contents ∈ s.lexemes := by
    simp [Subroutine.lexemes, Subroutine.signatureAndBody, hbody]
  apply h
  simp only [Class.lexemes, List.mem_append]
  exact .inl (.inr (List.mem_flatMap.mpr ⟨s, hs, hsubroutine⟩))

end Syntax

namespace Compile

open Syntax

/-! ## Texts of goals -/

/-- A goal that names the kind of a token names a word or a symbol. -/
def Goal.Plain : Goal → Prop
  | .expect (.keyword _) | .expect (.symbol _) => True
  | .expect _ => False
  | _ => True

/-- A name for what has to have one. -/
def anyName : Lexeme := .identifier "x"

/-- The shortest text that a goal stands for. -/
def Goal.completion : Goal → List Lexeme
  | .expect (.keyword word) => [.keyword word]
  | .expect (.symbol symbol) => [.symbol symbol]
  | .className | .variableName _ _ | .term => [anyName]
  | .variableType _ => [.keyword .int, anyName]
  | .subroutines | .closeBlock => [.symbol .rightBrace]
  | .resultType _ =>
    [.keyword .void, anyName, .symbol .leftParen, .symbol .rightParen, .symbol .leftBrace,
      .symbol .rightBrace]
  | .subroutineName _ _ =>
    [anyName, .symbol .leftParen, .symbol .rightParen, .symbol .leftBrace, .symbol .rightBrace]
  | .target => [anyName, .symbol .equal, anyName, .symbol .semicolon]
  | .assignment _ => [.symbol .equal, anyName, .symbol .semicolon]
  | .doCall => [anyName, .symbol .leftParen, .symbol .rightParen, .symbol .semicolon]
  | .returnValue => [.symbol .semicolon]
  | .callRest _ => [.symbol .leftParen, .symbol .rightParen]
  | .methodName _ => [anyName, .symbol .leftParen, .symbol .rightParen]
  | .callArguments _ _ | .moreArguments _ _ => [.symbol .rightParen]
  | _ => []

theorem completion_usable (goal : Goal) : ∀ lexeme ∈ goal.completion, lexeme.Usable := by
  have hname : anyName.Usable := by
    refine ⟨⟨⟨by decide, by simp⟩, fun word h => ?_⟩, fun contents h => by cases h⟩
    cases word <;> exact absurd h (by decide)
  have hkeyword (word : Keyword) : (Lexeme.keyword word).Usable := ⟨trivial, by simp⟩
  have hsymbol (symbol : Symbol) : (Lexeme.symbol symbol).Usable := ⟨trivial, by simp⟩
  cases goal
  case expect kind => cases kind <;> simp [Goal.completion, hkeyword, hsymbol]
  all_goals simp [Goal.completion, hname, hkeyword, hsymbol]

theorem completion_yields {goal : Goal} (h : goal.Plain) : goal.Yields goal.completion := by
  let value : Expression := .mk (.var "x") .nil
  let s : Subroutine := ⟨.function, none, "x", [], [], .nil⟩
  cases goal
  case expect kind =>
    cases kind with
    | keyword word => exact ⟨.keyword word, rfl, rfl⟩
    | symbol symbol => exact ⟨.symbol symbol, rfl, rfl⟩
    | _ => exact h.elim
  case emit | subroutineDone | endOfFile => rfl
  case className => exact ⟨"x", rfl⟩
  case classVariables | localVariables | parameters | moreParameters => exact ⟨[], rfl⟩
  case variableType storage =>
    refine ⟨.int, [anyName], rfl, "x", [], rfl, ?_⟩
    split <;> exact ⟨[], rfl⟩
  case variableName storage type =>
    refine ⟨"x", [], rfl, ?_⟩
    split <;> exact ⟨[], rfl⟩
  case moreNames | elseBranch => exact .inl rfl
  case subroutines => exact ⟨[], rfl⟩
  case resultType kind => exact ⟨s, rfl⟩
  case subroutineName kind returnType => exact ⟨s, rfl⟩
  case statements => exact ⟨.nil, rfl⟩
  case closeBlock => rfl
  case target => exact ⟨"x", _, rfl, .inl ⟨value, rfl⟩⟩
  case assignment => exact .inl ⟨value, rfl⟩
  case doCall => exact ⟨.own "x" .nil, rfl⟩
  case returnValue => exact .inl rfl
  case term => exact ⟨.var "x", rfl⟩
  case operators => exact ⟨.nil, rfl⟩
  case afterName name span => exact ⟨.var name, rfl⟩
  case callRest name => exact ⟨.own name .nil, rfl⟩
  case methodName => exact ⟨"x", .nil, rfl⟩
  case callArguments | moreArguments => exact ⟨.nil, rfl⟩

/-- Goals that are left can be met. -/
theorem exists_completion {goals : List Goal} (h : ∀ goal ∈ goals, goal.Plain) :
    ∃ text, Yield goals text ∧ ∀ lexeme ∈ text, lexeme.Usable := by
  induction goals with
  | nil => exact ⟨[], rfl, by simp⟩
  | cons goal goals ih =>
    obtain ⟨hgoal, hgoals⟩ := List.forall_mem_cons.mp h
    obtain ⟨text, hyield, husable⟩ := ih hgoals
    refine ⟨goal.completion ++ text, ⟨_, _, rfl, completion_yields hgoal, hyield⟩, ?_⟩
    exact List.forall_mem_append.mpr ⟨completion_usable goal, husable⟩

/-! ## Passages of a run -/

theorem Goal.LeftBy.plain {token : Token} {goal : Goal} (h : goal.LeftBy token) : goal.Plain := by
  cases goal
  case expect kind =>
    cases kind with
    | keyword | symbol => trivial
    | _ => exact h.elim
  all_goals trivial

theorem ahead_append {stop stop' : Except Diagnostic Token} {tokens tokens' : List Token}
    (before : List Token) (h : ahead stop' tokens' = ahead stop tokens) :
    ahead stop' (before ++ tokens') = ahead stop (before ++ tokens) := by
  cases before with
  | nil => exact h
  | cons token before => rfl

/-- A run takes the tokens `before` from one stage to another: what is left then completes them, and
any other run over them comes there too, if it has the same ahead then. -/
structure Passage (stop : Except Diagnostic Token) (before : List Token) (p q : Stage) : Prop where
  tokens_eq : p.tokens = before ++ q.tokens
  yields : ∀ text, Yield q.goals text → Yield p.goals (before.map (·.lexeme) ++ text)
  plain : ∀ goal ∈ q.goals, goal.Plain
  fits : ∀ token ∈ before, ∀ contents, token.lexeme = .string contents → Fits contents
  again : ∀ stop' tokens, ahead stop' tokens = ahead stop q.tokens →
    Comes stop' ⟨before ++ tokens, p.goals, p.state⟩ ⟨tokens, q.goals, q.state⟩

namespace Passage

variable {stop : Except Diagnostic Token} {before : List Token} {goal : Goal} {goals : List Goal}
  {state after : State} {events : List Event} {q : Stage}

theorem refl {p : Stage} (h : ∀ goal ∈ p.goals, goal.Plain) : Passage stop [] p p :=
  ⟨rfl, fun _ => id, h, by simp, fun _ _ _ => .refl _⟩

theorem meet {tokens : List Token}
    (h : goal.step (ahead stop tokens) state = .meet events after)
    (rest : Passage stop before ⟨tokens, goals, after⟩ q) :
    Passage stop before ⟨tokens, goal :: goals, state⟩ q := by
  refine ⟨rest.tokens_eq, fun text hq => ?_, rest.plain, rest.fits, fun stop' tokens' hsame => ?_⟩
  · exact ⟨[], _, rfl, step_meet_yields h, rest.yields text hq⟩
  · have htokens : tokens = before ++ q.tokens := rest.tokens_eq
    rw [htokens, ← ahead_append before hsame] at h
    exact .meet h (rest.again stop' tokens' hsame)

theorem take {token : Token} {tokens : List Token} {more : List Goal}
    (h : goal.read token state = .take events more after)
    (hfits : ∀ contents, token.lexeme = .string contents → Fits contents)
    (rest : Passage stop before ⟨tokens, more ++ goals, after⟩ q) :
    Passage stop (token :: before) ⟨token :: tokens, goal :: goals, state⟩ q := by
  refine ⟨congrArg (token :: ·) rest.tokens_eq, fun text hq => ?_, rest.plain,
    List.forall_mem_cons.mpr ⟨hfits, rest.fits⟩, fun stop' tokens' hsame => ?_⟩
  · obtain ⟨first, last, htext, hmore, hgoals⟩ := yield_append.mp (rest.yields text hq)
    have hsound : (goal.read token state).Sound goal token := read_sound goal token state
    rw [h] at hsound
    refine ⟨token.lexeme :: first, last, ?_, hsound first hmore, hgoals⟩
    rw [List.map_cons, List.cons_append, htext, List.cons_append]
  · exact .take h (rest.again stop' tokens' hsame)

end Passage

/-- What a run comes to it comes to over some of its tokens. -/
theorem passage_of_comes {stop : Except Diagnostic Token} {p q : Stage} (h : Comes stop p q)
    (hplain : ∀ goal ∈ p.goals, goal.Plain) : ∃ before, Passage stop before p q := by
  induction h with
  | refl => exact ⟨[], .refl hplain⟩
  | meet hstep _ ih =>
    obtain ⟨before, hpassage⟩ := ih (List.forall_mem_cons.mp hplain).2
    exact ⟨before, hpassage.meet hstep⟩
  | @take token tokens goal goals more state after events q hread _ ih =>
    obtain ⟨hgoal, hgoals⟩ := List.forall_mem_cons.mp hplain
    have harises : (goal.read token state).Arises goal token := read_arises goal token state
    rw [hread] at harises
    cases harises with
    | take hend hstring hmore =>
      obtain ⟨before, hpassage⟩ :=
        ih (List.forall_mem_append.mpr ⟨fun g hg => (hmore g hg).plain, hgoals⟩)
      refine ⟨token :: before, hpassage.take hread fun contents hcontents => ?_⟩
      rcases hstring contents hcontents with rfl | hfits
      · exact hgoal.elim
      · exact hfits

end Compile

end JackCompiler
