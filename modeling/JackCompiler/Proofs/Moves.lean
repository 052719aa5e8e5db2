import JackCompiler.Proofs.Run
import JackCompiler.Proofs.Recognition.Expressions
/-!
# What can become of a goal

All that a goal can do with the token ahead, whichever goal it is (`read_arises`): it is met, or takes
the token and leaves goals that ask for words and symbols, or refuses it. It refuses the token ahead
because it does not expect it, and else a name: one that is not declared, which can be a name taken
right before, or one that is declared already.
-/

namespace JackCompiler.Compile

open Syntax

/-- A goal that the token just taken can leave: if it names the kind of a token it names a word or a
symbol, and a name it keeps is that of the token. -/
def Goal.LeftBy (token : Token) : Goal → Prop
  | .expect (.keyword _) | .expect (.symbol _) => True
  | .expect _ => False
  | .afterName name span => token = ⟨.identifier name, span⟩
  | _ => True

/-- What can become of a goal with a token ahead. -/
inductive Move.Arises (goal : Goal) (token : Token) : Move → Prop
  | meet (events : List Event) (state : State) : Arises goal token (.meet events state)
  | take {events : List Event} {more : List Goal} {state : State}
    (hend : token.lexeme = .endOfFile → goal = .expect .endOfFile)
    (hstring : ∀ contents, token.lexeme = .string contents →
      goal = .expect .string ∨ Fits contents)
    (hmore : ∀ g ∈ more, g.LeftBy token) : Arises goal token (.take events more state)
  | unexpected (expected : String) : Arises goal token (.refuse (token.unexpected expected))
  | undefinedSymbol {name : String} {span : Span}
    (h : token = ⟨.identifier name, span⟩ ∨ goal = .afterName name span) :
    Arises goal token (.refuse ⟨.undefinedSymbol name, span⟩)
  | duplicateDefinition {name : String} {span : Span} (h : token = ⟨.identifier name, span⟩) :
    Arises goal token (.refuse ⟨.duplicateDefinition name, span⟩)

/-! ## The parts of a step -/

section

variable {goal : Goal} {token : Token} {state : State}

/-- A token that is neither the end of the file nor a string constant is taken. -/
theorem arises_take {events : List Event} {more : List Goal}
    (hend : token.lexeme ≠ .endOfFile) (hstring : ∀ contents, token.lexeme ≠ .string contents)
    (hmore : ∀ g ∈ more, g.LeftBy token) : (Move.take events more state).Arises goal token :=
  .take (fun h => absurd h hend) (fun contents h => absurd h (hstring contents)) hmore

theorem takeName_arises {what : String} {next : String → Move}
    (h : ∀ name, token = ⟨.identifier name, token.span⟩ → (next name).Arises goal token) :
    (takeName token what next).Arises goal token :=
  takeName_elim (.unexpected what) fun name hlexeme => h name (by rw [← hlexeme])

theorem withVariable_arises {name : String} {span : Span} {next : Declaration → Move}
    (hname : token = ⟨.identifier name, span⟩ ∨ goal = .afterName name span)
    (h : ∀ declared, (next declared).Arises goal token) :
    (withVariable state name span next).Arises goal token :=
  withVariable_elim (.undefinedSymbol hname) h

theorem declare_arises {name type : String} {storage : Storage} {span : Span}
    {next : State → Move}
    (hname : token = ⟨.identifier name, span⟩ ∨ state.symbols.scope storage = [])
    (h : ∀ state, (next state).Arises goal token) :
    (declare state name type storage span next).Arises goal token := by
  refine declare_elim (fun hscope => ?_) fun _ _ _ => h _
  exact .duplicateDefinition (hname.resolve_right hscope)

theorem takeType_arises {storage : Storage} :
    (takeType token storage state).Arises goal token := by
  refine takeType_elim (.unexpected _) fun type htype => arises_take ?_ ?_ (by simp [Goal.LeftBy])
  · intro heof
    rw [heof] at htype
    cases htype
  · intro contents hstring
    rw [hstring] at htype
    cases htype

theorem leftBy_expression : ∀ g ∈ expression, g.LeftBy token := by
  simp [expression, Goal.LeftBy]

theorem takeTerm_arises {after : List Goal} (hafter : ∀ g ∈ after, g.LeftBy token) :
    (takeTerm token state after).Arises goal token := by
  have hcons {first : Goal} (hfirst : first.LeftBy token) : ∀ g ∈ first :: after, g.LeftBy token :=
    List.forall_mem_cons.mpr ⟨hfirst, hafter⟩
  refine takeTerm_elim .unexpected ?integer ?string ?constant ?group ?unary ?name
  case integer => exact fun _ hlexeme => arises_take (by simp [hlexeme]) (by simp [hlexeme]) hafter
  case string =>
    intro contents commands hlexeme hcommands
    rw [stringCommands_eq, Option.ite_none_right_eq_some] at hcommands
    refine .take (fun heof => ?_) (fun other hother => ?_) hafter
    · rw [hlexeme] at heof
      cases heof
    · rw [hlexeme] at hother
      cases hother
      exact .inr hcommands.1
  case constant =>
    exact fun _ _ hlexeme _ => arises_take (by simp [hlexeme]) (by simp [hlexeme]) hafter
  case group =>
    intro hlexeme
    exact arises_take (by simp [hlexeme]) (by simp [hlexeme])
      (List.forall_mem_append.mpr ⟨leftBy_expression, hcons (by simp [Goal.LeftBy])⟩)
  case unary =>
    intro symbol command hlexeme _
    exact arises_take (by simp [hlexeme]) (by simp [hlexeme])
      (List.forall_mem_cons.mpr ⟨trivial, hcons trivial⟩)
  case name =>
    intro name hlexeme
    exact arises_take (by simp [hlexeme]) (by simp [hlexeme])
      (hcons (by rw [Goal.LeftBy, ← hlexeme]))

theorem takeCall_arises {name : String} : (takeCall token name state).Arises goal token := by
  refine takeCall_elim (.unexpected _) (fun hlexeme => ?_) fun hlexeme => ?_
  · exact arises_take (by simp [hlexeme]) (by simp [hlexeme]) (by simp [Goal.LeftBy])
  · exact arises_take (by simp [hlexeme]) (by simp [hlexeme]) (by simp [Goal.LeftBy])

end

/-- What becomes of a goal with a token ahead is one of these. -/
theorem read_arises (goal : Goal) (token : Token) (state : State) :
    (goal.read token state).Arises goal token := by
  have hname {name : String} {events : List Event} {more : List Goal} {after : State}
      (h : token = ⟨.identifier name, token.span⟩) (hmore : ∀ g ∈ more, g.LeftBy token) :
      (Move.take events more after).Arises goal token := by
    refine arises_take ?_ ?_ hmore
    all_goals
      rw [h]
      simp
  cases goal <;> simp only [Goal.read]
  case expect kind =>
    by_cases hkind : token.kind = kind
    · rw [if_pos hkind]
      refine .take (fun heof => ?_) (fun contents hstring => .inl ?_) (by simp)
      · rw [← hkind, Token.kind, heof]
        rfl
      · rw [← hkind, Token.kind, hstring]
        rfl
    · rw [if_neg hkind]
      exact .unexpected _
  case className => exact takeName_arises fun name h => hname h (by simp)
  case variableType => exact takeType_arises
  case variableName storage type =>
    refine takeName_arises fun name h => declare_arises (.inl h) fun after => ?_
    refine hname h (List.forall_mem_singleton.mpr ?_)
    split <;> trivial
  case resultType kind =>
    split
    · exact arises_take (by simp [*]) (by simp [*]) (by simp [Goal.LeftBy])
    · rename_i type htype _
      refine arises_take ?_ ?_ (by simp [Goal.LeftBy])
      · intro heof
        rw [heof] at htype
        cases htype
      · intro contents hstring
        rw [hstring] at htype
        cases htype
    · exact .unexpected _
  case subroutineName kind returnType =>
    refine takeName_arises fun name h => ?_
    cases kind with
    | method =>
      exact declare_arises (.inr rfl) fun after => hname h (by simp [Goal.LeftBy])
    | constructor | function => exact hname h (by simp [Goal.LeftBy])
  case parameters =>
    split
    · exact .meet _ _
    · exact takeType_arises
  case target =>
    refine takeName_arises fun name h => withVariable_arises (.inl h) fun declared => ?_
    exact hname h (by simp [Goal.LeftBy])
  case doCall => exact takeName_arises fun name h => hname h (by simp [Goal.LeftBy])
  case returnValue =>
    split
    · exact arises_take (by simp [*]) (by simp [*]) (by simp)
    · exact takeTerm_arises (by simp [Goal.LeftBy])
  case term => exact takeTerm_arises (by simp)
  case operators pending =>
    split
    · split
      · exact arises_take (by simp [*]) (by simp [*]) (by simp [Goal.LeftBy])
      · exact .meet _ _
    · exact .meet _ _
  case afterName name span =>
    split
    · exact withVariable_arises (.inr rfl) fun declared =>
        arises_take (by simp [*]) (by simp [*]) (by simp [Goal.LeftBy, expression])
    · exact takeCall_arises
    · exact takeCall_arises
    · exact withVariable_arises (.inr rfl) fun declared => .meet _ _
  case callRest => exact takeCall_arises
  case methodName receiver =>
    refine takeName_arises fun name h => ?_
    split <;> exact hname h (by simp [Goal.LeftBy])
  case callArguments callee count =>
    split
    · exact arises_take (by simp [*]) (by simp [*]) (by simp)
    · exact takeTerm_arises (by simp [Goal.LeftBy])
  case emit | subroutineDone => exact .meet _ _
  all_goals
    split
    all_goals first
      | exact .meet _ _
      | exact .unexpected _
      | exact arises_take (by simp [*]) (by simp [*]) (by simp [Goal.LeftBy, expression])

end JackCompiler.Compile
