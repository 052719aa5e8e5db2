import JackCompiler.Proofs.Run
import JackCompiler.Proofs.Syntax
/-!
# What a run accepts derives from the grammar

Each goal stands for some lists of lexemes, which the grammar fixes. A goal that is met without a
token stands for the empty list, and one that takes a token stands for that token followed by what
the goals left in its place stand for (`read_yields`). So a run that meets all its goals has read
something they stand for, and one that meets the goals of a source has read a class.
-/

namespace JackCompiler.Compile

open Syntax

/-- The lists of lexemes a goal stands for. -/
def Goal.Yields : Goal → List Lexeme → Prop
  | .expect kind, text => ∃ lexeme : Lexeme, lexeme.kind = kind ∧ text = [lexeme]
  | .emit _, text | .subroutineDone _, text | .endOfFile, text => text = []
  | .className, text => ∃ name, text = [.identifier name]
  | .classVariables, text => ∃ groups : List ClassVariables, text = groups.flatMap (·.lexemes)
  | .variableType storage, text =>
    ∃ type : TypeName, ∃ rest, text = type.lexeme :: rest ∧ Named storage rest
  | .variableName storage _, text => Named storage text
  | .moreNames storage _, text =>
    text = [] ∨ ∃ rest, text = .symbol .comma :: rest ∧ Named storage rest
  | .moreParameters, text => ∃ parameters, text = parameterTail parameters
  | .parameters, text => ∃ parameters, text = parameterList parameters
  | .subroutines, text =>
    ∃ subroutines : List Subroutine,
      text = subroutines.flatMap (·.lexemes) ++ [Lexeme.symbol .rightBrace]
  | .resultType _, text => ∃ s : Subroutine,
    text = returnLexeme s.returnType :: .identifier s.name :: s.signatureAndBody
  | .subroutineName _ _, text => ∃ s : Subroutine, text = .identifier s.name :: s.signatureAndBody
  | .localVariables _, text => ∃ groups : List VariableGroup, text = groups.flatMap localLexemes
  | .statements, text => ∃ body : Statements, text = body.lexemes
  | .closeBlock, text => text = [.symbol .rightBrace]
  | .target, text => ∃ name rest, text = .identifier name :: rest ∧ Assigned rest
  | .assignment _, text => Assigned text
  | .elseBranch _, text => text = [] ∨ ∃ body : Statements,
    text = .keyword .else :: .symbol .leftBrace :: body.lexemes ++ [Lexeme.symbol .rightBrace]
  | .doCall, text => ∃ call : Call, text = call.lexemes ++ [Lexeme.symbol .semicolon]
  | .returnValue, text => text = [.symbol .semicolon] ∨ ∃ value : Expression,
    text = value.lexemes ++ [Lexeme.symbol .semicolon]
  | .term, text => ∃ term : Term, text = term.lexemes
  | .operators _, text => ∃ rest : Operations, text = rest.lexemes
  | .afterName name _, text => ∃ term : Term, term.lexemes = .identifier name :: text
  | .callRest name, text => ∃ call : Call, call.lexemes = .identifier name :: text
  | .methodName _, text => ∃ name, ∃ arguments : Arguments,
    text = .identifier name :: .symbol .leftParen :: arguments.lexemes ++
      [Lexeme.symbol .rightParen]
  | .callArguments _ _, text => ∃ arguments : Arguments,
    text = arguments.lexemes ++ [Lexeme.symbol .rightParen]
  | .moreArguments _ _, text => ∃ arguments : Arguments,
    text = arguments.moreLexemes ++ [Lexeme.symbol .rightParen]
where
  /-- The name of a variable, and what may follow it in its declaration. -/
  Named (storage : Storage) (text : List Lexeme) : Prop :=
    ∃ name rest, text = .identifier name :: rest ∧
      if storage = .argument then ∃ parameters, rest = parameterTail parameters
      else ∃ names, rest = nameTail names
  /-- The rest of a `let` after its variable. -/
  Assigned (text : List Lexeme) : Prop :=
    (∃ value : Expression, text = .symbol .equal :: value.lexemes ++ [Lexeme.symbol .semicolon]) ∨
    ∃ index value : Expression, text = .symbol .leftBracket :: index.lexemes ++
      .symbol .rightBracket :: .symbol .equal :: value.lexemes ++ [Lexeme.symbol .semicolon]

/-- The lists of lexemes that goals stand for one after another. -/
def Yield : List Goal → List Lexeme → Prop
  | [], text => text = []
  | goal :: goals, text => ∃ first rest, text = first ++ rest ∧ goal.Yields first ∧ Yield goals rest

@[simp]
theorem yield_nil (text : List Lexeme) : Yield [] text ↔ text = [] := Iff.rfl

@[simp]
theorem yield_cons (goal : Goal) (goals : List Goal) (text : List Lexeme) :
    Yield (goal :: goals) text ↔
      ∃ first rest, text = first ++ rest ∧ goal.Yields first ∧ Yield goals rest := Iff.rfl

theorem yield_append {as bs : List Goal} {text : List Lexeme} :
    Yield (as ++ bs) text ↔
      ∃ first rest, text = first ++ rest ∧ Yield as first ∧ Yield bs rest := by
  induction as generalizing text with
  | nil => simp
  | cons a as ih =>
    simp only [List.cons_append, yield_cons, ih]
    constructor
    · rintro ⟨x, _, rfl, hx, y, z, rfl, hy, hz⟩
      exact ⟨x ++ y, z, by simp, ⟨x, y, rfl, hx, hy⟩, hz⟩
    · rintro ⟨_, z, rfl, ⟨x, y, rfl, hx, hy⟩, hz⟩
      exact ⟨x, y ++ z, by simp, hx, y, z, rfl, hy, hz⟩

@[simp]
theorem yields_symbol (symbol : Symbol) (text : List Lexeme) :
    (Goal.expect (.symbol symbol)).Yields text ↔ text = [.symbol symbol] := by
  constructor
  · rintro ⟨lexeme, hk, rfl⟩
    cases lexeme <;> simp_all [Lexeme.kind]
  · rintro rfl
    exact ⟨_, rfl, rfl⟩

@[simp]
theorem yields_keyword (word : Keyword) (text : List Lexeme) :
    (Goal.expect (.keyword word)).Yields text ↔ text = [.keyword word] := by
  constructor
  · rintro ⟨lexeme, hk, rfl⟩
    cases lexeme <;> simp_all [Lexeme.kind]
  · rintro rfl
    exact ⟨_, rfl, rfl⟩

@[simp]
theorem yields_emit (commands : List Vm.Command) (text : List Lexeme) :
    (Goal.emit commands).Yields text ↔ text = [] := Iff.rfl

theorem yield_expression {text : List Lexeme} (h : Yield expression text) :
    ∃ e : Expression, text = e.lexemes := by
  obtain ⟨_, _, rfl, ⟨first, rfl⟩, _, _, rfl, ⟨rest, rfl⟩, rfl⟩ := h
  exact ⟨.mk first rest, by simp [Expression.lexemes]⟩

/-- A move of a goal is one the grammar has: `token` is the token it saw. -/
def Move.Sound (goal : Goal) (token : Token) : Move → Prop
  | .meet _ _ => goal.Yields []
  | .take _ more _ => ∀ text, Yield more text → goal.Yields (token.lexeme :: text)
  | .refuse _ => True

theorem typeName_some {lexeme : Lexeme} {name : String} (h : typeName? lexeme = some name) :
    ∃ type : TypeName, lexeme = type.lexeme := by
  unfold typeName? at h
  split at h
  · exact ⟨.int, rfl⟩
  · exact ⟨.char, rfl⟩
  · exact ⟨.boolean, rfl⟩
  · exact ⟨.ofClass _, rfl⟩
  · cases h

theorem binaryCommand_some {symbol : Symbol} {command : Vm.Command}
    (h : binaryCommand? symbol = some command) : ∃ op : BinaryOperator, symbol = op.symbol := by
  cases symbol <;> simp only [binaryCommand?, reduceCtorEq] at h
  exacts [⟨.add, rfl⟩, ⟨.subtract, rfl⟩, ⟨.multiply, rfl⟩, ⟨.divide, rfl⟩, ⟨.and, rfl⟩, ⟨.or, rfl⟩,
    ⟨.less, rfl⟩, ⟨.greater, rfl⟩, ⟨.equal, rfl⟩]

theorem unaryCommand_some {symbol : Symbol} {command : Vm.Command}
    (h : unaryCommand? symbol = some command) : ∃ op : UnaryOperator, symbol = op.symbol := by
  cases symbol <;> simp only [unaryCommand?, reduceCtorEq] at h
  exacts [⟨.negate, rfl⟩, ⟨.complement, rfl⟩]

theorem constantCommands_some {word : Keyword} {commands : List Vm.Command}
    (h : constantCommands? word = some commands) : ∃ value : Constant, word = value.keyword := by
  cases word <;> simp only [constantCommands?, reduceCtorEq] at h
  exacts [⟨.true, rfl⟩, ⟨.false, rfl⟩, ⟨.null, rfl⟩, ⟨.this, rfl⟩]

/-! ## Every move is one the grammar has -/

variable {goal : Goal} {token : Token} {state : State}

theorem takeName_sound {what : String} {next : String → Move}
    (h : ∀ name, token.lexeme = .identifier name → (next name).Sound goal token) :
    (takeName token what next).Sound goal token :=
  takeName_elim trivial h

theorem withVariable_sound {name : String} {span : Span} {next : Declaration → Move}
    (h : ∀ declared, (next declared).Sound goal token) :
    (withVariable state name span next).Sound goal token :=
  withVariable_elim trivial h

theorem declare_sound {name type : String} {storage : Storage} {span : Span} {next : State → Move}
    (h : ∀ state, (next state).Sound goal token) :
    (declare state name type storage span next).Sound goal token :=
  declare_elim (fun _ => trivial) fun _ _ _ => h _

theorem takeType_sound {storage : Storage}
    (h : ∀ type : TypeName, ∀ rest, Goal.Yields.Named storage rest →
      goal.Yields (type.lexeme :: rest)) :
    (takeType token storage state).Sound goal token := by
  refine takeType_elim trivial fun name htype => ?_
  obtain ⟨type, ht⟩ := typeName_some htype
  rintro _ ⟨first, _, rfl, hfirst, rfl⟩
  rw [ht, List.append_nil]
  exact h type first hfirst

theorem takeTerm_sound {after : List Goal}
    (h : ∀ term : Term, ∀ rest, Yield after rest → goal.Yields (term.lexemes ++ rest)) :
    (takeTerm token state after).Sound goal token := by
  refine takeTerm_elim (fun _ => trivial) ?integer ?string ?constant ?group ?unary ?name
  case integer =>
    intro digits hl text ht
    simpa [hl, Term.lexemes] using h (.integer _) text ht
  case string =>
    intro contents commands hl _ text ht
    simpa [hl, Term.lexemes] using h (.string _) text ht
  case constant =>
    intro word commands hl hcommands text ht
    obtain ⟨value, rfl⟩ := constantCommands_some hcommands
    simpa [hl, Term.lexemes] using h (.constant value) text ht
  case group =>
    intro hl text ht
    obtain ⟨_, _, rfl, he, _, rest, rfl, hp, hrest⟩ := yield_append.1 ht
    obtain ⟨inner, rfl⟩ := yield_expression he
    rw [yields_symbol] at hp
    simpa [hl, hp, Term.lexemes] using h (.group inner) rest hrest
  case unary =>
    intro symbol command hl hcommand text ht
    obtain ⟨op, rfl⟩ := unaryCommand_some hcommand
    obtain ⟨_, _, rfl, ⟨operand, rfl⟩, _, rest, rfl, rfl, hrest⟩ := ht
    simpa [hl, Term.lexemes] using h (.unary op operand) rest hrest
  case name =>
    rintro name hl _ ⟨first, rest, rfl, ⟨term, ht⟩, hrest⟩
    simpa [hl, ht] using h term rest hrest

theorem takeCall_sound {name : String}
    (h : ∀ call : Call, ∀ rest, call.lexemes = .identifier name :: rest → goal.Yields rest) :
    (takeCall token name state).Sound goal token := by
  refine takeCall_elim trivial ?dotted ?own
  case dotted =>
    rintro hl _ ⟨_, _, rfl, ⟨method, arguments, rfl⟩, rfl⟩
    rw [hl]
    exact h (.dotted name method arguments) _ (by simp [Call.lexemes])
  case own =>
    rintro hl _ ⟨_, _, rfl, ⟨arguments, rfl⟩, rfl⟩
    rw [hl]
    exact h (.own name arguments) _ (by simp [Call.lexemes])

/-- Variables of a type are named, and a semicolon ends their declaration. -/
theorem yield_group {storage : Storage} {goal : Goal} {text : List Lexeme}
    (hs : storage ≠ .argument)
    (h : Yield [.variableType storage, .expect (.symbol .semicolon), goal] text) :
    ∃ group : VariableGroup, ∃ rest, goal.Yields rest ∧
      text = group.lexemes ++ .symbol .semicolon :: rest := by
  obtain ⟨_, _, rfl, ⟨type, _, rfl, name, _, rfl, hmore⟩, _, _, rfl, hsemi, rest, _, rfl, hrest,
    rfl⟩ := h
  rw [if_neg hs] at hmore
  obtain ⟨names, rfl⟩ := hmore
  rw [yields_symbol] at hsemi
  exact ⟨⟨type, name, names⟩, rest, hrest, by simp [VariableGroup.lexemes, hsemi]⟩

theorem classVariables_sound :
    ((Goal.classVariables).read token state).Sound .classVariables token := by
  simp only [Goal.read]
  split <;> rename_i hl
  · intro text ht
    obtain ⟨group, _, ⟨groups, rfl⟩, rfl⟩ := yield_group (by decide) ht
    exact ⟨⟨.static, group⟩ :: groups, by simp [ClassVariables.lexemes, ClassStorage.keyword, hl]⟩
  · intro text ht
    obtain ⟨group, _, ⟨groups, rfl⟩, rfl⟩ := yield_group (by decide) ht
    exact ⟨⟨.field, group⟩ :: groups, by simp [ClassVariables.lexemes, ClassStorage.keyword, hl]⟩
  · exact ⟨[], rfl⟩

theorem variableName_sound {storage : Storage} {type : String} :
    ((Goal.variableName storage type).read token state).Sound (.variableName storage type)
      token := by
  simp only [Goal.read]
  apply takeName_sound
  intro name hl
  apply declare_sound
  rintro state _ ⟨first, _, rfl, hfirst, rfl⟩
  refine ⟨name, first, by simp [hl], ?_⟩
  by_cases hs : storage = .argument
  · simp only [if_pos hs] at hfirst ⊢
    exact hfirst
  · simp only [if_neg hs] at hfirst ⊢
    rcases hfirst with rfl | ⟨_, rfl, next, _, rfl, h⟩
    · exact ⟨[], rfl⟩
    · rw [if_neg hs] at h
      obtain ⟨names, rfl⟩ := h
      exact ⟨next :: names, by simp [nameTail]⟩

theorem subroutines_sound :
    ((Goal.subroutines).read token state).Sound .subroutines token := by
  have head (kind : SubroutineKind) (hl : token.lexeme = .keyword (subroutineKeyword kind)) :
      ∀ text, Yield [.resultType kind, .subroutines] text →
        (Goal.subroutines).Yields (token.lexeme :: text) := by
    rintro _ ⟨_, _, rfl, ⟨s, rfl⟩, _, _, rfl, ⟨subroutines, rfl⟩, rfl⟩
    exact ⟨{ s with kind } :: subroutines,
      by simp [Subroutine.lexemes, Subroutine.signatureAndBody, hl]⟩
  simp only [Goal.read]
  split <;> rename_i hl
  · exact head .constructor hl
  · exact head .function hl
  · exact head .method hl
  · rintro _ rfl
    exact ⟨[], by simp [hl]⟩
  · trivial

theorem resultType_sound {kind : SubroutineKind} :
    ((Goal.resultType kind).read token state).Sound (.resultType kind) token := by
  simp only [Goal.read]
  split <;> rename_i hl
  · rintro _ ⟨_, _, rfl, ⟨s, rfl⟩, rfl⟩
    exact ⟨{ s with returnType := none },
      by simp [Subroutine.signatureAndBody, returnLexeme, hl]⟩
  · obtain ⟨type, ht⟩ := typeName_some ‹_›
    rintro _ ⟨_, _, rfl, ⟨s, rfl⟩, rfl⟩
    exact ⟨{ s with returnType := some type },
      by simp [Subroutine.signatureAndBody, returnLexeme, ht]⟩
  · trivial

theorem signature_sound {kind : SubroutineKind} {returnType name : String} {text : List Lexeme}
    {header : Header} (hl : token.lexeme = .identifier name)
    (h : Yield [.expect (.symbol .leftParen), .parameters, .expect (.symbol .rightParen),
      .expect (.symbol .leftBrace), .localVariables header, .statements, .closeBlock,
      .subroutineDone header] text) :
    (Goal.subroutineName kind returnType).Yields (token.lexeme :: text) := by
  obtain ⟨_, _, rfl, h1, _, _, rfl, ⟨parameters, rfl⟩, _, _, rfl, h2, _, _, rfl, h3, _, _, rfl,
    ⟨locals, rfl⟩, _, _, rfl, ⟨body, rfl⟩, _, _, rfl, rfl, _, _, rfl, rfl, rfl⟩ := h
  rw [yields_symbol] at h1 h2 h3
  exact ⟨⟨kind, none, name, parameters, locals, body⟩,
    by simp [Subroutine.signatureAndBody, hl, h1, h2, h3]⟩

theorem subroutineName_sound {kind : SubroutineKind} {returnType : String} :
    ((Goal.subroutineName kind returnType).read token state).Sound
      (.subroutineName kind returnType) token := by
  simp only [Goal.read]
  apply takeName_sound
  intro name hl
  cases kind
  · exact fun text => signature_sound hl
  · exact fun text => signature_sound hl
  · apply declare_sound
    exact fun state text => signature_sound hl

theorem statements_sound :
    ((Goal.statements).read token state).Sound .statements token := by
  simp only [Goal.read]
  split <;> rename_i hl
  · rintro _ ⟨_, _, rfl, ⟨name, _, rfl, ha⟩, _, _, rfl, ⟨rest, rfl⟩, rfl⟩
    rcases ha with ⟨value, rfl⟩ | ⟨index, value, rfl⟩
    · exact ⟨.cons (.letVar name value) rest,
        by simp [Statements.lexemes, Statement.lexemes, hl]⟩
    · exact ⟨.cons (.letElement name index value) rest,
        by simp [Statements.lexemes, Statement.lexemes, hl]⟩
  · rintro _ ⟨_, _, rfl, ⟨call, rfl⟩, _, _, rfl, ⟨rest, rfl⟩, rfl⟩
    exact ⟨.cons (.doCall call) rest, by simp [Statements.lexemes, Statement.lexemes, hl]⟩
  · intro text ht
    rw [yield_append] at ht
    obtain ⟨_, _, rfl, ⟨_, _, rfl, h1, hc⟩, _, _, rfl, h2, _, _, rfl, rfl, _, _, rfl, h3, _, _, rfl,
      ⟨body, rfl⟩, _, _, rfl, rfl, _, _, rfl, ha, _, _, rfl, ⟨rest, rfl⟩, rfl⟩ := ht
    obtain ⟨condition, rfl⟩ := yield_expression hc
    rw [yields_symbol] at h1 h2 h3
    rcases ha with rfl | ⟨alternative, rfl⟩
    · exact ⟨.cons (.ifThen condition body) rest,
        by simp [Statements.lexemes, Statement.lexemes, hl, h1, h2, h3]⟩
    · exact ⟨.cons (.ifElse condition body alternative) rest,
        by simp [Statements.lexemes, Statement.lexemes, hl, h1, h2, h3]⟩
  · intro text ht
    rw [yield_append] at ht
    obtain ⟨_, _, rfl, ⟨_, _, rfl, h1, hc⟩, _, _, rfl, h2, _, _, rfl, rfl, _, _, rfl, h3, _, _, rfl,
      ⟨body, rfl⟩, _, _, rfl, rfl, _, _, rfl, rfl, _, _, rfl, ⟨rest, rfl⟩, rfl⟩ := ht
    obtain ⟨condition, rfl⟩ := yield_expression hc
    rw [yields_symbol] at h1 h2 h3
    exact ⟨.cons (.whileLoop condition body) rest,
      by simp [Statements.lexemes, Statement.lexemes, hl, h1, h2, h3]⟩
  · rintro _ ⟨_, _, rfl, hr, _, _, rfl, ⟨rest, rfl⟩, rfl⟩
    rcases hr with rfl | ⟨value, rfl⟩
    · exact ⟨.cons .returnNothing rest, by simp [Statements.lexemes, Statement.lexemes, hl]⟩
    · exact ⟨.cons (.returnValue value) rest,
        by simp [Statements.lexemes, Statement.lexemes, hl]⟩
  · exact ⟨.nil, rfl⟩

theorem assignment_sound {declared : Declaration} :
    ((Goal.assignment declared).read token state).Sound (.assignment declared) token := by
  simp only [Goal.read]
  split <;> rename_i hl
  · rintro text ht
    simp only [List.append_assoc, yield_append] at ht
    obtain ⟨_, _, rfl, hi, _, _, rfl, ⟨_, _, rfl, h1, _, _, rfl, rfl, _, _, rfl, h2, rfl⟩, _, _,
      rfl, hv, _, _, rfl, rfl, _, _, rfl, h3, rfl⟩ := ht
    obtain ⟨index, rfl⟩ := yield_expression hi
    obtain ⟨value, rfl⟩ := yield_expression hv
    rw [yields_symbol] at h1 h2 h3
    exact .inr ⟨index, value, by simp [hl, h1, h2, h3]⟩
  · rintro text ht
    rw [yield_append] at ht
    obtain ⟨_, _, rfl, hv, _, _, rfl, rfl, _, _, rfl, h1, rfl⟩ := ht
    obtain ⟨value, rfl⟩ := yield_expression hv
    rw [yields_symbol] at h1
    exact .inl ⟨value, by simp [hl, h1]⟩
  · trivial

theorem afterName_sound {name : String} {span : Span} :
    ((Goal.afterName name span).read token state).Sound (.afterName name span) token := by
  simp only [Goal.read]
  have call : (takeCall token name state).Sound (.afterName name span) token :=
    takeCall_sound fun call rest h => ⟨.call call, h⟩
  split <;> rename_i hl
  · apply withVariable_sound
    intro declared text ht
    rw [yield_append] at ht
    obtain ⟨_, _, rfl, hi, _, _, rfl, h1, _, _, rfl, rfl, rfl⟩ := ht
    obtain ⟨index, rfl⟩ := yield_expression hi
    rw [yields_symbol] at h1
    exact ⟨.element name index, by simp [Term.lexemes, hl, h1]⟩
  · exact call
  · exact call
  · apply withVariable_sound
    exact fun declared => ⟨.var name, rfl⟩

theorem methodName_sound {receiver : String} :
    ((Goal.methodName receiver).read token state).Sound (.methodName receiver) token := by
  simp only [Goal.read]
  have head {name callee : String} {count : UInt16} (hl : token.lexeme = .identifier name)
      (text : List Lexeme)
      (ht : Yield [.expect (.symbol .leftParen), .callArguments callee count] text) :
      (Goal.methodName receiver).Yields (token.lexeme :: text) := by
    obtain ⟨_, _, rfl, h1, _, _, rfl, ⟨arguments, rfl⟩, rfl⟩ := ht
    rw [yields_symbol] at h1
    exact ⟨name, arguments, by simp [hl, h1]⟩
  apply takeName_sound
  intro name hl
  split
  · exact head hl
  · exact head hl

/-- Whatever a goal does with a token, the grammar allows. -/
theorem read_sound (goal : Goal) (token : Token) (state : State) :
    (goal.read token state).Sound goal token := by
  cases goal <;> simp only [Goal.read]
  case expect kind =>
    split
    · rintro _ rfl
      exact ⟨token.lexeme, ‹_›, rfl⟩
    · trivial
  case emit => rfl
  case subroutineDone => rfl
  case className =>
    apply takeName_sound
    rintro name hl _ rfl
    exact ⟨name, by rw [hl]⟩
  case classVariables => exact classVariables_sound
  case variableType storage =>
    apply takeType_sound
    intro type rest h
    exact ⟨type, rest, rfl, h⟩
  case variableName => exact variableName_sound
  case moreNames storage type =>
    split <;> rename_i hl
    · rintro _ ⟨first, _, rfl, hfirst, rfl⟩
      exact .inr ⟨first, by simp [hl], hfirst⟩
    · exact .inl rfl
  case subroutines => exact subroutines_sound
  case resultType => exact resultType_sound
  case subroutineName => exact subroutineName_sound
  case parameters =>
    split <;> rename_i hl
    · exact ⟨[], rfl⟩
    · apply takeType_sound
      rintro type _ ⟨name, _, rfl, h⟩
      rw [if_pos rfl] at h
      obtain ⟨rest, rfl⟩ := h
      exact ⟨⟨type, name⟩ :: rest, by simp [parameterList, Parameter.lexemes]⟩
  case moreParameters =>
    split <;> rename_i hl
    · rintro _ ⟨_, _, rfl, ⟨type, _, rfl, name, _, rfl, h⟩, rfl⟩
      rw [if_pos rfl] at h
      obtain ⟨rest, rfl⟩ := h
      exact ⟨⟨type, name⟩ :: rest, by simp [parameterTail, Parameter.lexemes, hl]⟩
    · exact ⟨[], rfl⟩
  case localVariables header =>
    split <;> rename_i hl
    · intro text ht
      obtain ⟨group, _, ⟨groups, rfl⟩, rfl⟩ := yield_group (by decide) ht
      exact ⟨group :: groups, by simp [localLexemes, hl]⟩
    · exact ⟨[], rfl⟩
  case statements => exact statements_sound
  case closeBlock =>
    split <;> rename_i hl
    · rintro _ rfl
      simp [Goal.Yields, hl]
    · trivial
  case target =>
    apply takeName_sound
    intro name hl
    apply withVariable_sound
    rintro declared _ ⟨first, _, rfl, hfirst, rfl⟩
    exact ⟨name, first, by simp [hl], hfirst⟩
  case assignment => exact assignment_sound
  case elseBranch =>
    split <;> rename_i hl
    · rintro _ ⟨_, _, rfl, h1, _, _, rfl, ⟨body, rfl⟩, _, _, rfl, rfl, _, _, rfl, rfl, rfl⟩
      rw [yields_symbol] at h1
      exact .inr ⟨body, by simp [hl, h1]⟩
    · exact .inl rfl
  case doCall =>
    apply takeName_sound
    rintro name hl _ ⟨_, _, rfl, ⟨call, hc⟩, _, _, rfl, h1, _, _, rfl, rfl, rfl⟩
    rw [yields_symbol] at h1
    exact ⟨call, by simp [hl, hc, h1]⟩
  case returnValue =>
    split <;> rename_i hl
    · rintro _ rfl
      exact .inl (by rw [hl])
    · apply takeTerm_sound
      rintro term _ ⟨_, _, rfl, ⟨rest, rfl⟩, _, _, rfl, h1, _, _, rfl, rfl, rfl⟩
      rw [yields_symbol] at h1
      exact .inr ⟨.mk term rest, by simp [Expression.lexemes, h1]⟩
  case term =>
    apply takeTerm_sound
    rintro term _ rfl
    exact ⟨term, by simp⟩
  case operators pending =>
    split <;> rename_i hl
    · split
      · obtain ⟨op, rfl⟩ := binaryCommand_some ‹_›
        rintro _ ⟨_, _, rfl, ⟨operand, rfl⟩, _, _, rfl, ⟨rest, rfl⟩, rfl⟩
        exact ⟨.cons op operand rest, by simp [Operations.lexemes, hl]⟩
      · exact ⟨.nil, rfl⟩
    · exact ⟨.nil, rfl⟩
  case afterName => exact afterName_sound
  case callRest name => exact takeCall_sound fun call rest h => ⟨call, h⟩
  case methodName => exact methodName_sound
  case callArguments callee count =>
    split <;> rename_i hl
    · rintro _ rfl
      exact ⟨.nil, by simp [Arguments.lexemes, hl]⟩
    · apply takeTerm_sound
      rintro term _ ⟨_, _, rfl, ⟨rest, rfl⟩, _, _, rfl, ⟨arguments, rfl⟩, rfl⟩
      exact ⟨.cons (.mk term rest) arguments,
        by simp [Arguments.lexemes, Expression.lexemes]⟩
  case moreArguments callee count =>
    split <;> rename_i hl
    · intro text ht
      rw [yield_append] at ht
      obtain ⟨_, _, rfl, he, _, _, rfl, ⟨arguments, rfl⟩, rfl⟩ := ht
      obtain ⟨e, rfl⟩ := yield_expression he
      exact ⟨.cons e arguments, by simp [Arguments.moreLexemes, hl]⟩
    · rintro _ rfl
      exact ⟨.nil, by simp [Arguments.moreLexemes, hl]⟩
    · trivial
  case endOfFile =>
    split
    · rfl
    · trivial

/-! ## A run that ends well has read what its goals stand for -/

theorem step_meet_yields {ahead : Except Diagnostic Token} {events : List Event} {state' : State}
    (h : goal.step ahead state = .meet events state') : goal.Yields [] := by
  cases ahead with
  | ok token =>
    have := read_sound goal token state
    rw [← step_ok, h] at this
    exact this
  | error diagnostic => cases goal <;> simp_all [Goal.step, Goal.Yields]

theorem step_endOfFile_meet {stop : Except Diagnostic Token} {tokens : List Token}
    {events : List Event} {state' : State}
    (h : Goal.endOfFile.step (ahead stop tokens) state = .meet events state')
    (htokens : ∀ t ∈ tokens, t.lexeme ≠ .endOfFile) : tokens = [] ∧ ∃ eof, stop = .ok eof := by
  cases tokens with
  | nil =>
    cases stop with
    | ok eof => exact ⟨rfl, eof, rfl⟩
    | error diagnostic => simp [ahead, Goal.step] at h
  | cons t tokens =>
    have ht := htokens t (by simp)
    simp [ahead, step_ok, Goal.read] at h

/-- If goals are met and then the end of the file, they stand for all the tokens, and these are all
of the source. -/
theorem run_yields {stop : Except Diagnostic Token} {done : List Event} {tokens : List Token}
    {goals : List Goal} {state state' : State} (htokens : ∀ t ∈ tokens, t.lexeme ≠ .endOfFile)
    (h : (run stop done tokens (goals ++ [Goal.endOfFile]) state).2 = .ok state') :
    Yield goals (tokens.map (·.lexeme)) ∧ ∃ eof, stop = .ok eof := by
  refine run_induction stop
    (motive := fun _ tokens all _ result => ∀ goals, all = goals ++ [Goal.endOfFile] →
      (∀ t ∈ tokens, t.lexeme ≠ .endOfFile) → result.2 = .ok state' →
      Yield goals (tokens.map (·.lexeme)) ∧ ∃ eof, stop = .ok eof)
    ?finish ?meet ?take ?exhaust ?refuse done tokens (goals ++ [Goal.endOfFile]) state goals rfl
    htokens h
  case finish => simp
  case meet =>
    intro done tokens goal rest state events after result hstep ih goals hgoals htokens hok
    cases goals with
    | nil =>
      obtain ⟨rfl, rfl⟩ := List.cons.inj hgoals
      obtain ⟨rfl, hstop⟩ := step_endOfFile_meet hstep htokens
      exact ⟨rfl, hstop⟩
    | cons g goals =>
      obtain ⟨rfl, rfl⟩ := List.cons.inj hgoals
      obtain ⟨hy, hstop⟩ := ih goals rfl htokens hok
      exact ⟨⟨[], _, rfl, step_meet_yields hstep, hy⟩, hstop⟩
  case take =>
    intro done t tokens goal rest state events more after result hread ih goals hgoals htokens hok
    have hsound := read_sound goal t state
    rw [hread] at hsound
    cases goals with
    | nil =>
      obtain ⟨rfl, rfl⟩ := List.cons.inj hgoals
      simp only [Goal.read] at hread
      split at hread <;> cases hread
    | cons g goals =>
      obtain ⟨rfl, rfl⟩ := List.cons.inj hgoals
      obtain ⟨hy, hstop⟩ :=
        ih (more ++ goals) (by simp) (fun u hu => htokens u (by simp [hu])) hok
      obtain ⟨first, last, he, hfirst, hlast⟩ := yield_append.1 hy
      exact ⟨⟨t.lexeme :: first, last, by simp [he], hsound first hfirst, hlast⟩, hstop⟩
  case exhaust => simp
  case refuse => simp

/-- What the goals of a source stand for is the text of a class. -/
theorem yield_classGoals {text : List Lexeme} (h : Yield classGoals text) :
    ∃ c : Syntax.Class, c.lexemes = text := by
  obtain ⟨_, _, rfl, h1, _, _, rfl, ⟨name, rfl⟩, _, _, rfl, h2, _, _, rfl, ⟨groups, rfl⟩, _, _, rfl,
    ⟨subroutines, rfl⟩, rfl⟩ := h
  rw [yields_keyword] at h1
  rw [yields_symbol] at h2
  exact ⟨⟨name, groups, subroutines⟩, by simp [Syntax.Class.lexemes, h1, h2]⟩

/-- A run that meets the goals of a source has read a class, and all of the source. -/
theorem run_program_class {stop : Except Diagnostic Token} {done : List Event}
    {tokens : List Token} {state state' : State} (htokens : ∀ t ∈ tokens, t.lexeme ≠ .endOfFile)
    (h : (run stop done tokens program state).2 = .ok state') :
    (∃ c : Syntax.Class, c.lexemes = tokens.map (·.lexeme)) ∧ ∃ eof, stop = .ok eof := by
  obtain ⟨hyield, hstop⟩ := @run_yields stop done tokens classGoals state state' htokens h
  exact ⟨yield_classGoals hyield, hstop⟩

end JackCompiler.Compile
