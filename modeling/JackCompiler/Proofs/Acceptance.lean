import JackCompiler.Proofs.Grammar
import JackCompiler.Proofs.Lexing
import JackCompiler.Proofs.Subterms
import JackCompiler.Proofs.Unambiguity
import JackCompiler.Proofs.Widths
/-!
# What compiles, and to what

A source compiles if and only if its tokens are those of a class whose names are in order and whose
string constants can be built, and then it compiles to the code of that class. One half follows the
run and builds the class it has read (`Grammar`), the other follows the class and shows that the run
reads it (`Recognition`).
-/

namespace JackCompiler

open Compile Syntax

/-! ## The names of a tree are identifiers of its text -/

namespace Syntax

/-- A variable that is used in terms of a text is an identifier of the text. -/
theorem mem_of_usedNames {terms : List Term} {text : List Lexeme}
    (hterms : ∀ t ∈ terms, t.lexemes ⊆ text) {name : String} (h : name ∈ usedNames terms) :
    .identifier name ∈ text := by
  obtain ⟨t, ht, hname⟩ := List.mem_filterMap.mp h
  have hlexeme : .identifier name ∈ t.lexemes := by
    cases t <;> simp_all [Term.lexemes]
  exact hterms t ht hlexeme

mutual

theorem Statement.targets_mem (s : Statement) {name : String} (h : name ∈ s.targets) :
    .identifier name ∈ s.lexemes := by
  cases s with
  | letVar target value | letElement target index value =>
    rw [List.mem_singleton.mp h]
    simp [Statement.lexemes]
  | ifThen condition body | whileLoop condition body =>
    simp [Statement.lexemes, Statements.targets_mem body h]
  | ifElse condition body alternative =>
    rcases List.mem_append.mp h with h | h
    · simp [Statement.lexemes, Statements.targets_mem body h]
    · simp [Statement.lexemes, Statements.targets_mem alternative h]
  | doCall | returnNothing | returnValue => cases h

theorem Statements.targets_mem (body : Statements) {name : String} (h : name ∈ body.targets) :
    .identifier name ∈ body.lexemes := by
  cases body with
  | nil => cases h
  | cons first rest =>
    rw [Statements.lexemes, List.mem_append]
    rcases List.mem_append.mp h with h | h
    · exact .inl (Statement.targets_mem first h)
    · exact .inr (Statements.targets_mem rest h)

end

theorem Statements.names_mem (body : Statements) {name : String} (h : name ∈ body.names) :
    .identifier name ∈ body.lexemes := by
  rcases List.mem_append.mp h with h | h
  · exact body.targets_mem h
  · exact mem_of_usedNames (fun t => body.terms_subset) h

theorem mem_nameTail {name : String} {names : List String} (h : name ∈ names) :
    .identifier name ∈ nameTail names :=
  List.mem_flatMap.mpr ⟨name, h, by simp⟩

theorem VariableGroup.declared_mem (group : VariableGroup) {storage : Storage} {name : String}
    (h : name ∈ (group.declared storage).map (·.name)) : .identifier name ∈ group.lexemes := by
  have h : name = group.first ∨ name ∈ group.more := by
    simpa [VariableGroup.declared] using h
  rcases h with rfl | h
  · simp [VariableGroup.lexemes]
  · simp [VariableGroup.lexemes, mem_nameTail h]

theorem parameterList_subset {parameter : Parameter} {parameters : List Parameter}
    (h : parameter ∈ parameters) : parameter.lexemes ⊆ parameterList parameters := by
  cases parameters with
  | nil => cases h
  | cons first rest =>
    rw [parameterList]
    rcases List.mem_cons.mp h with rfl | h
    · exact List.subset_append_left _ _
    · intro lexeme hlexeme
      refine List.mem_append_right _ (List.mem_flatMap.mpr ⟨parameter, h, ?_⟩)
      exact List.mem_cons_of_mem _ hlexeme

/-- The variables a subroutine declares and uses are identifiers of its text. -/
theorem Subroutine.name_mem (s : Subroutine) {name : String}
    (h : name ∈ s.declared.map (·.name) ∨ name ∈ s.body.names) : .identifier name ∈ s.lexemes := by
  suffices hmem : .identifier name ∈ s.signatureAndBody by simp [Subroutine.lexemes, hmem]
  rcases h with h | h
  · simp only [Subroutine.declared, List.map_append, List.mem_append, List.mem_map,
      List.mem_flatMap] at h
    rcases h with ⟨_, ⟨parameter, hparameter, rfl⟩, rfl⟩ | ⟨v, ⟨group, hgroup, hv⟩, rfl⟩
    · have hname := parameterList_subset hparameter (a := .identifier parameter.name)
        (by simp [Parameter.lexemes])
      simp [signatureAndBody, hname]
    · have hname := group.declared_mem (List.mem_map_of_mem (f := (·.name)) hv)
      have hlocals : .identifier v.name ∈ s.locals.flatMap localLexemes :=
        List.mem_flatMap.mpr ⟨group, hgroup, by simp [localLexemes, hname]⟩
      simp only [signatureAndBody, List.mem_append, List.mem_cons]
      tauto
  · simp [signatureAndBody, s.body.names_mem h]

theorem Class.subroutine_mem {c : Class} {s : Subroutine} (hs : s ∈ c.subroutines) {lexeme : Lexeme}
    (h : lexeme ∈ s.lexemes) : lexeme ∈ c.lexemes := by
  have hmem : lexeme ∈ c.subroutines.flatMap (·.lexemes) := List.mem_flatMap.mpr ⟨s, hs, h⟩
  simp only [Class.lexemes, List.mem_append]
  tauto

end Syntax

/-! ## Lexing -/

/-- A source is read to its end, as these lexemes. -/
def Lexes (source : String) (lexemes : List Lexeme) : Prop :=
  ∃ eof, (Lexer.ofSource source).scan.stop = .ok eof ∧
    (Lexer.ofSource source).scan.tokens.map (·.lexeme) = lexemes

theorem Lexes.unique {source : String} {a b : List Lexeme} (ha : Lexes source a)
    (hb : Lexes source b) : a = b := by
  obtain ⟨-, -, rfl⟩ := ha
  obtain ⟨-, -, rfl⟩ := hb
  rfl

/-- No variable of a source is called what the receiver of a method is. -/
theorem Lexes.ne_this {source : String} {lexemes : List Lexeme} (h : Lexes source lexemes)
    {name : String} (hname : .identifier name ∈ lexemes) : name ≠ "this" := by
  obtain ⟨eof, -, rfl⟩ := h
  rintro rfl
  exact absurd (Lexer.scan_identifier hname) (by decide)

theorem Lexes.wellFormed {source : String} {lexemes : List Lexeme} (h : Lexes source lexemes) :
    ∀ lexeme ∈ lexemes, lexeme.WellFormed := by
  obtain ⟨eof, -, rfl⟩ := h
  exact List.forall_mem_map.mpr fun token htoken => (token_marks htoken).1

/-! ## Names in order -/

/-- The hidden receiver of a method stands in no variable's way, as no variable can have its
name. -/
theorem scoped_iff_names {source : String} {c : Syntax.Class} {s : Subroutine}
    (hlex : Lexes source c.lexemes) (hs : s ∈ c.subroutines) :
    c.Scoped s ↔ (s.declared.map (·.name)).Nodup ∧ ∀ name ∈ s.body.names,
      name ∈ s.declared.map (·.name) ∨ name ∈ c.declared.map (·.name) := by
  have hthis {name : String} (h : name ∈ s.declared.map (·.name) ∨ name ∈ s.body.names) :
      name ∉ (s.receiver c.name).map (·.name) := by
    have hne := hlex.ne_this (Class.subroutine_mem hs (s.name_mem h))
    simp only [Subroutine.receiver]
    split <;> simp [hne]
  have hdisjoint : ((s.receiver c.name).map (·.name)).Disjoint (s.declared.map (·.name)) :=
    fun name hreceiver hdeclared => hthis (.inl hdeclared) hreceiver
  have hlookup (name : String) : ((c.scope s).symbols.lookup? name).isSome ↔
      (name ∈ (s.receiver c.name).map (·.name) ∨ name ∈ s.declared.map (·.name)) ∨
        name ∈ c.declared.map (·.name) := by
    rw [lookup_isSome]
    simp [Class.scope, Scope.symbols, numbered, Function.comp_def]
  rw [Class.scoped_iff, Fresh, Resolved]
  refine and_congr (and_iff_left hdisjoint) (forall₂_congr fun name hname => ?_)
  rw [hlookup, or_iff_right (hthis (.inr hname))]

/-! ## Compiling -/

/-- A compilation succeeds as its run does. -/
theorem compile_eq_ok {source : String} {compiled : CompiledClass} :
    compile source = .ok compiled ↔ ∃ done state,
      run (Lexer.ofSource source).scan.stop [] (Lexer.ofSource source).scan.tokens program {} =
        (done, .ok state) ∧
      compiled = ⟨state.className, done.reverse.filterMap (·.command?)⟩ := by
  have hscan : compileSource source = (Lexer.ofSource source).scan.compile := rfl
  rw [compile, Compilation.located, hscan, Lexer.Scan.compile]
  obtain ⟨done, result⟩ :=
    run (Lexer.ofSource source).scan.stop [] (Lexer.ofSource source).scan.tokens program {}
  cases result with
  | error diagnostic => simp [Except.map, Except.mapError]
  | ok state => simp [Except.map, Except.mapError, eq_comm]

/-- A compilation fails as its run does. -/
theorem compile_eq_error {source : String} {error : Error} :
    compile source = .error error ↔ ∃ done diagnostic,
      run (Lexer.ofSource source).scan.stop [] (Lexer.ofSource source).scan.tokens program {} =
        (done, .error diagnostic) ∧ error = diagnostic.toError source := by
  have hscan : compileSource source = (Lexer.ofSource source).scan.compile := rfl
  rw [compile, Compilation.located, hscan, Lexer.Scan.compile]
  obtain ⟨done, result⟩ :=
    run (Lexer.ofSource source).scan.stop [] (Lexer.ofSource source).scan.tokens program {}
  cases result with
  | error diagnostic => simp [Except.map, Except.mapError, eq_comm]
  | ok state => simp [Except.map, Except.mapError]

/-- The tokens of a source that is read to its end have a document. -/
theorem tokensXml_of_ok {source : String} {eof : Token}
    (h : (Lexer.ofSource source).scan.stop = .ok eof) :
    tokensXml source = .ok (Xml.document (Lexer.ofSource source).scan.tokens) := by
  unfold tokensXml
  dsimp only
  rw [h]

theorem tokensXml_of_error {source : String} {diagnostic : Diagnostic}
    (h : (Lexer.ofSource source).scan.stop = .error diagnostic) :
    tokensXml source = .error (diagnostic.toError source) := by
  unfold tokensXml
  dsimp only
  rw [h]

theorem Result.mapSpan_eq_ok {f : Span → Span} {result : Result} {done : List Event}
    {state : State} : Result.mapSpan f result = (done, .ok state) ↔ result = (done, .ok state) := by
  obtain ⟨done', _ | _⟩ := result <;> simp [Result.mapSpan, Except.mapError]

theorem Result.ne_ok_of_error {f : Span → Span} {result : Result} {diagnostic : Diagnostic}
    (h : (Result.mapSpan f result).2 = .error diagnostic) {done : List Event} {state : State} :
    result ≠ (done, .ok state) := by
  rintro rfl
  cases h

/-- A source that compiles is read to its end, as a class. -/
theorem lexes_of_compile {source : String} {compiled : CompiledClass}
    (h : compile source = .ok compiled) : ∃ c : Syntax.Class, Lexes source c.lexemes := by
  obtain ⟨done, state, hrun, -⟩ := compile_eq_ok.mp h
  obtain ⟨⟨c, hc⟩, eof, hstop⟩ :=
    run_program_class (Lexer.scan_ne_endOfFile _) (congrArg Prod.snd hrun)
  exact ⟨c, eof, hstop, hc.symm⟩

/-- When the run over the text of a class comes to its end, and what it tells then. -/
theorem run_of_lexes {source : String} {c : Syntax.Class} (h : Lexes source c.lexemes) :
    ∃ state, InClass c state ∧ ∀ done ended,
      run (Lexer.ofSource source).scan.stop [] (Lexer.ofSource source).scan.tokens program {} =
        (done, .ok ended) ↔ (c.Named ∧ c.Fit) ∧ done = c.events.reverse ∧ ended = state := by
  obtain ⟨eof, hstop, htokens⟩ := h
  have hahead : moveAhead (fun _ => default) (Lexer.ofSource source).scan.stop =
      .ok ⟨.endOfFile, default⟩ := by
    rw [hstop, ← Lexer.scan_stop_ok hstop]
    rfl
  have hplaces := run_unplaced (Lexer.ofSource source).scan.stop []
    (Lexer.ofSource source).scan.tokens {}
  rw [htokens, hahead] at hplaces
  obtain ⟨state, hc, hgoes⟩ := run_class c default
  rw [hplaces] at hgoes
  refine ⟨state, hc, fun done ended => ?_⟩
  cases hgoes with
  | same hrun hn hf =>
    rw [Result.mapSpan_eq_ok] at hrun
    simp [hrun, hn, hf, eq_comm]
  | misnamed hfault hn =>
    obtain ⟨diagnostic, name, hfault, -⟩ := hfault
    exact iff_of_false (Result.ne_ok_of_error hfault) fun h => hn h.1.1
  | unfit hfault hf =>
    obtain ⟨diagnostic, found, hfault, -⟩ := hfault
    exact iff_of_false (Result.ne_ok_of_error hfault) fun h => hf h.1.2

/-- What a class compiles to, and when. -/
theorem compile_of_lexes {source : String} {c : Syntax.Class} {compiled : CompiledClass}
    (h : Lexes source c.lexemes) :
    compile source = .ok compiled ↔ (c.Named ∧ c.Fit) ∧ compiled = ⟨c.name, c.program⟩ := by
  obtain ⟨state, hclass, hrun⟩ := run_of_lexes h
  simp only [compile_eq_ok, hrun, ← hclass.name, ← c.events_commands]
  constructor
  · rintro ⟨done, ended, ⟨hc, rfl, rfl⟩, rfl⟩
    exact ⟨hc, by rw [List.reverse_reverse]⟩
  · rintro ⟨hc, rfl⟩
    exact ⟨_, _, ⟨hc, rfl, rfl⟩, by rw [List.reverse_reverse]⟩

/-- A source compiles if and only if its tokens are those of a class that declares no name twice in
one scope, uses no variable that is not declared, and has no string constant that is too long or
has characters that are no positive words. -/
theorem accepted_iff (source : String) :
    (∃ compiled, compile source = .ok compiled) ↔
      ∃ c : Syntax.Class, Lexes source c.lexemes ∧
        (c.declared.map (·.name)).Nodup ∧
        (∀ s ∈ c.subroutines, (s.declared.map (·.name)).Nodup) ∧
        (∀ s ∈ c.subroutines, ∀ name ∈ s.body.names,
          name ∈ s.declared.map (·.name) ∨ name ∈ c.declared.map (·.name)) ∧
        ∀ s ∈ c.subroutines, ∀ contents ∈ stringConstants s.body.terms, Fits contents := by
  constructor
  · rintro ⟨compiled, h⟩
    obtain ⟨c, hlex⟩ := lexes_of_compile h
    obtain ⟨⟨hnamed, hfit⟩, -⟩ := (compile_of_lexes hlex).mp h
    have hscoped (s : Subroutine) (hs : s ∈ c.subroutines) :=
      (scoped_iff_names hlex hs).mp (hnamed.subroutines s hs)
    exact ⟨c, hlex, hnamed.distinct, fun s hs => (hscoped s hs).1, fun s hs => (hscoped s hs).2,
      hfit⟩
  · rintro ⟨c, hlex, hdistinct, hfresh, hresolved, hfit⟩
    have hnamed : c.Named :=
      ⟨hdistinct, fun s hs => (scoped_iff_names hlex hs).mpr ⟨hfresh s hs, hresolved s hs⟩⟩
    exact ⟨_, (compile_of_lexes hlex).mpr ⟨⟨hnamed, hfit⟩, rfl⟩⟩

/-- A function is written as it is if the counts of its subroutine fit. -/
theorem written_of_narrow {source : String} {c : Syntax.Class} {s : Subroutine}
    (hlex : Lexes source c.lexemes) (hfit : c.Fit) (hs : s ∈ c.subroutines)
    (hnarrow : c.Narrow s) : c.written s = c.function s :=
  Syntax.Class.written_eq (fun lexeme h => hlex.wellFormed lexeme (Class.subroutine_mem hs h))
    (hfit s hs) hnarrow

/-- A compiled class is the translation of the one class that the tokens of the source are the text
of: all of its code in 16 bits, and its code itself if all counts fit. -/
structure Translates (source : String) (compiled : CompiledClass) (c : Syntax.Class) : Prop where
  unique : ∀ c' : Syntax.Class, Lexes source c'.lexemes ↔ c' = c
  name : compiled.name = c.name
  code : compiled.code = Vm.render c.program
  narrow : (∀ s ∈ c.subroutines, c.Narrow s) → compiled.code = Vm.render c.code

/-- What a source compiles to is the translation of its class. -/
theorem compiles_to_translation {source : String} {compiled : CompiledClass}
    (h : compile source = .ok compiled) : ∃ c : Syntax.Class, Translates source compiled c := by
  obtain ⟨c, hlex⟩ := lexes_of_compile h
  obtain ⟨⟨-, hfit⟩, rfl⟩ := (compile_of_lexes hlex).mp h
  refine ⟨c, fun c' => ⟨fun h => ?_, ?_⟩, rfl, rfl, fun hnarrow => ?_⟩
  · exact Class.lexemes_injective (h.unique hlex)
  · rintro rfl
    exact hlex
  · have hcode : c.program = c.code :=
      List.flatMap_congr fun s hs => written_of_narrow hlex hfit hs (hnarrow s hs)
    rw [CompiledClass.code, hcode]

/-! A class with a field, and a method with a parameter, a local and a loop. -/

def counterSource : String :=
  "class Counter \x7b
    field int n;
    method int upTo(int k) \x7b
      var int i;
      let i = 0;
      while (i < k) \x7b let i = i + 1; \x7d
      return n + i - 1;
    \x7d
  \x7d"

namespace Syntax

def counterLoop : Statement :=
  .whileLoop (.mk (.var "i") (.cons .less (.var "k") .nil))
    (.cons (.letVar "i" (.mk (.var "i") (.cons .add (.integer "1") .nil))) .nil)

def counterResult : Expression :=
  .mk (.var "n") (.cons .add (.var "i") (.cons .subtract (.integer "1") .nil))

def counterMethod : Subroutine where
  kind := .method
  returnType := some .int
  name := "upTo"
  parameters := [⟨.int, "k"⟩]
  locals := [⟨.int, "i", []⟩]
  body :=
    .cons (.letVar "i" (.mk (.integer "0") .nil))
      (.cons counterLoop (.cons (.returnValue counterResult) .nil))

def counterClass : Class where
  name := "Counter"
  groups := [⟨.field, ⟨.int, "n", []⟩⟩]
  subroutines := [counterMethod]

theorem counter_narrow : counterClass.Narrow counterMethod where
  statics := by decide
  fields := by decide
  arguments := by decide
  locals := by decide
  ifs := by decide
  whiles := by decide
  passed _ _ h := by
    have hnumber : ∀ command ∈ counterClass.function counterMethod, command.number < 65536 := by
      decide
    exact hnumber _ h

end Syntax

theorem lexes_counter : Lexes counterSource counterClass.lexemes :=
  ⟨⟨.endOfFile, ⟨168, 0⟩⟩, by decide +kernel⟩

theorem compile_counter : compile counterSource = .ok ⟨"Counter", counterClass.code⟩ := by
  decide +kernel

theorem counter_compiles_to_translation :
    compile counterSource = .ok ⟨"Counter", counterClass.code⟩ ∧
      ∃ c, Translates counterSource ⟨"Counter", counterClass.code⟩ c :=
  ⟨compile_counter, compiles_to_translation compile_counter⟩

end JackCompiler
