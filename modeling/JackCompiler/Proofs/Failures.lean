import JackCompiler.Proofs.Progress
/-!
# What compiling can fail with

A descent takes what it has seen to be ahead, reads it as what it is, cuts the source where there
is text, and looks up names that it has found. So it ends in no way but those of a run: it reports
what compiling gives (`Descent.report_run`), which is a class, or an error that the source is to
blame for and that has its place in the source (`compile_faults`).
-/

namespace JackCompiler

open Descent (Course)

namespace Descent

/-- A descent that may nest its calls deep enough reports what compiling gives. -/
theorem report_run (source : String) (extra : Nat) :
    report (run (Course.ofSource source extra).depth source) = some (compile source) := by
  have hcompile := compileSource_eq source extra
  obtain ⟨_, reader, hrun, hresult, -⟩ | ⟨diagnostic, reader, hrun, hsource, hresult, -⟩ :=
    (source_meets source extra).ended
  · rw [← hresult] at hcompile
    rw [run, hrun, compile, hcompile]
    rfl
  · rw [← hresult] at hcompile
    rw [run, hrun, report, hsource, compile, hcompile]
    rfl

end Descent

/-- However deep calls may be nested beyond what the tokens of a source need, a descent through it
reports what compiling gives: it does not panic. If that is an error, then it is a lexical fault of
the source, a token that is not expected, or an identifier whose name is not declared or is declared
already. It is neither a current token that is asked for as what it is not, nor a name without a
place, as that of the hidden receiver would be: it has its location, which is that of a span inside
the source. -/
theorem compile_faults (source : String) (extra : Nat) :
    Descent.report (Descent.run (4 * (Lexer.ofSource source).scan.tokens.length + extra) source) =
        some (compile source) ∧
      ∀ error : Error, compile source = .error error → ∃ fault span,
        error = .inSource fault (some (.ofSpan source span)) ∧ Blames source fault span ∧
        span.Inside source := by
  refine ⟨Descent.report_run source extra, fun error h => ?_⟩
  obtain ⟨fault, span, herror, hblames⟩ := blames_of_compile h
  exact ⟨fault, span, herror, hblames, hblames.inside⟩

/-- A class that declares a field twice. -/
def duplicateSource : String := "class A \x7b field int n, n; \x7d"

def duplicateError : Error :=
  .inSource (.duplicateDefinition "n") (some ⟨⟨1, 24⟩, "class A \x7b field int n, n; \x7d"⟩)

theorem compile_duplicate : compile duplicateSource = .error duplicateError := by decide +kernel

theorem duplicate_compile_faults :
    compile duplicateSource = .error duplicateError ∧ ∃ fault span,
      duplicateError = .inSource fault (some (.ofSpan duplicateSource span)) ∧
      Blames duplicateSource fault span ∧ span.Inside duplicateSource :=
  ⟨compile_duplicate, (compile_faults duplicateSource 0).2 duplicateError compile_duplicate⟩

end JackCompiler
