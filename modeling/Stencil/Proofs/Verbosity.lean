import Stencil.Compile.Compiler
import Stencil.Log.Session

/-!
# Verbosity only selects among the entries of a run

Nothing that a stage does depends on the verbosity: the tracker looks at the strictness of the
settings and at their names, and protected tags at the form of their placeholders. So a run makes
the same entries at every verbosity, in whatever way it ends, and what a quieter run shows of them
can be taken from what a louder run shows.
-/

namespace Stencil

def Settings.withVerbosity (s : Settings) (verbosity : Int) : Settings := { s with verbosity }

def Compiler.withVerbosity (c : Compiler) (verbosity : Int) : Compiler :=
  { c with settings := c.settings.withVerbosity verbosity }

/-! ### Segments -/

private theorem Segment.emit_withVerbosity (s : Settings) (verbosity : Int) (segment : Segment)
    (t : Tracker) : segment.emit (s.withVerbosity verbosity) t = segment.emit s t :=
  rfl

private theorem Segment.emitAll_withVerbosity (s : Settings) (verbosity : Int)
    (segments : List Segment) (t : Tracker) :
    emitAll (s.withVerbosity verbosity) segments t = emitAll s segments t := by
  induction segments generalizing t with
  | nil => rfl
  | cons segment segments ih =>
      have hrest : (fun (fragment : Text) (t : Tracker) =>
          (emitAll (s.withVerbosity verbosity) segments t).map (fragment :: ·)) =
            fun fragment t => (emitAll s segments t).map (fragment :: ·) := by
        funext fragment t
        rw [ih]
      rw [emitAll, emitAll, emit_withVerbosity, hrest]

private theorem Stage.emitSegments_withVerbosity (s : Settings) (verbosity : Int)
    (segments : List Segment) (t : Tracker) :
    emitSegments (s.withVerbosity verbosity) segments t = emitSegments s segments t := by
  rw [emitSegments, emitSegments, Segment.emitAll_withVerbosity]
  rfl

/-! ### Stages -/

private theorem Stage.run_withVerbosity (c : Compiler) (verbosity : Int) (d : Draft) (t : Tracker)
    (stage : Stage) : stage.run (c.withVerbosity verbosity) d t = stage.run c d t := by
  cases stage with
  | trim | minify | escape | wrap => rfl
  | emit =>
      have hsettings : (c.withVerbosity verbosity).settings = c.settings.withVerbosity verbosity :=
        rfl
      simp only [run, runEmit, hsettings, emitSegments_withVerbosity]

private theorem Stage.runAll_withVerbosity (c : Compiler) (verbosity : Int) (stages : List Stage)
    (d : Draft) (t : Tracker) :
    runAll (c.withVerbosity verbosity) stages d t = runAll c stages d t := by
  induction stages generalizing d t with
  | nil => rfl
  | cons stage stages ih => simp only [runAll, run_withVerbosity, ih]

/-! ### Compilations -/

namespace Compiler

theorem run_withVerbosity (c : Compiler) (verbosity : Int) (source : Text) :
    (c.withVerbosity verbosity).run source = c.run source := by
  rw [run, run, Stage.runAll_withVerbosity]
  rfl

theorem log_compile_withVerbosity (c : Compiler) (verbosity : Int) (source : Text) :
    ((c.withVerbosity verbosity).compile source).log = Log.shown verbosity (c.run source).log := by
  rw [compile, run_withVerbosity]
  rfl

/-- Two compilations that differ in verbosity end alike and call the minifier alike. The quieter one
shows the errors of the louder one and its remarks up to the lower verbosity, in their order, which
is what a listener of that verbosity is shown of the louder log. -/
theorem compile_withVerbosity (c : Compiler) (source : Text) {v w : Int} (h : v ≤ w) :
    ((c.withVerbosity v).compile source).result = ((c.withVerbosity w).compile source).result ∧
    ((c.withVerbosity v).compile source).calls = ((c.withVerbosity w).compile source).calls ∧
    ((c.withVerbosity v).compile source).log =
      ((c.withVerbosity w).compile source).log.filter (fun
        | .error _ _ => true
        | .trace level _ => level ≤ v) ∧
    ∀ session : Log.Session, (session.connect (some (.int v))).shown?
      ((c.withVerbosity w).compile source).log = some ((c.withVerbosity v).compile source).log := by
  have hlog : ((c.withVerbosity v).compile source).log =
      Log.shown v ((c.withVerbosity w).compile source).log := by
    rw [log_compile_withVerbosity, log_compile_withVerbosity, Log.shown_shown h]
  refine ⟨?_, ?_, ?_, ?_⟩
  · change ((c.withVerbosity v).run source).result = ((c.withVerbosity w).run source).result
    rw [run_withVerbosity, run_withVerbosity]
  · change ((c.withVerbosity v).run source).calls = ((c.withVerbosity w).run source).calls
    rw [run_withVerbosity, run_withVerbosity]
  · rw [hlog]
    apply List.filter_congr
    intro entry _
    cases entry <;> rfl
  · intro session
    rw [Log.Session.shown?_connect_int, hlog]

/-- A compiler that minifies every template with a minifier that is always stopped. -/
def stopped : Compiler where
  options := { minify := true }
  minifier := .supplied fun _ _ => .error (.runtime "stopped".toList)

/-- Of a minifier that fails, a silent compilation shows the error and nothing else. -/
theorem compile_withVerbosity_silent :
    (0 : Int) ≤ 2 ∧
      ((stopped.withVerbosity 2).compile "\x7b\x7b/each\x7d\x7d".toList).log =
        [.trace 2 "Source: 9 characters, 1 line(s)".toList,
          .trace 2 "Minifying source (1 directive tags protected)...".toList,
          .error "HTML minification failed: stopped".toList (some "MinifyFailure".toList)] ∧
      ((stopped.withVerbosity 0).compile "\x7b\x7b/each\x7d\x7d".toList).log =
        [.error "HTML minification failed: stopped".toList (some "MinifyFailure".toList)] := by
  have hlevels : (0 : Int) ≤ 2 := by decide
  have hloud : ((stopped.withVerbosity 2).compile "\x7b\x7b/each\x7d\x7d".toList).log =
      [.trace 2 "Source: 9 characters, 1 line(s)".toList,
        .trace 2 "Minifying source (1 directive tags protected)...".toList,
        .error "HTML minification failed: stopped".toList (some "MinifyFailure".toList)] := by
    decide +kernel
  obtain ⟨-, -, hquiet, -⟩ :=
    compile_withVerbosity stopped "\x7b\x7b/each\x7d\x7d".toList hlevels
  refine ⟨hlevels, hloud, ?_⟩
  rw [hquiet, hloud]
  rfl

end Compiler

end Stencil
