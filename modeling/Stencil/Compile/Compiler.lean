import Stencil.Compile.Stage

/-!
# Compilation

A compiler turns the text of a template into the text of a function that renders it. Every
compilation starts from a fresh tracker, so compilations do not affect one another. If the
minifier fails, the failure is logged and the function gives the word `ERROR`; any other failure
ends the compilation.
-/

namespace Stencil

structure Compilation where
  result : Except CompileError Text
  log : Log
  calls : List Call

namespace CompileError

def minificationMessage (cause : Failure) : Text :=
  "HTML minification failed: ".toList ++ cause.message

def message : CompileError → Text
  | unbalanced cause => cause.message
  | minification cause => minificationMessage cause
  | unhandled cause => cause.message

def minificationEntry (cause : Failure) : Log.Entry :=
  .error (minificationMessage cause) (some "MinifyFailure".toList)

end CompileError

namespace Compiler

/-- The function that stands in for a template that could not be minified. -/
def errorCode (s : Settings) : Text := s.functionOpening ++ "ERROR".toList ++ functionClosing

/-- Compiles a template, with every entry that the compilation makes. -/
def run (c : Compiler) (source : Text) : Compilation :=
  let outcome := Stage.runAll c Stage.all { source } {}
  match outcome.result with
  | .ok d =>
    ⟨.ok d.code, outcome.log ++ [.trace 2 "Compilation complete".toList], outcome.calls⟩
  | .error (.minification cause) =>
    ⟨.ok (errorCode c.settings), outcome.log ++ [CompileError.minificationEntry cause],
      outcome.calls⟩
  | .error e => ⟨.error e, outcome.log, outcome.calls⟩

/-- Compiles a template, with the entries that are shown at the verbosity of the settings. -/
def compile (c : Compiler) (source : Text) : Compilation :=
  { c.run source with log := Log.shown c.settings.verbosity (c.run source).log }

end Compiler

end Stencil
