import Stencil.Html.Minify
import Stencil.Options.Read
import Stencil.Scope.Emit

/-!
# Stages of a compilation

A template is compiled in five stages: it is trimmed, minified if the options ask for it, escaped,
turned into code tag by tag, and wrapped into a function. Each stage adds to the state that it is
given. A stage that fails adds nothing to the state, but the tracker keeps what was opened and
closed up to the failure.
-/

namespace Stencil

structure Compiler where
  options : Options := {}
  settings : Settings := {}
  minifier : Minifier

inductive CompileError where
  | unbalanced (cause : Unbalanced)
  | minification (cause : Failure)
  /-- A failure that is not handled: an interruption, or minified text that cannot be restored. -/
  | unhandled (cause : Failure)

/-- What is known of a template so far. -/
structure Draft where
  source : Text := []
  /-- The template in the form in which it stands between quotes. -/
  escaped : Text := []
  /-- The segments of the escaped template. -/
  segments : List Segment := []
  fragments : Fragments := []
  /-- The code of all segments. -/
  body : Text := []
  /-- The code of the function. -/
  code : Text := []

structure Outcome where
  result : Except CompileError Draft
  tracker : Tracker
  log : Log := []
  calls : List Call := []

def Settings.functionOpening (s : Settings) : Text :=
  "function(".toList ++ s.model 0 ++ ")\x7breturn '".toList

def functionClosing : Text := "';\x7d".toList

inductive Stage where
  | trim
  | minify
  | escape
  | emit
  | wrap
deriving DecidableEq, Repr

namespace Stage

def all : List Stage := [trim, minify, escape, emit, wrap]

def sourceRemark (source : Text) : Log.Entry :=
  .trace 2 ("Source: ".toList ++ Text.ofNat source.length ++ " characters, ".toList
    ++ Text.ofNat (Text.lineCount source) ++ " line(s)".toList)

def runTrim (d : Draft) (t : Tracker) : Outcome :=
  let source := Text.trim d.source
  ⟨.ok { d with source }, t, [sourceRemark source], []⟩

/-- The remark that a number of tags was protected. -/
def minifyRemark (count : Nat) : Log.Entry :=
  .trace 2 ("Minifying source (".toList ++ Text.ofNat count
    ++ " directive tags protected)...".toList)

/-- A failure of the minifier, which is handled unless it is an interruption. -/
def minifierError (cause : Failure) : CompileError :=
  if cause.isInterrupt then .unhandled cause else .minification cause

/-- Minifies the template, with its tags protected, if the options ask for it. -/
def runMinify (c : Compiler) (d : Draft) (t : Tracker) : Outcome :=
  if c.options.wantsMinify d.source then
    let hidden := c.settings.tagPlaceholders.protectTags d.source
    let log := [minifyRemark hidden.kept.length]
    let reply := c.minifier.run hidden.text c.options.html.toObject
    match reply.result with
    | .error cause => ⟨.error (minifierError cause), t, log, reply.calls⟩
    | .ok value =>
      match c.settings.tagPlaceholders.restoreValue hidden.kept value with
      | .error cause => ⟨.error (.unhandled cause), t, log, reply.calls⟩
      | .ok source => ⟨.ok { d with source }, t, log, reply.calls⟩
  else ⟨.ok d, t, [], []⟩

def runEscape (d : Draft) (t : Tracker) : Outcome :=
  ⟨.ok { d with escaped := Text.escape d.source }, t, [], []⟩

def emitRemark (count : Nat) : Log.Entry :=
  .trace 2 ("Translated ".toList ++ Text.ofNat count ++ " segments".toList)

/-- The code of each segment, once the blocks are found to be balanced. -/
def emitSegments (s : Settings) (segments : List Segment) (t : Tracker) : Step Fragments :=
  (Segment.emitAll s segments t).andThen fun fragments t =>
    (Tracker.checkBalance s t).map fun _ => fragments

def runEmit (c : Compiler) (d : Draft) (t : Tracker) : Outcome :=
  let segments := Segment.scan d.escaped
  let step := emitSegments c.settings segments t
  match step.result with
  | .error cause => ⟨.error (.unbalanced cause), step.tracker, step.log, []⟩
  | .ok fragments =>
    ⟨.ok { d with segments, fragments, body := fragments.code }, step.tracker,
      step.log ++ [emitRemark segments.length], []⟩

def runWrap (c : Compiler) (d : Draft) (t : Tracker) : Outcome :=
  ⟨.ok { d with code := c.settings.functionOpening ++ d.body ++ functionClosing }, t, [], []⟩

def run (c : Compiler) (d : Draft) (t : Tracker) : Stage → Outcome
  | trim => runTrim d t
  | minify => runMinify c d t
  | escape => runEscape d t
  | emit => runEmit c d t
  | wrap => runWrap c d t

/-- Runs stages in order, up to the first failure. -/
def runAll (c : Compiler) : List Stage → Draft → Tracker → Outcome
  | [], d, t => ⟨.ok d, t, [], []⟩
  | stage :: stages, d, t =>
    let first := stage.run c d t
    match first.result with
    | .error e => ⟨.error e, first.tracker, first.log, first.calls⟩
    | .ok d =>
      let rest := runAll c stages d first.tracker
      ⟨rest.result, rest.tracker, first.log ++ rest.log, first.calls ++ rest.calls⟩

end Stage

end Stencil
