import Mathlib.Data.List.Basic
import Stencil.Compile.Compiler
import Stencil.Proofs.Nesting

/-!
# What a compilation emits

As long as every close meets the block it closes, the tracker only counts, and the code of a
segment is a function of the depth at which it stands. `Segment.codeAll` is that function, and
`Piece.codeAll` is it for the segments of pieces. A run over segments in order therefore gives the
same code under strict and permissive settings and makes no warning.
The first close that is out of order is where the settings part: strict settings stop there, with
its place in the error, and permissive settings go on after a warning.
-/

namespace Stencil

/-! ### The code of pieces in order -/

def Directive.code (s : Settings) (depth : Nat) (d : Directive) : Text :=
  match d.kind with
  | .each =>
    "'+".toList ++ s.mapMethod ++ '(' :: s.reference depth d.expression ++ ", function(".toList
      ++ s.model (depth + 1) ++ ',' :: s.key (depth + 1) ++ ") \x7b return '".toList
  | .eachEnd => "';\x7d).join('')+'".toList
  | .hide => "'+(!(".toList ++ s.reference depth d.expression ++ ")?('".toList
  | .hideEnd => "'):(''))+'".toList
  | .selectedIf => s.attributeIf depth d.expression "selected"
  | .checkedIf => s.attributeIf depth d.expression "checked"
  | .partialCall =>
    "'+".toList ++ s.partialName ++ '.' :: d.expression ++ '(' :: s.model depth ++ ")+'".toList
  | .key => "'+".toList ++ s.key depth ++ "+'".toList
  | .interpolation => "'+".toList ++ s.reference depth d.expression ++ "+'".toList

def Mark.depthAfter (depth : Nat) : Mark → Nat
  | opens .each => depth + 1
  | closes .each => depth - 1
  | _ => depth

theorem Mark.depthAfter_closes_opens (depth : Nat) (b : Block) :
    depthAfter (depthAfter depth (opens b)) (closes b) = depth := by
  cases b <;> rfl

/-- Blocks that are balanced leave the depth as it was. -/
theorem WellNested.foldl_depthAfter {w : List Mark} (h : WellNested w) (depth : Nat) :
    w.foldl Mark.depthAfter depth = depth := by
  induction h generalizing depth with
  | nil => rfl
  | block b _ _ ihinner ihrest =>
      rw [List.foldl_cons, List.foldl_append, ihinner, List.foldl_cons,
        Mark.depthAfter_closes_opens, ihrest]

namespace Segment

/-- What a segment does to the blocks around it. -/
def mark? : Segment → Option Mark
  | literal _ _ => none
  | directive d _ _ => d.kind.mark?

def marks (segments : List Segment) : List Mark := segments.filterMap mark?

def code (s : Settings) (depth : Nat) : Segment → Text
  | literal t _ => t
  | directive d _ _ => d.code s depth

def depthAfter (depth : Nat) (segment : Segment) : Nat :=
  segment.mark?.toList.foldl Mark.depthAfter depth

/-- The code of each segment, the first of which stands at the given depth. -/
def codeAll (s : Settings) : Nat → List Segment → Fragments
  | _, [] => []
  | depth, segment :: segments =>
    segment.code s depth :: codeAll s (segment.depthAfter depth) segments

theorem marks_cons (segment : Segment) (segments : List Segment) :
    marks (segment :: segments) = segment.mark?.toList ++ marks segments := by
  rw [marks, List.filterMap_cons]
  cases segment.mark? <;> rfl

theorem marks_append (before after : List Segment) :
    marks (before ++ after) = marks before ++ marks after :=
  List.filterMap_append

theorem nestAll_marks_cons {blocks next : List Block} {segment : Segment}
    {segments : List Segment} :
    Mark.nestAll blocks (marks (segment :: segments)) = some next ↔
      ∃ middle, Mark.nestAll blocks segment.mark?.toList = some middle ∧
        Mark.nestAll middle (marks segments) = some next := by
  rw [marks_cons, Mark.nestAll_append, Option.bind_eq_some_iff]

end Segment

namespace Piece

/-- The code of a piece that stands at a depth. -/
def code (s : Settings) (depth : Nat) : Piece → Text
  | literal t => t
  | tag inner => (Directive.ofInner inner).code s depth

def depthAfter (depth : Nat) (p : Piece) : Nat := (marks [p]).foldl Mark.depthAfter depth

/-- The code of each piece, the first of which stands at the given depth. -/
def codeAll (s : Settings) : Nat → List Piece → Fragments
  | _, [] => []
  | depth, p :: ps => p.code s depth :: codeAll s (p.depthAfter depth) ps

/-- The pieces that a template is compiled from, unless it is minified. -/
def ofSource (source : Text) : List Piece := ofText (Text.escape (Text.trim source))

theorem marks_cons (p : Piece) (ps : List Piece) : marks (p :: ps) = marks [p] ++ marks ps := by
  rw [marks, marks, marks, ← List.filterMap_append, List.singleton_append]

theorem marks_append (ps qs : List Piece) : marks (ps ++ qs) = marks ps ++ marks qs :=
  List.filterMap_append

theorem nestAll_marks_cons {blocks next : List Block} {p : Piece} {ps : List Piece} :
    Mark.nestAll blocks (marks (p :: ps)) = some next ↔
      ∃ middle, Mark.nestAll blocks (marks [p]) = some middle ∧
        Mark.nestAll middle (marks ps) = some next := by
  rw [marks_cons, Mark.nestAll_append, Option.bind_eq_some_iff]

theorem nestAll_marks_append {blocks next : List Block} {ps qs : List Piece} :
    Mark.nestAll blocks (marks (ps ++ qs)) = some next ↔
      ∃ middle, Mark.nestAll blocks (marks ps) = some middle ∧
        Mark.nestAll middle (marks qs) = some next := by
  rw [marks_append, Mark.nestAll_append, Option.bind_eq_some_iff]

theorem codeAll_append (s : Settings) (depth : Nat) (ps qs : List Piece) :
    codeAll s depth (ps ++ qs)
      = codeAll s depth ps ++ codeAll s ((marks ps).foldl Mark.depthAfter depth) qs := by
  induction ps generalizing depth with
  | nil => rfl
  | cons p ps ih =>
      rw [List.cons_append, codeAll, ih, marks_cons, List.foldl_append, codeAll, List.cons_append]
      rfl

theorem marks_tag (inner : Text) :
    marks [tag inner] = (Directive.ofInner inner).kind.mark?.toList := by
  rw [marks, List.filterMap_cons, mark?]
  cases (Directive.ofInner inner).kind.mark? <;> rfl

end Piece

namespace Segment

theorem toList_mark?_ofPiece (place : Nat) (p : Piece) :
    (ofPiece place p).mark?.toList = Piece.marks [p] := by
  match p with
  | .literal _ => rfl
  | .tag inner => exact (Piece.marks_tag inner).symm

theorem marks_locate (place : Nat) (ps : List Piece) : marks (locate place ps) = Piece.marks ps := by
  induction ps generalizing place with
  | nil => rfl
  | cons p ps ih => rw [locate, marks_cons, ih, toList_mark?_ofPiece, ← Piece.marks_cons]

theorem codeAll_locate (s : Settings) (depth place : Nat) (ps : List Piece) :
    codeAll s depth (locate place ps) = Piece.codeAll s depth ps := by
  induction ps generalizing depth place with
  | nil => rfl
  | cons p ps ih =>
      have hcode : (ofPiece place p).code s depth = p.code s depth := by cases p <;> rfl
      rw [locate, codeAll, ih, hcode, depthAfter, toList_mark?_ofPiece]
      rfl

end Segment

theorem Directive.code_withStrict (s : Settings) (isStrict : Bool) (depth : Nat) (d : Directive) :
    d.code { s with strictScopes := isStrict } depth = d.code s depth := by
  obtain ⟨kind, e⟩ := d
  cases kind <;> rfl

theorem Piece.codeAll_withStrict (s : Settings) (isStrict : Bool) (depth : Nat) (ps : List Piece) :
    codeAll { s with strictScopes := isStrict } depth ps = codeAll s depth ps := by
  induction ps generalizing depth with
  | nil => rfl
  | cons p ps ih =>
      rw [codeAll, codeAll, ih]
      match p with
      | literal _ => rfl
      | tag inner => rw [code, code, Directive.code_withStrict]

/-! ### Warnings -/

namespace Log.Entry

def message : Entry → Text
  | trace _ message => message
  | error message _ => message

def IsWarning (entry : Entry) : Prop := "Warning:".toList <+: entry.message

theorem not_isWarning_of_head? {entry : Entry} (h : entry.message.head? ≠ some 'W') :
    ¬entry.IsWarning := by
  rintro ⟨rest, hrest⟩
  exact h (by simp [← hrest])

end Log.Entry

private theorem Directive.not_isWarning_remark (d : Directive) (fragment : Text) :
    ¬(d.remark fragment).IsWarning := by
  have hname : d.kind.name ≠ [] ∧ d.kind.name.head? ≠ some 'W' := by cases d.kind <;> decide
  refine Log.Entry.not_isWarning_of_head? ?_
  rw [remark, Log.Entry.message, List.append_assoc, List.append_assoc, List.append_assoc,
    List.head?_append_of_ne_nil _ hname.1]
  exact hname.2

private theorem Tracker.not_isWarning_moved (word : String) (depth : Nat) :
    ¬(moved word depth).IsWarning :=
  Log.Entry.not_isWarning_of_head? (by simp [moved, Log.Entry.message])

theorem Tracker.isWarning_warning (t : Tracker) (b : Block) (cause : Imbalance) :
    ∃ message, warning t b cause = .trace 2 message ∧ (warning t b cause).IsWarning := by
  cases cause <;> exact ⟨_, rfl, by simp [warning, Log.Entry.IsWarning, Log.Entry.message]⟩

theorem Tracker.isWarning_unclosedWarning (t : Tracker) :
    ∃ message, unclosedWarning t = .trace 2 message ∧ (unclosedWarning t).IsWarning :=
  ⟨_, rfl, by simp [unclosedWarning, Log.Entry.IsWarning, Log.Entry.message]⟩

/-! ### Steps one after another -/

namespace Step

variable {α β γ : Type}

theorem map_id (s : Step α) : s.map id = s := by
  obtain ⟨result, t, moments⟩ := s
  cases result <;> rfl

theorem map_map (s : Step α) (f : α → β) (g : β → γ) : (s.map f).map g = s.map (g ∘ f) := by
  obtain ⟨result, t, moments⟩ := s
  cases result <;> rfl

theorem map_andThen (s : Step α) (f : α → β) (next : β → Tracker → Step γ) :
    (s.map f).andThen next = s.andThen fun a => next (f a) := by
  obtain ⟨result, t, moments⟩ := s
  cases result <;> rfl

theorem andThen_map (s : Step α) (next : α → Tracker → Step β) (f : β → γ) :
    (s.andThen next).map f = s.andThen fun a t => (next a t).map f := by
  obtain ⟨result, t, moments⟩ := s
  cases result <;> rfl

theorem andThen_assoc (s : Step α) (next : α → Tracker → Step β) (last : β → Tracker → Step γ) :
    (s.andThen next).andThen last = s.andThen fun a t => (next a t).andThen last := by
  obtain ⟨result, t, moments⟩ := s
  match result with
  | .error _ => rfl
  | .ok a =>
      rw [andThen_ok, andThen_ok]
      match hnext : next a t with
      | ⟨.error _, u, later⟩ => rfl
      | ⟨.ok b, u, later⟩ => simp only [andThen_ok, List.append_assoc]

end Step

theorem Segment.emitAll_append (s : Settings) (before after : List Segment) (t : Tracker) :
    emitAll s (before ++ after) t
      = (emitAll s before t).andThen fun fs t => (emitAll s after t).map (fs ++ ·) := by
  induction before generalizing t with
  | nil =>
      rw [List.nil_append, emitAll, Step.andThen_ok]
      exact (Step.map_id _).symm
  | cons segment before ih =>
      simp only [List.cons_append, emitAll, Step.andThen_assoc, Step.map_andThen, ih,
        Step.andThen_map, Step.map_map, Function.comp_def]

theorem Segment.locate_append (place : Nat) (ps qs : List Piece) :
    locate place (ps ++ qs)
      = locate place ps ++ locate (place + (ps.flatMap Piece.text).length) qs := by
  induction ps generalizing place with
  | nil => rfl
  | cons p ps ih =>
      rw [List.cons_append, locate, ih, locate, List.flatMap_cons, List.length_append,
        List.cons_append, Nat.add_assoc]

/-- A segment stands where the pieces before it end. -/
theorem Segment.getElem?_locate (place : Nat) (ps : List Piece) (n : Nat) :
    (locate place ps)[n]? =
      ps[n]?.map (ofPiece (place + ((ps.take n).flatMap Piece.text).length)) := by
  induction ps generalizing place n with
  | nil => rfl
  | cons p ps ih =>
      cases n with
      | zero => rfl
      | succ n =>
          rw [locate, List.getElem?_cons_succ, ih, List.getElem?_cons_succ, List.take_succ_cons,
            List.flatMap_cons, List.length_append, Nat.add_assoc]

/-! ### Steps that succeed without a warning -/

/-- An operation gives a value and a tracker, and makes no warning. -/
structure Step.Yields {α : Type} (s : Step α) (a : α) (t : Tracker) : Prop where
  result_eq : s.result = .ok a
  tracker_eq : s.tracker = t
  quiet : ∀ entry ∈ s.log, ¬entry.IsWarning

namespace Step.Yields

variable {α β : Type} {s : Step α} {a : α} {t u : Tracker}

theorem mk_nil : Yields ⟨.ok a, t, []⟩ a t := ⟨rfl, rfl, by simp⟩

theorem map (h : s.Yields a t) (f : α → β) : (s.map f).Yields (f a) t :=
  ⟨by rw [Step.map, h.result_eq]; rfl, h.tracker_eq, h.quiet⟩

theorem result_andThen (h : s.Yields a t) (next : α → Tracker → Step β) :
    (s.andThen next).result = (next a t).result := by
  obtain ⟨result, tracker, moments⟩ := s
  obtain ⟨rfl, rfl, -⟩ := h
  rfl

theorem mem_log_andThen (h : s.Yields a t) {next : α → Tracker → Step β} {entry : Log.Entry}
    (hentry : entry ∈ (next a t).log) : entry ∈ (s.andThen next).log := by
  obtain ⟨result, tracker, moments⟩ := s
  obtain ⟨rfl, rfl, -⟩ := h
  rw [andThen_ok, log_mk, List.map_append]
  exact List.mem_append_right _ hentry

theorem andThen {next : α → Tracker → Step β} {b : β} (h : s.Yields a t)
    (hnext : (next a t).Yields b u) : (s.andThen next).Yields b u := by
  obtain ⟨result, tracker, moments⟩ := s
  obtain ⟨rfl, rfl, hquiet⟩ := h
  refine ⟨hnext.result_eq, hnext.tracker_eq, fun entry hentry => ?_⟩
  rw [andThen_ok, log_mk, List.map_append, List.mem_append] at hentry
  rcases hentry with hfirst | hrest
  · exact hquiet entry hfirst
  · exact hnext.quiet entry hrest

end Step.Yields

/-! ### One directive -/

namespace Tracker

variable {s : Settings} {t : Tracker} {b : Block} {position : Option Int}

theorem imbalance?_eq_none_iff {blocks : List Block} :
    imbalance? b blocks = none ↔ blocks.head? = some b := by
  match blocks with
  | [] => simp [imbalance?]
  | innermost :: outer =>
      rw [imbalance?, List.head?_cons, Option.some.injEq]
      split
      · next h => simp [h]
      · next h => split <;> simp [h]

/-- A close that is in order removes the block on top and says nothing. -/
theorem close_of_head? (h : t.blocks.head? = some b) :
    close s b position t = ⟨.ok (), { t with blocks := t.blocks.tail }, []⟩ := by
  rw [close, imbalance?_eq_none_iff.2 h]

theorem exit_of_head? (h : t.blocks.head? = some .each) :
    exit s position t =
      ⟨.ok (s.model (t.depth - 1)), ⟨t.depth - 1, t.blocks.tail⟩,
        [⟨moved "exit" (t.depth - 1), ⟨t.depth - 1, t.blocks.tail⟩⟩]⟩ := by
  rw [exit, close_of_head? h]
  rfl

theorem close_strict (hs : s.strictScopes = true) (h : t.blocks.head? ≠ some b) :
    ∃ cause, close s b position t = ⟨.error ⟨cause, position⟩, t, []⟩ := by
  obtain ⟨cause, hcause⟩ := Option.ne_none_iff_exists'.1 (mt imbalance?_eq_none_iff.1 h)
  exact ⟨cause, by rw [close, hcause]; simp [hs]⟩

theorem close_permissive (hs : s.strictScopes = false) (h : t.blocks.head? ≠ some b) :
    ∃ cause, close s b position t =
      ⟨.ok (), { t with blocks := t.blocks.erase b },
        [⟨warning t b cause, { t with blocks := t.blocks.erase b }⟩]⟩ := by
  obtain ⟨cause, hcause⟩ := Option.ne_none_iff_exists'.1 (mt imbalance?_eq_none_iff.1 h)
  exact ⟨cause, by rw [close, hcause]; simp [hs]⟩

end Tracker

theorem Mark.nestAll_singleton_closes {b : Block} {before after : List Block} :
    nestAll before [closes b] = some after ↔ before.head? = some b ∧ after = before.tail := by
  rw [nestAll_cons, nest]
  split
  · next h => simp [h, eq_comm]
  · next h => simp [h]

namespace Directive

variable {s : Settings} {t : Tracker} {position : Option Int} {blocks : List Block}

theorem fragment_yields {d : Directive}
    (h : Mark.nestAll t.blocks d.kind.mark?.toList = some blocks) :
    (d.fragment s position t).Yields (d.code s t.depth)
      ⟨d.kind.mark?.toList.foldl Mark.depthAfter t.depth, blocks⟩ := by
  obtain ⟨kind, e⟩ := d
  cases kind with
  | each =>
      obtain rfl : .each :: t.blocks = blocks := Option.some.inj h
      refine ⟨rfl, rfl, fun entry hentry => ?_⟩
      obtain rfl := List.mem_singleton.1 hentry
      exact Tracker.not_isWarning_moved "enter" (t.depth + 1)
  | eachEnd =>
      obtain ⟨hhead, rfl⟩ := Mark.nestAll_singleton_closes.1 h
      have hexit : (Tracker.exit s position t).Yields (s.model (t.depth - 1))
          ⟨t.depth - 1, t.blocks.tail⟩ := by
        rw [Tracker.exit_of_head? hhead]
        refine ⟨rfl, rfl, fun entry hentry => ?_⟩
        obtain rfl := List.mem_singleton.1 hentry
        exact Tracker.not_isWarning_moved "exit" (t.depth - 1)
      exact hexit.map _
  | hide =>
      obtain rfl : .hide :: t.blocks = blocks := Option.some.inj h
      exact Step.Yields.mk_nil.map _
  | hideEnd =>
      obtain ⟨hhead, rfl⟩ := Mark.nestAll_singleton_closes.1 h
      have hclose : (Tracker.hideClose s position t).Yields () ⟨t.depth, t.blocks.tail⟩ := by
        rw [Tracker.hideClose, Tracker.close_of_head? hhead]
        exact .mk_nil
      exact hclose.map _
  | selectedIf | checkedIf | partialCall | key | interpolation =>
      obtain rfl : t.blocks = blocks := Option.some.inj h
      exact .mk_nil

/-- A directive in order gives its code, whatever the settings say about balance. -/
theorem emit_yields {d : Directive} (h : Mark.nestAll t.blocks d.kind.mark?.toList = some blocks) :
    (d.emit s position t).Yields (d.code s t.depth)
      ⟨d.kind.mark?.toList.foldl Mark.depthAfter t.depth, blocks⟩ := by
  refine (fragment_yields h).andThen ⟨rfl, rfl, fun entry hentry => ?_⟩
  obtain rfl := List.mem_singleton.1 hentry
  exact not_isWarning_remark d _

end Directive

/-! ### Segments in order -/

namespace Segment

variable {s : Settings} {t : Tracker} {blocks : List Block}

theorem emit_yields {segment : Segment}
    (h : Mark.nestAll t.blocks segment.mark?.toList = some blocks) :
    (segment.emit s t).Yields (segment.code s t.depth) ⟨segment.depthAfter t.depth, blocks⟩ := by
  match segment with
  | literal text _ =>
      obtain rfl : t.blocks = blocks := Option.some.inj h
      exact .mk_nil
  | directive d _ _ => exact Directive.emit_yields h

theorem emitAll_yields {segments : List Segment}
    (h : Mark.nestAll t.blocks (marks segments) = some blocks) :
    (emitAll s segments t).Yields (codeAll s t.depth segments)
      ⟨(marks segments).foldl Mark.depthAfter t.depth, blocks⟩ := by
  induction segments generalizing t with
  | nil =>
      obtain rfl : t.blocks = blocks := Option.some.inj h
      exact .mk_nil
  | cons segment segments ih =>
      obtain ⟨next, hfirst, hrest⟩ := nestAll_marks_cons.1 h
      rw [marks_cons, List.foldl_append]
      exact (emit_yields hfirst).andThen ((ih hrest).map _)

end Segment

namespace Piece

variable {s : Settings} {t : Tracker} {blocks : List Block}

theorem emitAll_yields {ps : List Piece} (place : Nat)
    (h : Mark.nestAll t.blocks (marks ps) = some blocks) :
    (Segment.emitAll s (Segment.locate place ps) t).Yields (codeAll s t.depth ps)
      ⟨(marks ps).foldl Mark.depthAfter t.depth, blocks⟩ := by
  rw [← Segment.marks_locate place] at h ⊢
  rw [← Segment.codeAll_locate s t.depth place]
  exact Segment.emitAll_yields h

theorem exists_fault {ps : List Piece} (h : Mark.nestAll blocks (marks ps) = none) :
    ∃ before inner after b stack, ps = before ++ tag inner :: after ∧
      (Directive.ofInner inner).kind.mark? = some (.closes b) ∧
      Mark.nestAll blocks (marks before) = some stack ∧ stack.head? ≠ some b := by
  induction ps generalizing blocks with
  | nil => cases h
  | cons p ps ih =>
      rw [marks_cons, Mark.nestAll_append] at h
      match hp : Mark.nestAll blocks (marks [p]) with
      | some next =>
          rw [hp, Option.bind_some] at h
          obtain ⟨before, inner, after, b, stack, rfl, hmark, hstack, hne⟩ := ih h
          exact ⟨p :: before, inner, after, b, stack, rfl, hmark,
            nestAll_marks_cons.2 ⟨next, hp, hstack⟩, hne⟩
      | none =>
          match p with
          | literal _ => cases hp
          | tag inner =>
              rw [marks_tag] at hp
              match hmark : (Directive.ofInner inner).kind.mark? with
              | none => rw [hmark] at hp; cases hp
              | some (.opens _) => rw [hmark] at hp; cases hp
              | some (.closes b) =>
                  rw [hmark] at hp
                  refine ⟨[], inner, ps, b, blocks, rfl, hmark, rfl, fun hhead => ?_⟩
                  rw [Option.toList_some, Mark.nestAll_singleton_closes.2 ⟨hhead, rfl⟩] at hp
                  cases hp

end Piece

/-! ### Compilation without minification -/

/-- A minifier that gives every text back as it is. -/
def Minifier.keep : Minifier := .supplied fun text _ => .ok (.string text)

namespace Compiler

variable {c : Compiler} {source : Text}

/-- The step that turns a template into code, if it is not minified. -/
def emission (c : Compiler) (source : Text) : Step Fragments :=
  Stage.emitSegments c.settings (Segment.locate 0 (Piece.ofSource source)) {}

def wrapped (c : Compiler) (body : Text) : Text :=
  c.settings.functionOpening ++ body ++ functionClosing

end Compiler

namespace Stage

variable {c : Compiler} {stage : Stage} {stages : List Stage} {d next : Draft} {t u : Tracker}
  {log : Log} {calls : List Call}

theorem runAll_of_ok (h : stage.run c d t = ⟨.ok next, u, log, calls⟩) :
    runAll c (stage :: stages) d t =
      ⟨(runAll c stages next u).result, (runAll c stages next u).tracker,
        log ++ (runAll c stages next u).log, calls ++ (runAll c stages next u).calls⟩ := by
  rw [runAll, h]

theorem runAll_of_error {e : CompileError} (h : stage.run c d t = ⟨.error e, u, log, calls⟩) :
    runAll c (stage :: stages) d t = ⟨.error e, u, log, calls⟩ := by
  rw [runAll, h]

theorem emitSegments_yields {s : Settings} {ps : List Piece} (hnested : WellNested (Piece.marks ps)) :
    (emitSegments s (Segment.locate 0 ps) {}).Yields (Piece.codeAll s 0 ps)
      ⟨(Piece.marks ps).foldl Mark.depthAfter 0, []⟩ := by
  rw [emitSegments]
  refine (Piece.emitAll_yields (t := {}) 0 (hnested.nestAll_eq [])).andThen ?_
  rw [Tracker.checkBalance, if_pos rfl]
  exact Step.Yields.mk_nil.map _

private theorem run_minify_eq (h : c.options.wantsMinify d.source = false) :
    minify.run c d t = ⟨.ok d, t, [], []⟩ := by
  rw [run, runMinify, h]
  rfl

end Stage

namespace Compiler

open Stage

variable {c : Compiler} {source : Text}

/-- What a compilation without minification reports, other than what the emission does. -/
def afterEmission (source : Text) : Log :=
  [emitRemark (Segment.scan (Text.escape (Text.trim source))).length,
    .trace 2 "Compilation complete".toList]

private theorem runAll_eq (h : c.options.wantsMinify (Text.trim source) = false) :
    runAll c Stage.all { source } {} =
      match (c.emission source).result with
      | .error e =>
        ⟨.error (.unbalanced e), (c.emission source).tracker,
          sourceRemark (Text.trim source) :: (c.emission source).log, []⟩
      | .ok fragments =>
        ⟨.ok
          { source := Text.trim source
            escaped := Text.escape (Text.trim source)
            segments := Segment.scan (Text.escape (Text.trim source))
            fragments := fragments
            body := fragments.code
            code := c.wrapped fragments.code }, (c.emission source).tracker,
          sourceRemark (Text.trim source) :: ((c.emission source).log
            ++ [emitRemark (Segment.scan (Text.escape (Text.trim source))).length]), []⟩ := by
  have htrim : trim.run c { source } {} =
      ⟨.ok { source := Text.trim source }, {}, [sourceRemark (Text.trim source)], []⟩ := rfl
  have hminify : minify.run c { source := Text.trim source } {} =
      ⟨.ok { source := Text.trim source }, {}, [], []⟩ := run_minify_eq h
  have hescape : escape.run c { source := Text.trim source } {} =
      ⟨.ok { source := Text.trim source, escaped := Text.escape (Text.trim source) }, {}, [], []⟩ :=
    rfl
  have hemit : emit.run c
      { source := Text.trim source, escaped := Text.escape (Text.trim source) } {} =
        match (c.emission source).result with
        | .error cause =>
          ⟨.error (.unbalanced cause), (c.emission source).tracker, (c.emission source).log, []⟩
        | .ok fragments =>
          ⟨.ok
            { source := Text.trim source
              escaped := Text.escape (Text.trim source)
              segments := Segment.scan (Text.escape (Text.trim source))
              fragments := fragments
              body := fragments.code }, (c.emission source).tracker,
            (c.emission source).log
              ++ [emitRemark (Segment.scan (Text.escape (Text.trim source))).length], []⟩ := rfl
  rw [Stage.all, runAll_of_ok htrim, runAll_of_ok hminify, runAll_of_ok hescape]
  match hstep : (c.emission source).result with
  | .error e =>
      rw [hstep] at hemit
      rw [runAll_of_error hemit]
      rfl
  | .ok fragments =>
      rw [hstep] at hemit
      rw [runAll_of_ok hemit, runAll_of_ok rfl, runAll]
      simp [wrapped]

private theorem run_eq (h : c.options.wantsMinify (Text.trim source) = false) :
    c.run source =
      match (c.emission source).result with
      | .error e =>
        ⟨.error (.unbalanced e), sourceRemark (Text.trim source) :: (c.emission source).log, []⟩
      | .ok fragments =>
        ⟨.ok (c.wrapped fragments.code), sourceRemark (Text.trim source) ::
          ((c.emission source).log ++ afterEmission source), []⟩ := by
  rw [run, runAll_eq h]
  match (c.emission source).result with
  | .error e => rfl
  | .ok fragments => simp [afterEmission]

theorem result_compile (h : c.options.wantsMinify (Text.trim source) = false) :
    (c.compile source).result =
      match (c.emission source).result with
      | .error e => .error (.unbalanced e)
      | .ok fragments => .ok (c.wrapped fragments.code) := by
  rw [compile, run_eq h]
  match (c.emission source).result with
  | .error _ | .ok _ => rfl

/-- The log of a compilation has every entry of the emission that is shown, and no other warning. -/
theorem mem_log_compile (h : c.options.wantsMinify (Text.trim source) = false) {entry : Log.Entry}
    (hwarning : entry.IsWarning) :
    entry ∈ (c.compile source).log ↔
      entry ∈ (c.emission source).log ∧
        entry.isShown (fun level => level ≤ c.settings.verbosity) = true := by
  have hsource : entry ≠ sourceRemark (Text.trim source) := by
    rintro rfl
    exact Log.Entry.not_isWarning_of_head? (by simp [sourceRemark, Log.Entry.message]) hwarning
  have hafter : entry ∉ afterEmission source := by
    intro hmem
    simp only [afterEmission, List.mem_cons, List.not_mem_nil, or_false] at hmem
    rcases hmem with rfl | rfl
    · exact Log.Entry.not_isWarning_of_head? (by simp [emitRemark, Log.Entry.message]) hwarning
    · exact Log.Entry.not_isWarning_of_head? (by simp [Log.Entry.message]) hwarning
  rw [compile, run_eq h, Log.shown, List.mem_filter]
  split <;> simp [hsource, hafter]

theorem emission_yields (hnested : WellNested (Piece.marks (Piece.ofSource source))) :
    (c.emission source).Yields (Piece.codeAll c.settings 0 (Piece.ofSource source))
      ⟨(Piece.marks (Piece.ofSource source)).foldl Mark.depthAfter 0, []⟩ :=
  emitSegments_yields hnested

theorem result_compile_of_wellNested (h : c.options.wantsMinify (Text.trim source) = false)
    (hnested : WellNested (Piece.marks (Piece.ofSource source))) :
    (c.compile source).result =
      .ok (c.wrapped (Piece.codeAll c.settings 0 (Piece.ofSource source)).code) := by
  rw [result_compile h, (emission_yields hnested).result_eq]

end Compiler

end Stencil
