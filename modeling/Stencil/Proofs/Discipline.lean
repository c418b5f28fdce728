import Stencil.Proofs.Pieces
import Stencil.Proofs.Tracking

/-!
# Well nested segments leave the tracker as it was

A tracker need not start empty: the blocks that are open already stay below those that segments open
and close. As long as the closes of the segments meet the blocks opened by them, each operation
works on the part of the stack above the start, the depth moves with the each blocks in that part,
and what is below is never read. So a well nested run ends where it began. The stage that emits the
segments therefore gives the same when it is run again with the tracker that it leaves behind.
-/

namespace Stencil

/-! ### The stack above a start -/

namespace Mark

variable {m : Mark} {w : List Mark} {b : Block} {blocks next : List Block}

theorem nest_closes_eq_some_iff : nest blocks (closes b) = some next ↔ blocks = b :: next := by
  rw [nest]
  cases blocks with
  | nil => simp
  | cons c blocks => simp

private theorem nest_append_outer (h : nest blocks m = some next) (outer : List Block) :
    nest (blocks ++ outer) m = some (next ++ outer) := by
  match m with
  | opens b =>
      obtain rfl := Option.some.inj h
      rfl
  | closes b =>
      obtain rfl := nest_closes_eq_some_iff.1 h
      exact nest_closes_eq_some_iff.2 rfl

private theorem depthAfter_of_nest (h : nest blocks m = some next) (depth : Nat) :
    m.depthAfter (depth + blocks.count .each) = depth + next.count .each := by
  match m with
  | opens b =>
      obtain rfl := Option.some.inj h
      cases b <;> simp [depthAfter, Nat.add_assoc]
  | closes b =>
      obtain rfl := nest_closes_eq_some_iff.1 h
      cases b <;> simp [depthAfter, ← Nat.add_assoc]

theorem nestAll_append_outer (h : nestAll blocks w = some next) (outer : List Block) :
    nestAll (blocks ++ outer) w = some (next ++ outer) := by
  induction w generalizing blocks with
  | nil =>
      obtain rfl := Option.some.inj h
      rfl
  | cons m w ih =>
      rw [nestAll_cons] at h ⊢
      obtain ⟨middle, hm, hw⟩ := Option.bind_eq_some_iff.1 h
      rw [nest_append_outer hm outer]
      exact ih hw

/-- The depth above a start is the number of each blocks that were opened there and not closed. -/
theorem foldl_depthAfter_of_nestAll (h : nestAll blocks w = some next) (depth : Nat) :
    w.foldl depthAfter (depth + blocks.count .each) = depth + next.count .each := by
  induction w generalizing blocks with
  | nil =>
      obtain rfl := Option.some.inj h
      rfl
  | cons m w ih =>
      rw [nestAll_cons] at h
      obtain ⟨middle, hm, hw⟩ := Option.bind_eq_some_iff.1 h
      rw [List.foldl_cons, depthAfter_of_nest hm]
      exact ih hw

end Mark

/-! ### The trackers of a run -/

/-- The trackers at the entries of an operation and at its end. -/
def Step.trackers {α : Type} (s : Step α) : List Tracker :=
  s.moments.map Moment.tracker ++ [s.tracker]

/-- The tracker with more blocks opened, which it counts. -/
def Tracker.opened (t : Tracker) (inner : List Block) : Tracker :=
  ⟨t.depth + inner.count .each, inner ++ t.blocks⟩

namespace Step

variable {α β : Type} {s : Step α} {a : α} {t u : Tracker}

theorem mem_trackers : u ∈ s.trackers ↔ (∃ m ∈ s.moments, m.tracker = u) ∨ u = s.tracker := by
  simp [trackers]

theorem Yields.tracker_andThen (h : s.Yields a t) (next : α → Tracker → Step β) :
    (s.andThen next).tracker = (next a t).tracker := by
  obtain ⟨result, tracker, moments⟩ := s
  obtain ⟨rfl, rfl, -⟩ := h
  rfl

theorem Yields.of_mem_trackers_andThen (h : s.Yields a t) {next : α → Tracker → Step β}
    (hu : u ∈ (s.andThen next).trackers) : u ∈ s.trackers ∨ u ∈ (next a t).trackers := by
  obtain ⟨result, tracker, moments⟩ := s
  obtain ⟨rfl, rfl, -⟩ := h
  rw [andThen_ok, mem_trackers] at hu
  simp only [mem_trackers, List.mem_append] at hu ⊢
  rcases hu with ⟨m, hm | hm, rfl⟩ | rfl
  · exact .inl (.inl ⟨m, hm, rfl⟩)
  · exact .inr (.inl ⟨m, hm, rfl⟩)
  · exact .inr (.inr rfl)

end Step

variable {s : Settings} {t u : Tracker} {position : Option Int} {inner next : List Block}

/-- Marks in order lead from some opened blocks to others, and keep what is below them. -/
theorem Tracker.opened_of_nestAll {w : List Mark} (h : Mark.nestAll inner w = some next) :
    Mark.nestAll (t.opened inner).blocks w = some (t.opened next).blocks ∧
      w.foldl Mark.depthAfter (t.opened inner).depth = (t.opened next).depth :=
  ⟨Mark.nestAll_append_outer h t.blocks, Mark.foldl_depthAfter_of_nestAll h t.depth⟩

/-- A directive in order makes its entries when it has done its work on the tracker. -/
theorem Directive.eq_of_mem_trackers_fragment {d : Directive} {blocks : List Block}
    (h : Mark.nestAll t.blocks d.kind.mark?.toList = some blocks)
    (hu : u ∈ (d.fragment s position t).trackers) : u = (d.fragment s position t).tracker := by
  rcases Step.mem_trackers.1 hu with ⟨m, hm, rfl⟩ | rfl
  · obtain ⟨kind, e⟩ := d
    cases kind with
    | each =>
        obtain rfl := List.mem_singleton.1 hm
        rfl
    | eachEnd =>
        have hexit : Tracker.exit s position t = _ :=
          Tracker.exit_of_head? (Mark.nestAll_singleton_closes.1 h).1
        change m ∈ (Tracker.exit s position t).moments at hm
        change m.tracker = (Tracker.exit s position t).tracker
        rw [hexit] at hm ⊢
        obtain rfl := List.mem_singleton.1 hm
        rfl
    | hideEnd =>
        change m ∈ (Tracker.close s .hide position t).moments at hm
        rw [Tracker.close_of_head? (Mark.nestAll_singleton_closes.1 h).1] at hm
        cases hm
    | hide | selectedIf | checkedIf | partialCall | key | interpolation => cases hm
  · rfl

namespace Segment

private theorem eq_of_mem_trackers_emit {segment : Segment} {blocks : List Block}
    (h : Mark.nestAll t.blocks segment.mark?.toList = some blocks)
    (hu : u ∈ (segment.emit s t).trackers) : u = (segment.emit s t).tracker := by
  match segment with
  | literal _ _ => exact List.mem_singleton.1 hu
  | directive d place text =>
      have hyields : (d.fragment s (some (place : Int)) t).Yields _ _ := Directive.fragment_yields h
      have htracker : ((directive d place text).emit s t).tracker =
          (d.fragment s (some (place : Int)) t).tracker := by
        rw [hyields.tracker_eq]
        exact (Directive.emit_yields h).tracker_eq
      rw [htracker]
      rcases hyields.of_mem_trackers_andThen hu with hfragment | hremark
      · exact Directive.eq_of_mem_trackers_fragment h hfragment
      · rw [hyields.tracker_eq]
        simpa [Step.trackers] using hremark

private theorem emit_opened {segment : Segment}
    (h : Mark.nestAll inner segment.mark?.toList = some next) :
    (segment.emit s (t.opened inner)).Yields (segment.code s (t.opened inner).depth)
      (t.opened next) := by
  obtain ⟨hblocks, hdepth⟩ := Tracker.opened_of_nestAll (t := t) h
  have hyields := emit_yields (s := s) hblocks
  rwa [depthAfter, hdepth] at hyields

/-- Segments in order work above the start. -/
theorem emitAll_opened {segments : List Segment}
    (h : Mark.nestAll inner (marks segments) = some next) :
    (emitAll s segments (t.opened inner)).Yields (codeAll s (t.opened inner).depth segments)
      (t.opened next) := by
  obtain ⟨hblocks, hdepth⟩ := Tracker.opened_of_nestAll (t := t) h
  have hyields := emitAll_yields (s := s) hblocks
  rwa [hdepth] at hyields

/-- What is open at the start is open all the time, below what the segments open. -/
theorem exists_of_mem_trackers_emitAll {segments : List Segment}
    (h : Mark.nestAll inner (marks segments) = some next)
    (hu : u ∈ (emitAll s segments (t.opened inner)).trackers) : ∃ blocks, u = t.opened blocks := by
  induction segments generalizing inner with
  | nil => exact ⟨inner, List.mem_singleton.1 hu⟩
  | cons segment segments ih =>
      obtain ⟨middle, hfirst, hrest⟩ := nestAll_marks_cons.1 h
      have hyields := emit_opened (s := s) (t := t) hfirst
      rcases hyields.of_mem_trackers_andThen hu with hu | hu
      · rw [eq_of_mem_trackers_emit (Tracker.opened_of_nestAll hfirst).1 hu]
        exact ⟨middle, hyields.tracker_eq⟩
      · exact ih hrest hu

end Segment

/-! ### Running the stage again -/

namespace Stage

variable {c : Compiler} {d next : Draft}

theorem tracker_runEmit (h : WellNested (Segment.marks (Segment.scan d.escaped))) :
    (runEmit c d t).tracker = t := by
  have hyields := Segment.emitAll_opened (s := c.settings) (t := t) (h.nestAll_eq [])
  have hbalance : (Tracker.Operation.checkBalance.run c.settings t).tracker = t :=
    Tracker.Operation.tracker_run_of_mark?_eq_none rfl
  have hstep : (emitSegments c.settings (Segment.scan d.escaped) t).tracker = t :=
    (hyields.tracker_andThen _).trans hbalance
  rw [runEmit]
  split <;> exact hstep

theorem of_result_runEmit (h : (runEmit c d t).result = .ok next) :
    ∃ fragments, (emitSegments c.settings (Segment.scan d.escaped) t).result = .ok fragments ∧
      next = { d with segments := Segment.scan d.escaped, fragments, body := fragments.code } := by
  rw [runEmit] at h
  match hstep : (emitSegments c.settings (Segment.scan d.escaped) t).result with
  | .error e =>
      rw [hstep] at h
      cases h
  | .ok fragments =>
      rw [hstep] at h
      exact ⟨fragments, rfl, (Except.ok.inj h).symm⟩

private theorem result_runEmit_of_result_runEmit (h : (runEmit c d t).result = .ok next) :
    (runEmit c next t).result = .ok next := by
  rw [← h]
  obtain ⟨fragments, hstep, rfl⟩ := of_result_runEmit h
  rw [runEmit, runEmit]

private theorem runAll_replicate_emit_of_fixed (hresult : (runEmit c d t).result = .ok d)
    (htracker : (runEmit c d t).tracker = t) (n : Nat) :
    (runAll c (List.replicate n emit) d t).result = .ok d ∧
      (runAll c (List.replicate n emit) d t).tracker = t := by
  induction n with
  | zero => exact ⟨rfl, rfl⟩
  | succ n ih =>
      rw [List.replicate_succ, runAll, run, hresult, htracker]
      exact ih

theorem runAll_replicate_emit (h : WellNested (Segment.marks (Segment.scan d.escaped))) (n : Nat) :
    (runAll c (List.replicate (n + 1) emit) d t).result = (runEmit c d t).result ∧
      (runAll c (List.replicate (n + 1) emit) d t).tracker = t := by
  have htracker := tracker_runEmit (c := c) (t := t) h
  rw [List.replicate_succ, runAll, run]
  cases hresult : (runEmit c d t).result with
  | error e => exact ⟨rfl, htracker⟩
  | ok next =>
      have hagain : (runEmit c next t).tracker = t := by
        obtain ⟨fragments, -, rfl⟩ := of_result_runEmit hresult
        exact tracker_runEmit h
      dsimp only
      rw [htracker]
      exact runAll_replicate_emit_of_fixed (result_runEmit_of_result_runEmit hresult) hagain n

private theorem exists_result_runEmit (h : WellNested (Segment.marks (Segment.scan d.escaped)))
    (hbalance : t.blocks = [] ∨ c.settings.strictScopes = false) :
    ∃ next, (runEmit c d t).result = .ok next := by
  have hyields := Segment.emitAll_opened (s := c.settings) (t := t) (h.nestAll_eq [])
  have hcheck : (Tracker.checkBalance c.settings t).result = .ok () := by
    rw [Tracker.checkBalance]
    split
    · rfl
    · next hopen => rw [hbalance.resolve_left hopen]; rfl
  have hchecked (fragments : Fragments) :
      ((Tracker.checkBalance c.settings t).map fun _ => fragments).result = .ok fragments := by
    rw [Step.map, hcheck]
    rfl
  have hstep : (emitSegments c.settings (Segment.scan d.escaped) t).result = .ok _ :=
    (hyields.result_andThen _).trans (hchecked _)
  rw [runEmit, hstep]
  exact ⟨_, rfl⟩

/-- Segments whose blocks are well nested are turned into code from any tracker and under any
settings. They give no warning, keep what is open below the blocks that they open themselves, and
leave the tracker as it was, so the stage gives the same however often it is run. -/
theorem emit_wellNested (c : Compiler) (t : Tracker) {segments : List Segment}
    (h : WellNested (Segment.marks segments)) :
    (∃ fragments, (Segment.emitAll c.settings segments t).result = .ok fragments) ∧
      (∀ entry ∈ (Segment.emitAll c.settings segments t).log, ¬entry.IsWarning) ∧
      (Segment.emitAll c.settings segments t).tracker = t ∧
      (∀ before, before <+: segments →
        ∀ u ∈ (Segment.emitAll c.settings before t).trackers, ∃ inner, u = t.opened inner) ∧
      ∀ d : Draft, Segment.scan d.escaped = segments →
        (emit.run c d t).tracker = t ∧
        (t.blocks = [] ∨ c.settings.strictScopes = false →
          ∃ next, (emit.run c d t).result = .ok next) ∧
        ∀ n, (runAll c (List.replicate (n + 1) emit) d t).result = (emit.run c d t).result ∧
          (runAll c (List.replicate (n + 1) emit) d t).tracker = t := by
  have hyields : (Segment.emitAll c.settings segments t).Yields _ t :=
    Segment.emitAll_opened (h.nestAll_eq [])
  refine ⟨⟨_, hyields.result_eq⟩, hyields.quiet, hyields.tracker_eq, ?_, ?_⟩
  · rintro before ⟨after, rfl⟩ u hu
    have hmarks := h.nestAll_eq []
    rw [Segment.marks_append, Mark.nestAll_append] at hmarks
    obtain ⟨inner, hbefore, -⟩ := Option.bind_eq_some_iff.1 hmarks
    exact Segment.exists_of_mem_trackers_emitAll hbefore hu
  · rintro d rfl
    exact ⟨tracker_runEmit h, exists_result_runEmit h, runAll_replicate_emit h⟩

/-- A block inside two others that were open before, at a depth that counts others still. -/
theorem emit_wellNested_inside :
    WellNested (Segment.marks (Segment.scan
        "\x7b\x7b#each a\x7d\x7d\x7b\x7b@key\x7d\x7d\x7b\x7b/each\x7d\x7d".toList)) ∧
      (∃ next, (runAll { minifier := .keep } [emit, emit]
          { escaped :=
              "\x7b\x7b#each a\x7d\x7d\x7b\x7b@key\x7d\x7d\x7b\x7b/each\x7d\x7d".toList }
          ⟨3, [.hide, .each]⟩).result = .ok next) ∧
      (runAll { minifier := .keep } [emit, emit]
          { escaped :=
              "\x7b\x7b#each a\x7d\x7d\x7b\x7b@key\x7d\x7d\x7b\x7b/each\x7d\x7d".toList }
          ⟨3, [.hide, .each]⟩).tracker = ⟨3, [.hide, .each]⟩ := by
  have hpieces : Piece.ofText
      "\x7b\x7b#each a\x7d\x7d\x7b\x7b@key\x7d\x7d\x7b\x7b/each\x7d\x7d".toList
      = [.tag "#each a".toList, .tag "@key".toList, .tag "/each".toList] :=
    Piece.ofText_tags ["#each a".toList, "@key".toList, "/each".toList] (by decide)
  have hnested : WellNested (Segment.marks (Segment.scan
      "\x7b\x7b#each a\x7d\x7d\x7b\x7b@key\x7d\x7d\x7b\x7b/each\x7d\x7d".toList)) := by
    rw [Segment.scan, Segment.marks_locate, hpieces, wellNested_iff_nestAll]
    rfl
  obtain ⟨-, -, -, -, hagain⟩ :=
    emit_wellNested { minifier := .keep } ⟨3, [.hide, .each]⟩ hnested
  obtain ⟨-, hresult, hruns⟩ := hagain { escaped := _ } rfl
  obtain ⟨next, hnext⟩ := hresult (.inr rfl)
  obtain ⟨hsame, htracker⟩ := hruns 1
  exact ⟨hnested, ⟨next, hsame.trans hnext⟩, htracker⟩

end Stage

end Stencil
