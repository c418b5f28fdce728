import Stencil.Proofs.Emission
import Stencil.Scope.Operation

/-!
# The blocks of a tracker

Under every sequence of operations a tracker counts the each blocks among its open blocks. Opening
adds a block. A close takes the innermost block of its kind away and keeps the others in order, and
strict settings only allow it if that block is the innermost of all. If there is no block of its
kind, permissive settings allow the close and nothing changes. That includes the depth, which such a
close of an each block counts down: it is 0 already, since it counts no block. An operation that
fails leaves the tracker as it was.
-/

namespace Stencil

def Tracker.IsCounted (t : Tracker) : Prop := t.depth = t.blocks.count .each

theorem Mark.depthAfter_opens (blocks : List Block) (b : Block) :
    (opens b).depthAfter (blocks.count .each) = (b :: blocks).count .each := by
  cases b <;> simp [depthAfter]

theorem Mark.depthAfter_closes (blocks : List Block) (b : Block) :
    (closes b).depthAfter (blocks.count .each) = (blocks.erase b).count .each := by
  cases b <;> simp [depthAfter]

namespace Tracker

variable {s : Settings} {t : Tracker} {b : Block} {position : Option Int}

/-- A close takes the innermost block of its kind away, if there is one, or strict settings refuse
it. -/
theorem close_cases (s : Settings) (b : Block) (position : Option Int) (t : Tracker) :
    (∃ moments, close s b position t =
        ⟨.ok (), { t with blocks := t.blocks.erase b }, moments⟩ ∧
      (s.strictScopes = true → t.blocks.head? = some b)) ∨
    (s.strictScopes = true ∧ ∃ e, close s b position t = ⟨.error e, t, []⟩) := by
  by_cases hhead : t.blocks.head? = some b
  · obtain ⟨outer, houter⟩ := List.head?_eq_some_iff.1 hhead
    have hclose : close s b position t = ⟨.ok (), { t with blocks := t.blocks.tail }, []⟩ :=
      close_of_head? hhead
    rw [houter, List.tail_cons, ← List.erase_cons_head b outer, ← houter] at hclose
    exact .inl ⟨[], hclose, fun _ => hhead⟩
  · cases hs : s.strictScopes with
    | true =>
        obtain ⟨cause, hclose⟩ : ∃ cause, close s b position t = _ := close_strict hs hhead
        exact .inr ⟨rfl, _, hclose⟩
    | false =>
        obtain ⟨cause, hclose⟩ : ∃ cause, close s b position t = _ := close_permissive hs hhead
        exact .inl ⟨_, hclose, fun h => by cases h⟩

namespace Operation

def mark? : Operation → Option Mark
  | enter => some (.opens .each)
  | exit _ => some (.closes .each)
  | hideOpen => some (.opens .hide)
  | hideClose _ => some (.closes .hide)
  | _ => none

/-! ### One operation -/

variable {operation : Operation}

theorem run_of_opens (h : operation.mark? = some (.opens b)) :
    ∃ a moments, operation.run s t =
      ⟨.ok a, ⟨(Mark.opens b).depthAfter t.depth, b :: t.blocks⟩, moments⟩ := by
  cases operation with
  | enter =>
      obtain rfl : .each = b := Mark.opens.inj (Option.some.inj h)
      exact ⟨_, _, rfl⟩
  | hideOpen =>
      obtain rfl : .hide = b := Mark.opens.inj (Option.some.inj h)
      exact ⟨_, _, rfl⟩
  | exit | hideClose | reset | checkBalance | resolve | model | key => cases h

theorem run_of_closes (h : operation.mark? = some (.closes b)) :
    (∃ a moments, operation.run s t =
        ⟨.ok a, ⟨(Mark.closes b).depthAfter t.depth, t.blocks.erase b⟩, moments⟩ ∧
      (s.strictScopes = true → t.blocks.head? = some b)) ∨
    (s.strictScopes = true ∧ ∃ e, operation.run s t = ⟨.error e, t, []⟩) := by
  cases operation with
  | exit position =>
      obtain rfl : .each = b := Mark.closes.inj (Option.some.inj h)
      rw [run, Tracker.exit]
      rcases close_cases s .each position t with ⟨moments, hclose, hhead⟩ | ⟨hs, e, hclose⟩
      · rw [hclose]
        exact .inl ⟨_, _, rfl, hhead⟩
      · rw [hclose]
        exact .inr ⟨hs, e, rfl⟩
  | hideClose position =>
      obtain rfl : .hide = b := Mark.closes.inj (Option.some.inj h)
      rw [run, Tracker.hideClose]
      rcases close_cases s .hide position t with ⟨moments, hclose, hhead⟩ | ⟨hs, e, hclose⟩
      · rw [hclose]
        exact .inl ⟨_, _, rfl, hhead⟩
      · rw [hclose]
        exact .inr ⟨hs, e, rfl⟩
  | enter | hideOpen | reset | checkBalance | resolve | model | key => cases h

/-- Apart from opening and closing, only going back to the start changes a tracker. -/
theorem tracker_run_of_mark?_eq_none (h : operation.mark? = none) :
    (operation.run s t).tracker = if operation = .reset then {} else t := by
  cases operation with
  | checkBalance =>
      rw [if_neg (by simp), run, Tracker.checkBalance]
      split
      · rfl
      · split <;> rfl
  | reset | resolve | model | key => rfl
  | enter | exit | hideOpen | hideClose => cases h

theorem isCounted_run (s : Settings) (h : t.IsCounted) (operation : Operation) :
    (operation.run s t).tracker.IsCounted := by
  rw [IsCounted] at h
  match hmark : operation.mark? with
  | some (.opens b) =>
      obtain ⟨a, moments, hrun⟩ := run_of_opens (s := s) (t := t) hmark
      rw [hrun, h]
      exact Mark.depthAfter_opens t.blocks b
  | some (.closes b) =>
      rcases run_of_closes (s := s) (t := t) hmark with ⟨a, moments, hrun, -⟩ | ⟨-, e, hrun⟩
      · rw [hrun, h]
        exact Mark.depthAfter_closes t.blocks b
      · rw [hrun]
        exact h
  | none =>
      rw [tracker_run_of_mark?_eq_none hmark]
      split
      · rfl
      · exact h

/-! ### Sequences of operations -/

theorem isCounted_trackerAfter (s : Settings) (operations : List Operation) (h : t.IsCounted) :
    (trackerAfter s operations t).IsCounted := by
  induction operations generalizing t with
  | nil => exact h
  | cons operation operations ih => exact ih (isCounted_run s h operation)

/-- What an operation may do to a tracker: to the blocks, innermost first, and to the depth. -/
structure IsOrderly (s : Settings) (t : Tracker) (operation : Operation) : Prop where
  /-- Opening always succeeds and adds a block of its kind inside the others. -/
  opens : ∀ b, operation.mark? = some (.opens b) →
    (∃ a, (operation.run s t).result = .ok a) ∧
      (operation.run s t).tracker.blocks = b :: t.blocks
  /-- A close that succeeds takes the innermost block of its kind away and keeps the others in
  order. If there is none, the settings are permissive and nothing changes. -/
  closes : ∀ b a, operation.mark? = some (.closes b) → (operation.run s t).result = .ok a →
    (∃ inner outer, t.blocks = inner ++ b :: outer ∧ b ∉ inner ∧
        (operation.run s t).tracker.blocks = inner ++ outer) ∨
      s.strictScopes = false ∧ b ∉ t.blocks ∧ (operation.run s t).tracker = t
  /-- Under strict settings a close only succeeds if the innermost block is of its kind. -/
  strict : ∀ b a, s.strictScopes = true → operation.mark? = some (.closes b) →
    (operation.run s t).result = .ok a → t.blocks.head? = some b
  /-- Permissive settings allow every close. -/
  permissive : ∀ b, s.strictScopes = false → operation.mark? = some (.closes b) →
    ∃ a, (operation.run s t).result = .ok a
  /-- An operation that fails changes nothing. -/
  error : ∀ e, (operation.run s t).result = .error e → (operation.run s t).tracker = t
  /-- An operation that neither opens nor closes changes nothing, unless it goes back to the
  start. -/
  other : operation.mark? = none →
    (operation.run s t).tracker = if operation = .reset then {} else t

/-- A close without a block of its kind changes nothing, since the tracker is counted. -/
theorem depthAfter_closes_of_not_mem (h : t.IsCounted) (hb : b ∉ t.blocks) :
    (Mark.closes b).depthAfter t.depth = t.depth := by
  rw [IsCounted] at h
  rw [h, Mark.depthAfter_closes, List.erase_of_not_mem hb]

private theorem isOrderly_of_isCounted (s : Settings) (h : t.IsCounted) (operation : Operation) :
    IsOrderly s t operation where
  opens b hmark := by
    obtain ⟨a, moments, hrun⟩ := run_of_opens (s := s) (t := t) hmark
    rw [hrun]
    exact ⟨⟨a, rfl⟩, rfl⟩
  closes b a hmark hresult := by
    rcases run_of_closes (s := s) (t := t) hmark with ⟨a, moments, hrun, hhead⟩ | ⟨-, e, hrun⟩
    · rw [hrun]
      by_cases hb : b ∈ t.blocks
      · obtain ⟨inner, outer, hinner, hblocks, herase⟩ := List.exists_erase_eq hb
        exact .inl ⟨inner, outer, hblocks, hinner, herase⟩
      · have hs : s.strictScopes = false := by
          rw [← Bool.not_eq_true]
          exact fun hs => hb (List.mem_of_mem_head? (hhead hs))
        refine .inr ⟨hs, hb, ?_⟩
        simp only [depthAfter_closes_of_not_mem h hb, List.erase_of_not_mem hb]
    · rw [hrun] at hresult
      cases hresult
  strict b a hs hmark hresult := by
    rcases run_of_closes (s := s) (t := t) hmark with ⟨_, _, _, hhead⟩ | ⟨-, e, hrun⟩
    · exact hhead hs
    · rw [hrun] at hresult
      cases hresult
  permissive b hs hmark := by
    rcases run_of_closes (s := s) (t := t) hmark with ⟨a, moments, hrun, -⟩ | ⟨hstrict, -⟩
    · exact ⟨a, by rw [hrun]⟩
    · rw [hs] at hstrict
      cases hstrict
  error e hresult := by
    match hmark : operation.mark? with
    | some (.opens b) =>
        obtain ⟨a, moments, hrun⟩ := run_of_opens (s := s) (t := t) hmark
        rw [hrun] at hresult
        cases hresult
    | some (.closes b) =>
        rcases run_of_closes (s := s) (t := t) hmark with ⟨a, moments, hrun, -⟩ | ⟨-, e, hrun⟩
        · rw [hrun] at hresult
          cases hresult
        · rw [hrun]
    | none =>
        rw [tracker_run_of_mark?_eq_none hmark]
        split
        · next hreset =>
            subst hreset
            cases hresult
        · rfl
  other := tracker_run_of_mark?_eq_none

/-- After every sequence of operations, failed ones included, the depth is the number of open each
blocks, and the next operation treats the blocks in order. -/
theorem isOrderly_trackerAfter (s : Settings) (operations : List Operation) :
    (trackerAfter s operations {}).depth =
        (trackerAfter s operations {}).blocks.count .each ∧
      ∀ operation, IsOrderly s (trackerAfter s operations {}) operation := by
  have hcounted : (trackerAfter s operations {}).IsCounted :=
    isCounted_trackerAfter s operations rfl
  exact ⟨hcounted, isOrderly_of_isCounted s hcounted⟩

/-- An each block that is closed across a hide block leaves the hide block open. -/
theorem isOrderly_trackerAfter_crossing :
    (trackerAfter {} [enter, hideOpen] {}).depth = 1 ∧
      ∃ inner outer, [Block.hide, .each] = inner ++ .each :: outer ∧ .each ∉ inner ∧
        ((exit none).run {} (trackerAfter {} [enter, hideOpen] {})).tracker.blocks
          = inner ++ outer := by
  obtain ⟨hdepth, horderly⟩ := isOrderly_trackerAfter {} [enter, hideOpen]
  refine ⟨hdepth, ?_⟩
  rcases (horderly (exit none)).closes .each _ rfl rfl with hblock | ⟨-, hnone, -⟩
  · exact hblock
  · exact absurd (by decide : Block.each ∈ [Block.hide, .each]) hnone

end Operation

end Tracker

end Stencil
