import Stencil.Scope.Tracker
import Stencil.Template.Piece

/-!
# Nesting of blocks

Only the tags that open and close blocks matter for balance, and the blocks of a template are
balanced when these tags form a well nested word. That is a grammar over two kinds of brackets and
says nothing of a stack. `nestAll` reads a word with a stack of open blocks, which is what a tracker
does while every close is in order. The two views agree: a word is well nested exactly if the
stack can be run over it and is empty at the end, and the innermost open block that the grammar
sees is the top of the stack.
-/

namespace Stencil

/-- What a tag does to the blocks around it. -/
inductive Mark where
  | opens (block : Block)
  | closes (block : Block)
deriving DecidableEq, Repr

def Kind.mark? : Kind → Option Mark
  | each => some (.opens .each)
  | eachEnd => some (.closes .each)
  | hide => some (.opens .hide)
  | hideEnd => some (.closes .hide)
  | _ => none

def Piece.mark? : Piece → Option Mark
  | literal _ => none
  | tag inner => (Directive.ofInner inner).kind.mark?

def Piece.marks (ps : List Piece) : List Mark := ps.filterMap mark?

/-- Every block is closed by a close of its own kind, after the blocks inside it. -/
inductive WellNested : List Mark → Prop where
  | nil : WellNested []
  | block (b : Block) {inner rest : List Mark} (hinner : WellNested inner)
      (hrest : WellNested rest) : WellNested (.opens b :: (inner ++ .closes b :: rest))

namespace Mark

/-- A block of the given kind is open after the marks, and every block opened later is closed. -/
def IsInnermost (before : List Mark) (b : Block) : Prop :=
  ∃ outer inner, before = outer ++ opens b :: inner ∧ WellNested inner

/-- The open blocks after a mark, innermost first, if the mark is in order. -/
def nest (blocks : List Block) : Mark → Option (List Block)
  | opens b => some (b :: blocks)
  | closes b => if blocks.head? = some b then some blocks.tail else none

def nestAll (blocks : List Block) (marks : List Mark) : Option (List Block) :=
  marks.foldlM nest blocks

@[simp] theorem nestAll_nil (blocks : List Block) : nestAll blocks [] = some blocks := rfl

theorem nestAll_cons (blocks : List Block) (m : Mark) (marks : List Mark) :
    nestAll blocks (m :: marks) = (nest blocks m).bind (nestAll · marks) := rfl

theorem nestAll_append (blocks : List Block) (v w : List Mark) :
    nestAll blocks (v ++ w) = (nestAll blocks v).bind (nestAll · w) :=
  List.foldlM_append

theorem nestAll_opens (blocks : List Block) (b : Block) (marks : List Mark) :
    nestAll blocks (opens b :: marks) = nestAll (b :: blocks) marks := rfl

theorem nestAll_closes (blocks : List Block) (b : Block) (marks : List Mark) :
    nestAll (b :: blocks) (closes b :: marks) = nestAll blocks marks := by
  simp [nestAll_cons, nest]

end Mark

open Mark

/-! ### The grammar and the stack -/

theorem WellNested.append {v w : List Mark} (hv : WellNested v) (hw : WellNested w) :
    WellNested (v ++ w) := by
  induction hv with
  | nil => exact hw
  | block b hinner _ _ ih =>
      rw [List.cons_append, List.append_assoc, List.cons_append]
      exact .block b hinner ih

theorem WellNested.nestAll_eq {w : List Mark} (h : WellNested w) (blocks : List Block) :
    nestAll blocks w = some blocks := by
  induction h generalizing blocks with
  | nil => rfl
  | block b _ _ ihinner ihrest =>
      rw [nestAll_opens, nestAll_append, ihinner, Option.bind_some, nestAll_closes, ihrest]

/-- A word that closes the given blocks one after another, with well nested words between. -/
def Unwinds : List Block → List Mark → Prop
  | [], w => WellNested w
  | b :: blocks, w =>
      ∃ inner rest, w = inner ++ closes b :: rest ∧ WellNested inner ∧ Unwinds blocks rest

private theorem Unwinds.prepend {blocks : List Block} {v w : List Mark} (hv : WellNested v)
    (hw : Unwinds blocks w) : Unwinds blocks (v ++ w) := by
  match blocks with
  | [] => exact hv.append hw
  | b :: blocks =>
      obtain ⟨inner, rest, rfl, hinner, hrest⟩ := hw
      exact ⟨v ++ inner, rest, by simp, hv.append hinner, hrest⟩

private theorem unwinds_of_nestAll {blocks : List Block} {w : List Mark}
    (h : nestAll blocks w = some []) : Unwinds blocks w := by
  induction w generalizing blocks with
  | nil =>
      obtain rfl : blocks = [] := Option.some.inj h
      exact .nil
  | cons m w ih =>
      rw [nestAll_cons] at h
      obtain ⟨next, hnext, hrest⟩ := Option.bind_eq_some_iff.1 h
      have hw := ih hrest
      match m with
      | opens b =>
          obtain rfl := Option.some.inj hnext
          obtain ⟨inner, rest, rfl, hinner, hrest⟩ := hw
          have hblock := WellNested.block b hinner .nil
          have hword := Unwinds.prepend hblock hrest
          simpa using hword
      | closes b =>
          rw [nest] at hnext
          split at hnext
          · next hhead =>
              obtain ⟨tail, rfl⟩ := List.head?_eq_some_iff.1 hhead
              obtain rfl := Option.some.inj hnext
              exact ⟨[], w, rfl, .nil, hw⟩
          · cases hnext

theorem wellNested_iff_nestAll {w : List Mark} : WellNested w ↔ nestAll [] w = some [] :=
  ⟨fun h => h.nestAll_eq [], unwinds_of_nestAll⟩

/-! ### The innermost open block -/

theorem exists_opens_of_nestAll {w : List Mark} {b : Block} {blocks : List Block}
    (h : nestAll [] w = some (b :: blocks)) :
    ∃ outer inner, w = outer ++ opens b :: inner ∧ WellNested inner ∧
      nestAll [] outer = some blocks := by
  induction hn : w.length using Nat.strongRecOn generalizing w b blocks with
  | _ n ih =>
      subst hn
      rcases List.eq_nil_or_concat w with rfl | ⟨v, m, rfl⟩
      · cases h
      rw [List.concat_eq_append] at h ⊢
      rw [nestAll_append] at h
      obtain ⟨last, hlast, hm⟩ := Option.bind_eq_some_iff.1 h
      rw [nestAll_cons] at hm
      obtain ⟨next, hnext, hm⟩ := Option.bind_eq_some_iff.1 hm
      obtain rfl : next = b :: blocks := Option.some.inj hm
      match m with
      | opens c =>
          obtain ⟨rfl, rfl⟩ := List.cons.inj (Option.some.inj hnext)
          exact ⟨v, [], rfl, .nil, hlast⟩
      | closes c =>
          rw [nest] at hnext
          split at hnext
          · next hhead =>
              -- The close takes a block away that was opened after the one looked for.
              obtain ⟨tail, rfl⟩ := List.head?_eq_some_iff.1 hhead
              obtain rfl : tail = b :: blocks := Option.some.inj hnext
              obtain ⟨outer, inner, rfl, hinner, houter⟩ := ih v.length (by simp) hlast rfl
              obtain ⟨outer, before, rfl, hbefore, hrest⟩ := ih outer.length (by simp) houter rfl
              have hblock := WellNested.block c hinner .nil
              exact ⟨outer, before ++ opens c :: (inner ++ [closes c]), by simp,
                hbefore.append hblock, hrest⟩
          · cases hnext

theorem isInnermost_iff {before : List Mark} {blocks : List Block}
    (h : nestAll [] before = some blocks) (b : Block) :
    IsInnermost before b ↔ blocks.head? = some b := by
  constructor
  · rintro ⟨outer, inner, rfl, hinner⟩
    rw [nestAll_append] at h
    obtain ⟨stack, -, hstack⟩ := Option.bind_eq_some_iff.1 h
    rw [nestAll_opens, hinner.nestAll_eq] at hstack
    obtain rfl := Option.some.inj hstack
    rfl
  · intro hhead
    obtain ⟨tail, rfl⟩ := List.head?_eq_some_iff.1 hhead
    obtain ⟨outer, inner, hw, hinner, -⟩ := exists_opens_of_nestAll h
    exact ⟨outer, inner, hw, hinner⟩

end Stencil
