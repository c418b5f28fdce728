import Stencil.Log.Entry
import Stencil.Settings.Basic

/-!
# Block scopes

Two kinds of block enclose a part of a template. An each block opens a function, so it deepens the
scope; a hide block opens none. The tracker counts the depth and keeps the open blocks, innermost
first.

A close is in order if the innermost open block is of its kind. Otherwise strict settings refuse
it and leave the tracker as it was. Permissive settings remove the innermost block of its kind,
wherever it stands, or nothing if there is none, and the log has a warning. The depth is only
counted down after that warning.
-/

namespace Stencil

inductive Block where
  | each
  | hide
deriving DecidableEq, Repr

/-- The word that opens and closes a block. -/
def Block.name : Block → Text
  | each => "each".toList
  | hide => "hide".toList

/-- How blocks can fail to nest. -/
inductive Imbalance where
  /-- A close without an open block of its kind. -/
  | unmatched (close : Block)
  /-- A close while the innermost open block is of the other kind. -/
  | crossing (close innermost : Block)
  /-- Blocks left open at the end, outermost first. -/
  | unclosed (blocks : List Block)
deriving DecidableEq, Repr

/-- A failure to nest, and the place of the close if one is to blame. -/
structure Unbalanced where
  cause : Imbalance
  position : Option Int
deriving DecidableEq, Repr

namespace Block

def names (blocks : List Block) : Text :=
  (", ".toList).intercalate (blocks.map fun block => '#' :: block.name)

end Block

namespace Imbalance

def message : Imbalance → Text
  | unmatched close => "Unmatched /".toList ++ close.name
  | crossing close innermost =>
    '/' :: close.name ++ " closes across an open #".toList ++ innermost.name
  | unclosed blocks => "Unclosed block(s): ".toList ++ Block.names blocks

end Imbalance

def Unbalanced.message (e : Unbalanced) : Text :=
  match e.position with
  | none => e.cause.message
  | some position => e.cause.message ++ " (at position ".toList ++ Text.ofInt position ++ [')']

/-- The depth of a place in a template and the blocks that are open there. -/
structure Tracker where
  /-- The number of enclosing each blocks. -/
  depth : Nat := 0
  /-- The open blocks, innermost first. -/
  blocks : List Block := []
deriving DecidableEq, Repr

/-- An entry that is made in the log, and the tracker when it is made. -/
structure Moment where
  entry : Log.Entry
  tracker : Tracker
deriving DecidableEq, Repr

/-- What an operation on a tracker gives: its result, the tracker afterwards, and the moments at
which it makes entries in the log. -/
structure Step (α : Type) where
  result : Except Unbalanced α
  tracker : Tracker
  moments : List Moment

namespace Step

def log {α : Type} (s : Step α) : Log := s.moments.map Moment.entry

/-- Goes on with the value and the tracker of a step; an error ends the run. -/
def andThen {α β : Type} (s : Step α) (next : α → Tracker → Step β) : Step β :=
  match s.result with
  | .error e => ⟨.error e, s.tracker, s.moments⟩
  | .ok a => let n := next a s.tracker; ⟨n.result, n.tracker, s.moments ++ n.moments⟩

def map {α β : Type} (f : α → β) (s : Step α) : Step β := ⟨s.result.map f, s.tracker, s.moments⟩

@[simp] theorem andThen_ok {α β : Type} (a : α) (t : Tracker) (moments : List Moment)
    (next : α → Tracker → Step β) :
    andThen ⟨.ok a, t, moments⟩ next =
      ⟨(next a t).result, (next a t).tracker, moments ++ (next a t).moments⟩ := rfl

@[simp] theorem andThen_error {α β : Type} (e : Unbalanced) (t : Tracker) (moments : List Moment)
    (next : α → Tracker → Step β) :
    andThen ⟨.error e, t, moments⟩ next = ⟨.error e, t, moments⟩ := rfl

@[simp] theorem log_mk {α : Type} (result : Except Unbalanced α) (t : Tracker)
    (moments : List Moment) : log ⟨result, t, moments⟩ = moments.map Moment.entry := rfl

@[simp] theorem log_map {α β : Type} (f : α → β) (s : Step α) : (s.map f).log = s.log := rfl

end Step

namespace Tracker

/-- The remark that a scope was entered or left. -/
def moved (word : String) (depth : Nat) : Log.Entry :=
  .trace 3 ("Scope ".toList ++ word.toList ++ ": depth ".toList ++ Text.ofNat depth)

/-- Opens an each block and gives the model of the new scope. -/
def enter (s : Settings) (t : Tracker) : Step Text :=
  ⟨.ok (s.model (t.depth + 1)), ⟨t.depth + 1, .each :: t.blocks⟩,
    [⟨moved "enter" (t.depth + 1), ⟨t.depth + 1, .each :: t.blocks⟩⟩]⟩

def hideOpen (t : Tracker) : Step Unit := ⟨.ok (), { t with blocks := .hide :: t.blocks }, []⟩

/-- The warning that a close met an open block of the other kind, or none of its own. -/
def warning (t : Tracker) (close : Block) : Imbalance → Log.Entry
  | .crossing _ innermost =>
    .trace 2 ("Warning: /".toList ++ close.name ++ " closes across an open #".toList
      ++ innermost.name)
  | _ =>
    .trace 2 ("Warning: unmatched /".toList ++ close.name ++ " clamped at depth ".toList
      ++ Text.ofNat t.depth)

def imbalance? (close : Block) (blocks : List Block) : Option Imbalance :=
  match blocks with
  | [] => some (.unmatched close)
  | innermost :: _ =>
    if innermost = close then none
    else if close ∈ blocks then some (.crossing close innermost)
    else some (.unmatched close)

/-- Closes the innermost block of a kind. -/
def close (s : Settings) (block : Block) (position : Option Int) (t : Tracker) : Step Unit :=
  match imbalance? block t.blocks with
  | none => ⟨.ok (), { t with blocks := t.blocks.tail }, []⟩
  | some cause =>
    if s.strictScopes then ⟨.error ⟨cause, position⟩, t, []⟩
    else
      ⟨.ok (), { t with blocks := t.blocks.erase block },
        [⟨warning t block cause, { t with blocks := t.blocks.erase block }⟩]⟩

/-- Closes an each block and gives the model of the scope around it. -/
def exit (s : Settings) (position : Option Int) (t : Tracker) : Step Text :=
  (close s .each position t).andThen fun _ t =>
    ⟨.ok (s.model (t.depth - 1)), { t with depth := t.depth - 1 },
      [⟨moved "exit" (t.depth - 1), { t with depth := t.depth - 1 }⟩]⟩

def hideClose (s : Settings) (position : Option Int) (t : Tracker) : Step Unit :=
  close s .hide position t

def unclosedWarning (t : Tracker) : Log.Entry :=
  .trace 2 ("Warning: unclosed block(s): ".toList ++ Block.names t.blocks.reverse)

def checkBalance (s : Settings) (t : Tracker) : Step Unit :=
  if t.blocks = [] then ⟨.ok (), t, []⟩
  else if s.strictScopes then ⟨.error ⟨.unclosed t.blocks.reverse, none⟩, t, []⟩
  else ⟨.ok (), t, [⟨unclosedWarning t, t⟩]⟩

end Tracker

end Stencil
