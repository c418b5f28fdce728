import Stencil.Proofs.Digits
import Stencil.Proofs.Emission
import Stencil.Proofs.Pieces

/-!
# Generated code is well formed

A reader of the generated code only has to tell strings from code and to match brackets. It reads
from left to right with a mode and a stack of open brackets. The code of each tag begins and ends
inside a string, and what it leaves open is known: an each block leaves the call of the map method
and the body of its function open, a hide block two parentheses. So between any two pieces the
reader is inside a string, and its stack is that of the tracker with the brackets of each block in
place of the block.
-/

namespace Stencil

namespace Lexer

/-! ### The reader -/

inductive Bracket where
  | round
  | square
  | curly
deriving DecidableEq, Repr

def Bracket.opening? : Char → Option Bracket
  | '(' => some round
  | '[' => some square
  | '{' => some curly
  | _ => none

def Bracket.closing? : Char → Option Bracket
  | ')' => some round
  | ']' => some square
  | '}' => some curly
  | _ => none

/-- What the next character is part of: code, a string, or an escape in a string. -/
inductive Mode where
  | code
  | quoted
  | escaped
deriving DecidableEq, Repr

/-- What is known after the characters so far, with the open brackets, innermost first. -/
structure State where
  mode : Mode
  brackets : List Bracket
deriving DecidableEq, Repr

/-- Reads a character, unless it is a bracket that does not close the innermost open one. -/
def step (s : State) (c : Char) : Option State :=
  match s.mode with
  | .escaped => some { s with mode := .quoted }
  | .quoted =>
    if c = '\x27' then some { s with mode := .code }
    else if c = '\\' then some { s with mode := .escaped }
    else some s
  | .code =>
    if c = '\x27' then some { s with mode := .quoted }
    else
      match Bracket.opening? c, Bracket.closing? c with
      | some b, _ => some { s with brackets := b :: s.brackets }
      | none, some b =>
        if s.brackets.head? = some b then some { s with brackets := s.brackets.tail } else none
      | none, none => some s

def read (s : State) (w : Text) : Option State := w.foldlM step s

/-- Every string is closed, and brackets in code are matched and properly nested. -/
def IsWellFormed (code : Text) : Prop := read ⟨.code, []⟩ code = some ⟨.code, []⟩

/-- A character that is part of code and neither begins a string nor opens or closes a bracket. -/
def IsNeutral (c : Char) : Prop :=
  c ≠ '\x27' ∧ Bracket.opening? c = none ∧ Bracket.closing? c = none

instance (c : Char) : Decidable (IsNeutral c) := inferInstanceAs (Decidable (_ ∧ _ ∧ _))

def Reads (s : State) (w : Text) (t : State) : Prop := read s w = some t

theorem Reads.append {s t u : State} {v w : Text} (h : Reads s v t) (h' : Reads t w u) :
    Reads s (v ++ w) u := by
  rw [Reads, read, List.foldlM_append]
  exact Option.bind_eq_some_iff.2 ⟨t, h, h'⟩

theorem Reads.cons {s t u : State} {c : Char} {w : Text} (h : step s c = some t)
    (h' : Reads t w u) : Reads s (c :: w) u := by
  rw [Reads, read, List.foldlM_cons, h]
  exact h'

theorem reads_nil (s : State) : Reads s [] s := rfl

/-! ### Texts that leave the brackets as they are -/

variable {brackets : List Bracket}

theorem step_neutral {c : Char} (h : IsNeutral c) :
    step ⟨.code, brackets⟩ c = some ⟨.code, brackets⟩ := by
  simp [step, h.1, h.2.1, h.2.2]

private theorem step_round (brackets : List Bracket) :
    step ⟨.code, brackets⟩ '(' = some ⟨.code, .round :: brackets⟩ := rfl

theorem reads_neutral {w : Text} (h : ∀ c ∈ w, IsNeutral c) :
    Reads ⟨.code, brackets⟩ w ⟨.code, brackets⟩ := by
  induction w with
  | nil => exact reads_nil _
  | cons c w ih =>
      obtain ⟨hc, hw⟩ := List.forall_mem_cons.1 h
      exact .cons (step_neutral hc) (ih hw)

private theorem reads_flatMap_escapeUnit {us : List (Option Char)} (h : some '\\' ∉ us) :
    Reads ⟨.quoted, brackets⟩ (us.flatMap Text.escapeUnit) ⟨.quoted, brackets⟩ := by
  induction us with
  | nil => exact reads_nil _
  | cons u us ih =>
      rw [List.mem_cons, not_or] at h
      rw [List.flatMap_cons]
      refine .append ?_ (ih h.2)
      match u with
      | none => rfl
      | some c =>
          rw [Text.escapeUnit]
          split
          · rfl
          · next hquote =>
              have hback : c ≠ '\\' := fun he => h.1 (by rw [he])
              refine .cons ?_ (reads_nil _)
              rw [step, if_neg hquote, if_neg hback]

/-- Escaped text without a backslash stays inside the string. -/
theorem reads_escape {s : Text} (h : '\\' ∉ s) :
    Reads ⟨.quoted, brackets⟩ (Text.escape s) ⟨.quoted, brackets⟩ :=
  reads_flatMap_escapeUnit fun hmem => h (Text.of_some_mem_units hmem).1

/-! ### Names and references -/

private theorem isNeutral_of_isDigit {c : Char} (h : c.isDigit = true) : IsNeutral c := by
  refine ⟨?_, ?_, ?_⟩
  · rintro rfl
    cases h
  · fun_cases Bracket.opening? c with
    | case1 | case2 | case3 => cases h
    | case4 => rfl
  · fun_cases Bracket.closing? c with
    | case1 | case2 | case3 => cases h
    | case4 => rfl

end Lexer

namespace Settings

open Lexer

/-- The names in the settings have no quotes and no brackets. -/
structure HasNeutralNames (s : Settings) : Prop where
  modelName : ∀ c ∈ s.modelName, IsNeutral c
  keyName : ∀ c ∈ s.keyName, IsNeutral c
  partialName : ∀ c ∈ s.partialName, IsNeutral c
  mapMethod : ∀ c ∈ s.mapMethod, IsNeutral c

theorem hasNeutralNames_default : ({} : Settings).HasNeutralNames :=
  ⟨by decide, by decide, by decide, by decide⟩

theorem isNeutral_identifier {stem : Text} (h : ∀ c ∈ stem, IsNeutral c) (depth : Nat) :
    ∀ c ∈ identifier stem depth, IsNeutral c := by
  intro c hc
  rcases of_mem_identifier hc with hstem | hdigit
  · exact h c hstem
  · exact isNeutral_of_isDigit hdigit

theorem mem_of_mem_splitParents {e : Text} {c : Char} (h : c ∈ (splitParents e).2) : c ∈ e := by
  rw [eq_of_splitParents e]
  exact List.mem_append_right _ h

variable {s : Settings}

theorem HasNeutralNames.reads_model (hs : s.HasNeutralNames) (depth : Nat)
    (brackets : List Bracket) : Reads ⟨.code, brackets⟩ (s.model depth) ⟨.code, brackets⟩ :=
  reads_neutral (isNeutral_identifier hs.modelName depth)

theorem HasNeutralNames.reads_key (hs : s.HasNeutralNames) (depth : Nat)
    (brackets : List Bracket) : Reads ⟨.code, brackets⟩ (s.key depth) ⟨.code, brackets⟩ :=
  reads_neutral (isNeutral_identifier hs.keyName depth)

theorem HasNeutralNames.reads_reference (hs : s.HasNeutralNames) {e : Text}
    (he : ∀ c ∈ e, IsNeutral c) (depth : Nat) (brackets : List Bracket) :
    Reads ⟨.code, brackets⟩ (s.reference depth e) ⟨.code, brackets⟩ := by
  refine reads_neutral ?_
  intro c hc
  change c ∈ s.member (depth - (splitParents e).1) (splitParents e).2 at hc
  rw [member] at hc
  split at hc
  · exact isNeutral_identifier hs.modelName _ c hc
  · rw [List.mem_append, List.mem_cons] at hc
    rcases hc with hmodel | rfl | hpath
    · exact isNeutral_identifier hs.modelName _ c hmodel
    · decide
    · exact he c (mem_of_mem_splitParents hpath)

end Settings

/-! ### The code of pieces -/

open Lexer

/-- The brackets that the code of a block leaves open, innermost first. -/
def Block.brackets : Block → List Bracket
  | each => [.curly, .round]
  | hide => [.round, .round]

/-- The brackets that are open inside blocks, those of the function itself among them. -/
def Block.allBrackets (blocks : List Block) : List Bracket :=
  blocks.flatMap Block.brackets ++ [.curly]

namespace Directive

variable {s : Settings} {depth : Nat} {d : Directive} {blocks next : List Block}

private theorem reads_attributeIf (hs : s.HasNeutralNames) {e : Text} (he : ∀ c ∈ e, IsNeutral c)
    {word : String} (brackets : List Bracket)
    (hword : ∀ brackets, Reads ⟨.quoted, brackets⟩ word.toList ⟨.quoted, brackets⟩) :
    Reads ⟨.quoted, brackets⟩ (s.attributeIf depth e word) ⟨.quoted, brackets⟩ := by
  have hbegin : Reads ⟨.quoted, brackets⟩ "'+((".toList
    ⟨.code, .round :: .round :: brackets⟩ := rfl
  have href := hs.reads_reference he depth (.round :: .round :: brackets)
  have hequal : Reads ⟨.code, .round :: .round :: brackets⟩ "==".toList
    ⟨.code, .round :: .round :: brackets⟩ := rfl
  have hvalue := hs.reads_reference (e := "value".toList) (by decide) depth
    (.round :: .round :: brackets)
  have hthen : Reads ⟨.code, .round :: .round :: brackets⟩ ")?'".toList
    ⟨.quoted, .round :: brackets⟩ := rfl
  have hend : Reads ⟨.quoted, .round :: brackets⟩ "':'')+'".toList ⟨.quoted, brackets⟩ := rfl
  exact (((((hbegin.append href).append hequal).append hvalue).append hthen).append
    (hword _)).append hend

/-- The code of a directive begins and ends inside a string, and the brackets change with the
blocks. -/
theorem reads_code (hs : s.HasNeutralNames) (he : ∀ c ∈ d.expression, IsNeutral c)
    (h : Mark.nestAll blocks d.kind.mark?.toList = some next) :
    Reads ⟨.quoted, Block.allBrackets blocks⟩ (d.code s depth)
      ⟨.quoted, Block.allBrackets next⟩ := by
  obtain ⟨kind, e⟩ := d
  have hleave : Reads ⟨.quoted, Block.allBrackets blocks⟩ "'+".toList
    ⟨.code, Block.allBrackets blocks⟩ := rfl
  have henter : Reads ⟨.code, Block.allBrackets blocks⟩ "+'".toList
    ⟨.quoted, Block.allBrackets blocks⟩ := rfl
  cases kind with
  | each =>
      obtain rfl : .each :: blocks = next := Option.some.inj h
      have hmap := hleave.append (reads_neutral hs.mapMethod)
      have hcall := hmap.append (.cons (step_round _) (hs.reads_reference he depth _))
      -- The parameters close their own parenthesis, so the call and the body stay open.
      have hfunction : Reads ⟨.code, .round :: Block.allBrackets blocks⟩ ", function(".toList
        ⟨.code, .round :: .round :: Block.allBrackets blocks⟩ := rfl
      have hmodel := (hcall.append hfunction).append (hs.reads_model (depth + 1) _)
      have hcomma : IsNeutral ',' := by decide
      have hkey := hmodel.append (.cons (step_neutral hcomma) (hs.reads_key (depth + 1) _))
      exact hkey.append rfl
  | eachEnd =>
      obtain ⟨hhead, rfl⟩ := Mark.nestAll_singleton_closes.1 h
      obtain ⟨outer, rfl⟩ := List.head?_eq_some_iff.1 hhead
      rfl
  | hide =>
      obtain rfl : .hide :: blocks = next := Option.some.inj h
      have hbegin : Reads ⟨.quoted, Block.allBrackets blocks⟩ "'+(!(".toList
        ⟨.code, .round :: .round :: Block.allBrackets blocks⟩ := rfl
      exact (hbegin.append (hs.reads_reference he depth _)).append rfl
  | hideEnd =>
      obtain ⟨hhead, rfl⟩ := Mark.nestAll_singleton_closes.1 h
      obtain ⟨outer, rfl⟩ := List.head?_eq_some_iff.1 hhead
      rfl
  | selectedIf | checkedIf =>
      obtain rfl : blocks = next := Option.some.inj h
      exact reads_attributeIf hs he _ fun _ => rfl
  | partialCall =>
      obtain rfl : blocks = next := Option.some.inj h
      have hname := hleave.append (reads_neutral hs.partialName)
      have hdot : IsNeutral '.' := by decide
      have hmember := hname.append (.cons (step_neutral hdot) (reads_neutral he))
      have hmodel := hmember.append (.cons (step_round _) (hs.reads_model depth _))
      exact hmodel.append rfl
  | key =>
      obtain rfl : blocks = next := Option.some.inj h
      exact (hleave.append (hs.reads_key depth _)).append henter
  | interpolation =>
      obtain rfl : blocks = next := Option.some.inj h
      exact (hleave.append (hs.reads_reference he depth _)).append henter

end Directive

namespace Piece

variable {s : Settings} {depth : Nat} {blocks next : List Block}

/-- Literal text stays inside a string, and the expression of a tag has no quotes and brackets. -/
def IsReadable : Piece → Prop
  | literal t => ∀ brackets, Reads ⟨.quoted, brackets⟩ t ⟨.quoted, brackets⟩
  | tag inner => ∀ c ∈ (Directive.ofInner inner).expression, IsNeutral c

theorem reads_code {p : Piece} (hs : s.HasNeutralNames) (hp : p.IsReadable)
    (h : Mark.nestAll blocks (marks [p]) = some next) :
    Reads ⟨.quoted, Block.allBrackets blocks⟩ (p.code s depth)
      ⟨.quoted, Block.allBrackets next⟩ := by
  match p with
  | literal t =>
      obtain rfl : blocks = next := Option.some.inj h
      exact hp _
  | tag inner =>
      rw [marks_tag] at h
      exact Directive.reads_code hs hp h

/-- Between pieces the reader is inside a string, and its brackets are those of the open blocks. -/
theorem reads_codeAll {ps : List Piece} (hs : s.HasNeutralNames) (hps : ∀ p ∈ ps, p.IsReadable)
    (h : Mark.nestAll blocks (marks ps) = some next) :
    Reads ⟨.quoted, Block.allBrackets blocks⟩ (codeAll s depth ps).code
      ⟨.quoted, Block.allBrackets next⟩ := by
  induction ps generalizing depth blocks with
  | nil =>
      obtain rfl : blocks = next := Option.some.inj h
      exact reads_nil _
  | cons p ps ih =>
      obtain ⟨hp, hps⟩ := List.forall_mem_cons.1 hps
      obtain ⟨middle, hmiddle, hnext⟩ := nestAll_marks_cons.1 h
      exact (reads_code hs hp hmiddle).append (ih hps hnext)

private theorem isReadable_of_mem_ofSource {source : Text} (hback : '\\' ∉ source)
    (hexpr : ∀ inner, tag inner ∈ ofSource source →
      ∀ c ∈ (Directive.ofInner inner).expression, IsNeutral c)
    {p : Piece} (hp : p ∈ ofSource source) : p.IsReadable := by
  match p with
  | tag inner => exact hexpr inner hp
  | literal t =>
      intro brackets
      rw [ofSource, ofText_escape] at hp
      obtain ⟨raw, hraw, heq⟩ := List.mem_map.1 hp
      match raw with
      | tag inner => cases heq
      | literal r =>
          obtain rfl := Piece.literal.inj heq
          refine reads_escape fun hmem => hback ?_
          refine (Text.trim_isInfix source).subset ?_
          rw [← flatMap_text_ofText (Text.trim source)]
          exact List.mem_flatMap.2 ⟨_, hraw, hmem⟩

end Piece

namespace Compiler

/-! ### Generated functions -/

private theorem isWellFormed_wrapped {c : Compiler} {body : Text} (hs : c.settings.HasNeutralNames)
    (h : Reads ⟨.quoted, [.curly]⟩ body ⟨.quoted, [.curly]⟩) : IsWellFormed (c.wrapped body) := by
  have hfunction : Reads ⟨.code, []⟩ "function(".toList ⟨.code, [.round]⟩ := rfl
  have hmodel := hfunction.append (hs.reads_model 0 _)
  have hopening : Reads ⟨.code, []⟩ c.settings.functionOpening ⟨.quoted, [.curly]⟩ :=
    hmodel.append rfl
  exact (hopening.append h).append rfl

/-- A template without backslashes whose blocks are well nested, and whose expressions have no
quotes and brackets, is compiled to well formed code. -/
theorem isWellFormed_compile (options : Options) (minifier : Minifier) {source : Text}
    (hminify : options.wantsMinify (Text.trim source) = false) (hback : '\\' ∉ source)
    (hnested : WellNested (Piece.marks (Piece.ofSource source)))
    (hexpr : ∀ inner, .tag inner ∈ Piece.ofSource source →
      ∀ c ∈ (Directive.ofInner inner).expression, IsNeutral c) :
    ∃ code, (({ options, minifier } : Compiler).compile source).result = .ok code ∧
      IsWellFormed code := by
  refine ⟨_, result_compile_of_wellNested hminify hnested, ?_⟩
  refine isWellFormed_wrapped Settings.hasNeutralNames_default ?_
  exact Piece.reads_codeAll Settings.hasNeutralNames_default
    (fun p hp => Piece.isReadable_of_mem_ofSource hback hexpr hp) (hnested.nestAll_eq [])

theorem isWellFormed_compile_each :
    '\\' ∉ "\x7b\x7b#each a\x7d\x7dit's (\x7b\x7b/each\x7d\x7d".toList ∧
      ∃ code, (({ minifier := .keep } : Compiler).compile
          "\x7b\x7b#each a\x7d\x7dit's (\x7b\x7b/each\x7d\x7d".toList).result = .ok code ∧
        IsWellFormed code := by
  have hback : '\\' ∉ "\x7b\x7b#each a\x7d\x7dit's (\x7b\x7b/each\x7d\x7d".toList := by decide
  have hsource : Piece.ofSource "\x7b\x7b#each a\x7d\x7dit's (\x7b\x7b/each\x7d\x7d".toList
      = [.tag "#each a".toList, .literal "it\\'s (".toList, .tag "/each".toList] := by
    change Piece.ofText (Piece.opening ++ "#each a".toList ++ Piece.closing
      ++ ("it\\'s (".toList ++ (Piece.opening ++ "/each".toList ++ Piece.closing ++ []))) = _
    rw [Piece.ofText_tag (by decide), Piece.ofText_append (by decide) (by decide),
      Piece.ofText_tag (by decide), Piece.ofText]
    rfl
  refine ⟨hback, isWellFormed_compile {} .keep rfl hback ?_ ?_⟩
  · rw [hsource, wellNested_iff_nestAll]
    rfl
  · rw [hsource]
    intro inner hinner
    simp only [List.mem_cons, List.not_mem_nil, or_false, Piece.tag.injEq, reduceCtorEq,
      false_or] at hinner
    rcases hinner with rfl | rfl <;> decide

end Compiler

end Stencil
