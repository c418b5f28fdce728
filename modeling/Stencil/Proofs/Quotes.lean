import Stencil.Proofs.Binding

/-!
# Inside and outside of string literals

Code is read from left to right with one thing in mind: whether the next character belongs to a
string literal, and to one in which quotes. The code of a directive is meant to end the literal
before it and to begin the next one. It does so if the names in the settings and the expression, as
it is written, end all literals that they begin. Literal text is escaped for its literal, but a
backslash in it can take the escape of a quote, or the quote behind the text, for its own.
-/

namespace Stencil

/-! ### The reader -/

def IsQuote (c : Char) : Prop := c = '\x27' ∨ c = '\x22' ∨ c = '\x60'

instance (c : Char) : Decidable (IsQuote c) := inferInstanceAs (Decidable (_ ∨ _))

/-- Where a reader of code is. -/
inductive Quoting where
  | code
  /-- In a string literal with the given quotes. -/
  | literal (quote : Char)
  /-- In a string literal, behind a backslash. -/
  | escape (quote : Char)
deriving DecidableEq, Repr

namespace Quoting

def next : Quoting → Char → Quoting
  | code, c => if IsQuote c then literal c else code
  | literal quote, c =>
    if c = quote then code else if c = '\\' then escape quote else literal quote
  | escape quote, _ => literal quote

def after (q : Quoting) (w : Text) : Quoting := w.foldl next q

theorem after_append (q : Quoting) (v w : Text) : q.after (v ++ w) = (q.after v).after w :=
  List.foldl_append

theorem after_cons (q : Quoting) (c : Char) (w : Text) : q.after (c :: w) = (q.next c).after w :=
  rfl

end Quoting

namespace Text

/-- Every string literal that begins in the code ends in it. -/
def IsClosed (w : Text) : Prop := Quoting.code.after w = .code

instance (w : Text) : Decidable w.IsClosed := inferInstanceAs (Decidable (_ = _))

/-- A reader that is in a single-quoted literal before the text is in one behind it. -/
def StaysQuoted (w : Text) : Prop := (Quoting.literal '\x27').after w = .literal '\x27'

instance (w : Text) : Decidable w.StaysQuoted := inferInstanceAs (Decidable (_ = _))

theorem IsClosed.append {v w : Text} (hv : v.IsClosed) (hw : w.IsClosed) : (v ++ w).IsClosed := by
  rw [IsClosed, Quoting.after_append, hv]
  exact hw

theorem isClosed_cons_iff {c : Char} (hc : ¬IsQuote c) {w : Text} :
    IsClosed (c :: w) ↔ w.IsClosed := by
  rw [IsClosed, Quoting.after_cons, Quoting.next, if_neg hc]
  rfl

private theorem isClosed_of_no_quote {w : Text} (h : ∀ c ∈ w, ¬IsQuote c) : w.IsClosed := by
  induction w with
  | nil => rfl
  | cons c w ih =>
      obtain ⟨hc, hw⟩ := List.forall_mem_cons.1 h
      exact (isClosed_cons_iff hc).2 (ih hw)

theorem StaysQuoted.append {v w : Text} (hv : v.StaysQuoted) (hw : w.StaysQuoted) :
    (v ++ w).StaysQuoted := by
  rw [StaysQuoted, Quoting.after_append, hv]
  exact hw

theorem IsClosed.staysQuoted {w front back : Text} (h : w.IsClosed)
    (hfront : (Quoting.literal '\x27').after front = .code)
    (hback : Quoting.code.after back = .literal '\x27') : (front ++ w ++ back).StaysQuoted := by
  rw [StaysQuoted, Quoting.after_append, Quoting.after_append, hfront, h]
  exact hback

private theorem staysQuoted_flatMap_escapeUnit {us : List (Option Char)} (h : some '\\' ∉ us) :
    StaysQuoted (us.flatMap escapeUnit) := by
  induction us with
  | nil => rfl
  | cons u us ih =>
      rw [List.mem_cons, not_or] at h
      rw [List.flatMap_cons]
      refine StaysQuoted.append ?_ (ih h.2)
      match u with
      | none => rfl
      | some c =>
          rw [escapeUnit]
          split
          · rfl
          · next hquote =>
              have hback : c ≠ '\\' := fun he => h.1 (by rw [he])
              simp [StaysQuoted, Quoting.after, Quoting.next, hquote, hback]

/-- Escaped text without a backslash stays in its literal. -/
theorem staysQuoted_escape {t : Text} (h : '\\' ∉ t) : (escape t).StaysQuoted :=
  staysQuoted_flatMap_escapeUnit fun hmem => h (of_some_mem_units hmem).1

end Text

/-! ### The code of directives -/

namespace Settings

/-- The names in the settings end all string literals that they begin. -/
structure HasClosedNames (s : Settings) : Prop where
  modelName : s.modelName.IsClosed
  keyName : s.keyName.IsClosed
  partialName : s.partialName.IsClosed
  mapMethod : s.mapMethod.IsClosed

theorem hasClosedNames_default : ({} : Settings).HasClosedNames :=
  ⟨by decide, by decide, by decide, by decide⟩

theorem isClosed_identifier {stem : Text} (h : stem.IsClosed) (depth : Nat) :
    (identifier stem depth).IsClosed := by
  refine h.append (Text.isClosed_of_no_quote fun c (hc : c ∈ identifier [] depth) => ?_)
  have hdigit : c.isDigit = true := (of_mem_identifier hc).resolve_left (by simp)
  rintro (rfl | rfl | rfl) <;> cases hdigit

theorem isClosed_splitParents_iff {e : Text} : (splitParents e).2.IsClosed ↔ e.IsClosed := by
  fun_induction splitParents e with
  | case1 r ih =>
      rw [ih, Text.isClosed_cons_iff (by decide), Text.isClosed_cons_iff (by decide),
        Text.isClosed_cons_iff (by decide)]
  | case2 => rfl

variable {s : Settings}

theorem HasClosedNames.model (hs : s.HasClosedNames) (depth : Nat) : (s.model depth).IsClosed :=
  isClosed_identifier hs.modelName depth

theorem HasClosedNames.key (hs : s.HasClosedNames) (depth : Nat) : (s.key depth).IsClosed :=
  isClosed_identifier hs.keyName depth

theorem HasClosedNames.member (hs : s.HasClosedNames) {path : Text} (h : path.IsClosed)
    (depth : Nat) : (s.member depth path).IsClosed := by
  rw [Settings.member]
  split
  · exact hs.model depth
  · exact (hs.model depth).append ((Text.isClosed_cons_iff (by decide)).2 h)

theorem HasClosedNames.reference (hs : s.HasClosedNames) {e : Text} (he : e.IsClosed)
    (depth : Nat) : (s.reference depth e).IsClosed :=
  hs.member (isClosed_splitParents_iff.2 he) _

end Settings

/-- The code behind an expression that is compared with the value of the current model. -/
def Settings.attributeEnd (s : Settings) (depth : Nat) (word : String) : Text :=
  "==".toList ++ s.model depth ++ ".value)?'".toList ++ word.toList ++ "':'')+'".toList

/-- The code before and after what an expression stands for, if the kind reads one in a model. -/
def Kind.around? (s : Settings) (depth : Nat) : Kind → Option (Text × Text)
  | each => some ("'+".toList ++ s.mapMethod ++ ['('],
      ", function(".toList ++ s.model (depth + 1) ++ ',' :: s.key (depth + 1)
        ++ ") \x7b return '".toList)
  | hide => some ("'+(!(".toList, ")?('".toList)
  | selectedIf => some ("'+((".toList, s.attributeEnd depth "selected")
  | checkedIf => some ("'+((".toList, s.attributeEnd depth "checked")
  | interpolation => some ("'+".toList, "+'".toList)
  | eachEnd | hideEnd | partialCall | key => none

def Kind.writesExpression : Kind → Bool
  | each | hide | selectedIf | checkedIf | partialCall | interpolation => true
  | eachEnd | hideEnd | key => false

variable {s : Settings} {depth : Nat} {d : Directive} {front back : Text}

theorem Settings.HasClosedNames.after_attributeEnd (hs : s.HasClosedNames) {word : String}
    (hword : Text.StaysQuoted word.toList) :
    Quoting.code.after (s.attributeEnd depth word) = .literal '\x27' := by
  have hequal : Text.IsClosed "==".toList := rfl
  have hthen : Quoting.code.after ".value)?'".toList = .literal '\x27' := rfl
  have helse : Text.StaysQuoted "':'')+'".toList := rfl
  delta attributeEnd
  rw [Quoting.after_append, Quoting.after_append, Quoting.after_append,
    hequal.append (hs.model depth), hthen, hword]
  exact helse

/-- An expression stands between the end of one string literal and the begin of the next. -/
theorem Kind.after_of_around? {kind : Kind} (hs : s.HasClosedNames)
    (h : kind.around? s depth = some (front, back)) :
    (Quoting.literal '\x27').after front = .code ∧
      Quoting.code.after back = .literal '\x27' := by
  cases kind with
  | each =>
      obtain ⟨rfl, rfl⟩ := Prod.mk.inj (Option.some.inj h)
      have hleave : (Quoting.literal '\x27').after "'+".toList = .code := rfl
      have hopen : Text.IsClosed ['('] := rfl
      have hfunction : Text.IsClosed ", function(".toList := rfl
      have hkey := (Text.isClosed_cons_iff (c := ',') (by decide)).2
        (hs.key (depth + 1))
      have hparameters := (hfunction.append (hs.model (depth + 1))).append hkey
      constructor
      · rw [Quoting.after_append, Quoting.after_append, hleave, hs.mapMethod]
        exact hopen
      · rw [Quoting.after_append, hparameters]
        rfl
  | selectedIf | checkedIf =>
      obtain ⟨rfl, rfl⟩ := Prod.mk.inj (Option.some.inj h)
      exact ⟨rfl, hs.after_attributeEnd rfl⟩
  | hide | interpolation =>
      obtain ⟨rfl, rfl⟩ := Prod.mk.inj (Option.some.inj h)
      exact ⟨rfl, rfl⟩
  | eachEnd | hideEnd | partialCall | key => cases h

namespace Directive

theorem code_of_around? (h : d.kind.around? s depth = some (front, back)) :
    d.code s depth = front ++ s.reference depth d.expression ++ back := by
  obtain ⟨kind, e⟩ := d
  cases kind with
  | each | hide | interpolation =>
      obtain ⟨rfl, rfl⟩ := Prod.mk.inj (Option.some.inj h)
      simp [code]
  | selectedIf | checkedIf =>
      obtain ⟨rfl, rfl⟩ := Prod.mk.inj (Option.some.inj h)
      refine (s.attributeIf_eq depth e _).trans ?_
      delta comparison Settings.attributeEnd
      simp
  | eachEnd | hideEnd | partialCall | key => cases h

private theorem staysQuoted_code (hs : s.HasClosedNames)
    (he : d.kind.writesExpression = true → d.expression.IsClosed) :
    (d.code s depth).StaysQuoted := by
  have hreads {front back : Text} (h : d.kind.around? s depth = some (front, back))
      (hwrites : d.kind.writesExpression = true) : (d.code s depth).StaysQuoted := by
    rw [code_of_around? h]
    obtain ⟨hfront, hback⟩ := Kind.after_of_around? hs h
    exact (hs.reference (he hwrites) depth).staysQuoted hfront hback
  obtain ⟨kind, e⟩ := d
  cases kind with
  | each | hide | selectedIf | checkedIf | interpolation => exact hreads rfl rfl
  | eachEnd | hideEnd => rfl
  | partialCall =>
      have hname := hs.partialName.append ((Text.isClosed_cons_iff (c := '.') (by decide)).2
        (he rfl))
      have hcall := hname.append ((Text.isClosed_cons_iff (c := '(') (by decide)).2
        (hs.model depth))
      have hcode : Text.StaysQuoted ("'+".toList ++ _ ++ ")+'".toList) := hcall.staysQuoted rfl rfl
      simpa only [code, List.append_assoc, List.cons_append] using hcode
  | key => exact (hs.key depth).staysQuoted rfl rfl

end Directive

/-! ### The code of pieces -/

namespace Piece

/-- Behind the code of the piece a reader is in a string literal if it was in one before. -/
def StaysQuoted : Piece → Prop
  | literal t => t.StaysQuoted
  | tag inner => (Directive.ofInner inner).kind.writesExpression = true →
      (Directive.ofInner inner).expression.IsClosed

theorem staysQuoted_codeAll (hs : s.HasClosedNames) {ps : List Piece}
    (h : ∀ p ∈ ps, p.StaysQuoted) : (codeAll s depth ps).code.StaysQuoted := by
  induction ps generalizing depth with
  | nil => rfl
  | cons p ps ih =>
      obtain ⟨hp, hps⟩ := List.forall_mem_cons.1 h
      refine Text.StaysQuoted.append ?_ (ih hps)
      match p with
      | literal t => exact hp
      | tag inner => exact Directive.staysQuoted_code hs hp

end Piece

theorem Settings.HasClosedNames.after_functionOpening (hs : s.HasClosedNames) :
    Quoting.code.after s.functionOpening = .literal '\x27' := by
  have hfunction : Text.IsClosed "function(".toList := rfl
  have hreturn : Quoting.code.after ")\x7breturn '".toList = .literal '\x27' := rfl
  delta functionOpening
  rw [Quoting.after_append, hfunction.append (hs.model 0), hreturn]

end Stencil
