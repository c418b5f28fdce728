import Stencil.Proofs.Binding

/-!
# Names that cannot capture one another

An identifier is a stem with the digits of a depth behind it, so two stems have an identifier in
common exactly if one of them is an identifier of the other at a positive depth, or they are the
same. Settings are admitted if their names differ as they stand, which does not exclude that one of
them is an identifier of another. `NamesApart` excludes it, and then no name of generated code can
be captured by the parameters of the functions around it.
-/

namespace Stencil

/-! ### The digits of depths -/

namespace Text

/-- The digits of a number begin with the digits of another, which is positive if more follow. -/
theorem exists_of_ofNat_eq_append {n : Nat} {front back : Text} (h : ofNat n = front ++ back)
    (hfront : front ≠ []) (hback : back ≠ []) : ∃ m, 0 < m ∧ front = ofNat m := by
  induction n using Nat.strongRecOn generalizing back with
  | _ n ih =>
      obtain ⟨back, d, rfl⟩ := (List.eq_nil_or_concat back).resolve_left hback
      rw [ofNat, Nat.toDigits_eq_if (by decide), List.concat_eq_append, ← List.append_assoc] at h
      split at h
      · -- One digit cannot be two texts that are not empty.
        have hlength := congrArg List.length h
        have hpos := List.length_pos_iff.2 hfront
        simp at hlength
        omega
      · next hn =>
          have hrest : ofNat (n / 10) = front ++ back := List.append_inj_left' h rfl
          by_cases hnil : back = []
          · rw [hnil, List.append_nil] at hrest
            exact ⟨n / 10, by omega, hrest.symm⟩
          · exact ih (n / 10) (by omega) hrest hnil

private theorem ofNat_ten_mul {m : Nat} (h : 0 < m) : ofNat (10 * m) = ofNat m ++ ofNat 0 := by
  rw [ofNat, Nat.toDigits_eq_if (by decide), if_neg (by omega), Nat.mul_div_cancel_left m (by decide),
    Nat.mul_mod_right]
  rfl

end Text

namespace Settings

/-! ### Identifiers of two stems -/

theorem identifier_injective (stem : Text) : Function.Injective fun n : Nat => identifier stem n :=
  fun _ _ h => Text.ofNat_injective (List.append_cancel_left h)

/-- Where identifiers of two stems are the same, one stem is the other or an identifier of it. -/
theorem stem_of_identifier_eq {stem other : Text} {i j : Nat}
    (h : identifier stem i = identifier other j) :
    stem = other ∨ ∃ n : Nat, 0 < n ∧ (stem = identifier other n ∨ other = identifier stem n) := by
  rw [identifier, identifier, Text.ofInt_natCast, Text.ofInt_natCast] at h
  rcases List.append_eq_append_iff.1 h with ⟨rest, rfl, hdigits⟩ | ⟨rest, rfl, hdigits⟩
  all_goals
    by_cases hnil : rest = []
    · simp [hnil]
    · obtain ⟨n, hn, rfl⟩ := Text.exists_of_ofNat_eq_append hdigits hnil (Text.ofNat_ne_nil _)
      exact .inr ⟨n, hn, by simp [identifier]⟩

private theorem identifier_identifier {other : Text} {n : Nat} (hn : 0 < n) :
    identifier (identifier other n) (0 : Nat) = identifier other (10 * n : Nat) := by
  simp only [identifier, Text.ofInt_natCast, Text.ofNat_ten_mul hn, List.append_assoc]

/-- The depth at which a name is the identifier of a stem, if there is one. -/
def depthOf? (stem name : Text) : Option Nat :=
  (Text.dropFront? stem name).bind fun ds =>
    if Text.ofNat (Text.digitsValue ds) = ds then some (Text.digitsValue ds) else none

theorem depthOf?_eq_some_iff {stem name : Text} {n : Nat} :
    depthOf? stem name = some n ↔ name = identifier stem n := by
  rw [depthOf?, Option.bind_eq_some_iff, identifier, Text.ofInt_natCast]
  constructor
  · rintro ⟨ds, hname, hds⟩
    rw [Option.ite_none_right_eq_some] at hds
    obtain ⟨hds, hn⟩ := hds
    rw [Text.dropFront?_eq_some_iff.1 hname, ← Option.some.inj hn, hds]
  · rintro rfl
    refine ⟨_, Text.dropFront?_append _ _, ?_⟩
    rw [Text.digitsValue_ofNat, if_pos rfl]

/-! ### The names of settings -/

/-- The partial namespace is no identifier of a model or key, and of the stems of these two neither
is an identifier of the other at a positive depth. -/
def NamesApart (s : Settings) : Prop :=
  depthOf? s.modelName s.partialName = none ∧ depthOf? s.keyName s.partialName = none ∧
    (∀ n ∈ depthOf? s.keyName s.modelName, n = 0) ∧ ∀ n ∈ depthOf? s.modelName s.keyName, n = 0

instance (s : Settings) : Decidable s.NamesApart := inferInstanceAs (Decidable (_ ∧ _ ∧ _ ∧ _))

variable {s : Settings}

theorem depthOf?_eq_none_iff {stem name : Text} :
    depthOf? stem name = none ↔ ∀ n : Nat, identifier stem n ≠ name := by
  simp only [Option.eq_none_iff_forall_ne_some, ne_eq, depthOf?_eq_some_iff, eq_comm (a := name)]

theorem model_ne_key_iff (hne : s.modelName ≠ s.keyName) :
    (∀ i j, s.model i ≠ s.key j) ↔
      (∀ n ∈ depthOf? s.keyName s.modelName, n = 0) ∧
        ∀ n ∈ depthOf? s.modelName s.keyName, n = 0 := by
  simp only [Option.mem_def, depthOf?_eq_some_iff]
  constructor
  · intro h
    refine ⟨fun n hn => ?_, fun n hn => ?_⟩
    · by_contra hpos
      refine h 0 (10 * n) ?_
      rw [model, hn]
      exact identifier_identifier (Nat.pos_of_ne_zero hpos)
    · by_contra hpos
      refine h (10 * n) 0 ?_
      rw [key, hn]
      exact (identifier_identifier (Nat.pos_of_ne_zero hpos)).symm
  · rintro ⟨hmodel, hkey⟩ i j h
    rcases stem_of_identifier_eq h with heq | ⟨n, hn, heq | heq⟩
    · exact hne heq
    · exact hn.ne' (hmodel n heq)
    · exact hn.ne' (hkey n heq)

/-! ### The parameters of nested functions -/

open Binding

theorem find?_key (hkey : ∀ i j, s.model i ≠ s.key j) {i depth : Nat} (hpos : 0 < i)
    (h : i ≤ depth) : find? (s.key i) (s.functionsAt depth) = some (depth - i, 1) := by
  induction depth with
  | zero => omega
  | succ depth ih =>
      rw [functionsAt]
      by_cases hi : i = depth + 1
      · subst hi
        simp [find?, List.idxOf?_cons]
      · have hother : s.key i ≠ s.key (depth + 1) := fun he => hi (identifier_injective _ he)
        have hle : i ≤ depth := by omega
        rw [find?_cons_of_not_mem (by simp [hother, (hkey _ _).symm]), ih hle, Option.map_some,
          Nat.sub_add_comm hle]

/-- A name that is no identifier refers to no parameter. -/
theorem find?_eq_none {name : Text} (hmodel : ∀ i, s.model i ≠ name) (hkey : ∀ j, s.key j ≠ name)
    (depth : Nat) : find? name (s.functionsAt depth) = none := by
  induction depth with
  | zero => rw [functionsAt, find?_cons_of_not_mem (by simpa using (hmodel 0).symm)]; rfl
  | succ depth ih =>
      rw [functionsAt, find?_cons_of_not_mem, ih, Option.map_none]
      simpa using ⟨(hmodel _).symm, (hkey _).symm⟩

/-- The names of generated code are pairwise different, whatever their depths, exactly if the names
of the settings are apart. Then no function captures the partial namespace, and every model and key
refers to its own function. -/
theorem identifiers_ne_iff (hs : s.Admitted) :
    Function.Injective s.model ∧ Function.Injective s.key ∧
      ((∀ i j, s.model i ≠ s.key j ∧ s.model i ≠ s.partialName ∧ s.key j ≠ s.partialName) ↔
        s.NamesApart) ∧
      (s.NamesApart → ∀ depth, find? s.partialName (s.functionsAt depth) = none ∧
        ∀ i ≤ depth, find? (s.model i) (s.functionsAt depth) = some (depth - i, 0) ∧
          (0 < i → find? (s.key i) (s.functionsAt depth) = some (depth - i, 1))) := by
  obtain ⟨-, -, hne, -⟩ := admitted_iff.1 hs
  have hiff : (∀ i j, s.model i ≠ s.key j ∧ s.model i ≠ s.partialName ∧ s.key j ≠ s.partialName) ↔
      s.NamesApart := by
    rw [NamesApart, ← model_ne_key_iff hne, depthOf?_eq_none_iff, depthOf?_eq_none_iff]
    constructor
    · intro h
      exact ⟨fun i => (h i 0).2.1, fun j => (h 0 j).2.2, fun i j => (h i j).1⟩
    · rintro ⟨hmodel, hkey, hboth⟩ i j
      exact ⟨hboth i j, hmodel i, hkey j⟩
  refine ⟨s.model_injective, identifier_injective _, hiff, fun hapart depth => ?_⟩
  have hnames := hiff.2 hapart
  have hkeys : ∀ i j, s.model i ≠ s.key j := fun i j => (hnames i j).1
  exact ⟨find?_eq_none (fun i => (hnames i 0).2.1) (fun j => (hnames 0 j).2.2) depth,
    fun i hi => ⟨find?_model hkeys hi, fun hpos => find?_key hkeys hpos hi⟩⟩

/-- A stem that is the other with a zero behind it has no identifier in common with it. -/
theorem identifiers_ne_zero_behind :
    ({ keyName := "m0".toList, partialName := "m007".toList } : Settings).Admitted ∧
      ({ keyName := "m0".toList, partialName := "m007".toList } : Settings).model 11 ≠
        ({ keyName := "m0".toList, partialName := "m007".toList } : Settings).key 1 ∧
      find? "m007".toList (functionsAt
        { keyName := "m0".toList, partialName := "m007".toList } 3) = none ∧
      find? "m01".toList (functionsAt
        { keyName := "m0".toList, partialName := "m007".toList } 3) = some (2, 1) := by
  have hadmitted :
      ({ keyName := "m0".toList, partialName := "m007".toList } : Settings).Admitted := by
    decide
  have hapart :
      ({ keyName := "m0".toList, partialName := "m007".toList } : Settings).NamesApart := by
    decide
  obtain ⟨-, -, hiff, hfind⟩ := identifiers_ne_iff hadmitted
  obtain ⟨hnone, hnames⟩ := hfind hapart 3
  exact ⟨hadmitted, (hiff.2 hapart 11 1).1, hnone, (hnames 1 (by decide)).2 (by decide)⟩

/-- The partial namespace is captured by the function of an each block, and a key is captured by the
model of a deeper one. -/
theorem identifiers_eq_of_admitted :
    ({ partialName := "m1".toList } : Settings).Admitted ∧
      find? "m1".toList (({ partialName := "m1".toList } : Settings).functionsAt 1) = some (0, 0) ∧
      ({ keyName := "m1".toList } : Settings).Admitted ∧
      ({ keyName := "m1".toList } : Settings).model 11 =
        ({ keyName := "m1".toList } : Settings).key 1 := by
  refine ⟨by decide, by decide, by decide, by decide⟩

end Settings

end Stencil
