import Stencil.Proofs.Handover
import Stencil.Proofs.Resolution

/-!
# What the markup minifier is asked for

The standard way of minifying calls the markup minifier once, unless the options ask for what it
cannot do: then it is not called, and the template is not compiled. Options that were resolved give
every option of the minifier under its first key and nothing under the second, so a call has the
arguments that the options come to, and the members of the object that give no option, which may
take their place.
-/

namespace Stencil

/-! ### What options come to -/

def HtmlFlag.attributes : List HtmlFlag :=
  [removeAttributeQuotes, removeRedundantAttributes, removeEmptyAttributes]

namespace HtmlOptions

/-- The options ask for what the markup minifier cannot do: to keep white space, to shorten
attributes in some ways and not in others, or to shorten them and keep boolean attributes. -/
def Unfulfillable (h : HtmlOptions) : Prop :=
  h.flag .collapseWhitespace = false ∨
    ((∃ f ∈ HtmlFlag.attributes, h.flag f = true) ∧ ∃ f ∈ HtmlFlag.attributes, h.flag f = false) ∨
      (∀ f ∈ HtmlFlag.attributes, h.flag f = true) ∧ h.flag .collapseBooleanAttributes = false

instance (h : HtmlOptions) : Decidable h.Unfulfillable := inferInstanceAs (Decidable (_ ∨ _))

def entries (h : HtmlOptions) : Object :=
  [("keep_comments".toList, .bool !h.flag .removeComments),
    ("keep_closing_tags".toList, .bool !h.flag .removeOptionalTags),
    ("keep_html_and_head_opening_tags".toList, .bool !h.flag .removeOptionalTags),
    ("keep_input_type_text_attr".toList, .bool !h.flag .removeRedundantAttributes),
    ("minify_doctype".toList, .bool (h.flag .useShortDoctype)),
    ("preserve_brace_template_syntax".toList, .bool true)]

/-- The arguments are those that the options come to, with every member of the object that gives
no option in their place or beside them. No option is among them. -/
structure Passes (h : HtmlOptions) (members args : Object) : Prop where
  distinct : (args.map Prod.fst).Nodup
  computed : ∀ key, key ∉ members.map Prod.fst → args.get? key = h.entries.get? key
  given : ∀ key v, (key, v) ∈ members → (∀ f : HtmlFlag, f.spelling.names key = false) →
    args.get? key = some v
  known : ∀ f : HtmlFlag, f.key ∉ args.map Prod.fst ∧ f.snakeKey ∉ args.map Prod.fst

variable {h : HtmlOptions}

theorem nodup_entries (h : HtmlOptions) : (h.entries.map Prod.fst).Nodup := by
  change (({} : HtmlOptions).entries.map Prod.fst).Nodup
  decide +kernel

theorem not_mem_entries (h : HtmlOptions) (f : HtmlFlag) :
    f.key ∉ h.entries.map Prod.fst ∧ f.snakeKey ∉ h.entries.map Prod.fst := by
  have hall : ∀ f ∈ HtmlFlag.all, f.key ∉ ({} : HtmlOptions).entries.map Prod.fst ∧
      f.snakeKey ∉ ({} : HtmlOptions).entries.map Prod.fst := by decide +kernel
  exact hall f f.mem_all

theorem isOn_toObject (h : HtmlOptions) (f : HtmlFlag) : Html.isOn h.toObject f = h.flag f := by
  rw [Html.isOn, get?_toObject_key]
  rfl

theorem hidesAttributes_toObject {b : Bool} : Html.hidesAttributes h.toObject = .ok b ↔
    ∀ f ∈ HtmlFlag.attributes, h.flag f = !b := by
  simp only [Html.hidesAttributes, isOn_toObject, HtmlFlag.attributes, List.forall_mem_cons,
    List.not_mem_nil]
  cases h.flag .removeAttributeQuotes <;> cases h.flag .removeRedundantAttributes <;>
    cases h.flag .removeEmptyAttributes <;> cases b <;> simp

theorem check_toObject {b : Bool} : Html.check h.toObject = .ok b ↔
    h.flag .collapseWhitespace = true ∧ Html.hidesAttributes h.toObject = .ok b ∧
      (b = false → h.flag .collapseBooleanAttributes = true) := by
  simp only [Html.check, isOn_toObject]
  cases h.flag .collapseWhitespace with
  | false => simp
  | true =>
      rcases Html.hidesAttributes h.toObject with _ | _ | _
      · simp
      · cases h.flag .collapseBooleanAttributes <;> cases b <;> simp
      · cases b <;> simp

/-- The options pass the check if the markup minifier can do what they ask for. -/
theorem not_unfulfillable_iff : ¬h.Unfulfillable ↔ ∃ b, Html.check h.toObject = .ok b := by
  simp only [check_toObject, hidesAttributes_toObject]
  rw [Unfulfillable]
  constructor
  · intro hnot
    obtain ⟨hspace, hmixed, hboolean⟩ := by simpa only [not_or] using hnot
    rw [Bool.not_eq_false] at hspace
    by_cases hall : ∀ f ∈ HtmlFlag.attributes, h.flag f = true
    · refine ⟨false, hspace, hall, ?_⟩
      intro _
      by_contra hkept
      exact hboolean ⟨hall, by simpa using hkept⟩
    · refine ⟨true, hspace, ?_, nofun⟩
      intro f hf
      by_contra hon
      apply hmixed
      push Not at hall
      obtain ⟨g, hg, hoff⟩ := hall
      exact ⟨⟨f, hf, by simpa using hon⟩, g, hg, by simpa using hoff⟩
  · rintro ⟨b, hspace, hall, hboolean⟩ (hkept | ⟨⟨f, hf, hon⟩, g, hg, hoff⟩ | ⟨hon, hkept⟩)
    · rw [hspace] at hkept
      cases hkept
    · rw [hall f hf] at hon
      rw [hall g hg, hon] at hoff
      cases hoff
    · have hb := (hall .removeAttributeQuotes List.mem_cons_self).symm.trans
        (hon _ List.mem_cons_self)
      rw [hboolean (by simpa using hb)] at hkept
      cases hkept

namespace Kept

variable (hkept : h.Kept)
include hkept

theorem unknown_toObject : Html.unknown h.toObject = h.extras := by
  have hflags : ∀ m ∈ h.flags, ¬(!Html.isKnown m.1) = true := by
    intro m hm
    obtain ⟨f, hf, rfl⟩ := List.mem_map.1 hm
    rw [Bool.not_eq_true', Bool.not_eq_false, Html.isKnown, List.any_eq_true]
    exact ⟨f, hf, BEq.rfl⟩
  have hknown : ∀ m ∈ h.extras, (!Html.isKnown m.1) = true := by
    intro m hm
    rw [Bool.not_eq_true', Html.isKnown, List.any_eq_false]
    intro f _ hkey
    rw [beq_iff_eq] at hkey
    have hnone := hkept.get?_extras f.spelling_mem (Spelling.names_iff.2 (.inl rfl))
    apply Table.get?_eq_none_iff.1 hnone
    exact List.mem_map.2 ⟨m, hm, hkey.symm⟩
  calc Html.unknown h.toObject
      = h.flags.filter (fun m => !Html.isKnown m.1) ++
          h.extras.filter fun m => !Html.isKnown m.1 := List.filter_append _ _
    _ = h.extras := by
        rw [List.filter_eq_nil_iff.2 hflags, List.filter_eq_self.2 hknown, List.nil_append]

theorem arguments_toObject : Html.arguments h.toObject = h.entries.update h.extras := by
  rw [Html.arguments, hkept.unknown_toObject, Html.knownArguments]
  simp only [isOn_toObject]
  rfl

private theorem passes_arguments {members : Object} (hkeys : (members.map Prod.fst).Nodup)
    (hextras : h.extras = members.extras HtmlFlag.spellings) :
    h.Passes members (Html.arguments h.toObject) := by
  have hget (key : Text) : (Html.arguments h.toObject).get? key =
      (h.extras.get? key).or (h.entries.get? key) := by
    rw [hkept.arguments_toObject, Table.get?_update hkept.distinct.keys]
  have hnone (f : HtmlFlag) (key : Text) (hnames : f.spelling.names key = true)
      (hentries : key ∉ h.entries.map Prod.fst) :
      key ∉ (Html.arguments h.toObject).map Prod.fst := by
    rw [← Table.get?_eq_none_iff] at hentries ⊢
    rw [hget, hkept.get?_extras f.spelling_mem hnames, hentries]
    rfl
  refine ⟨?_, ?_, ?_, ?_⟩
  · rw [hkept.arguments_toObject]
    apply Table.nodup_update
    exact h.nodup_entries
  · intro key hkey
    have hmissing : h.extras.get? key = none := by
      rw [Table.get?_eq_none_iff, hextras]
      exact mt (fun hmem => (List.filter_sublist.map Prod.fst).subset hmem) hkey
    rw [hget, hmissing]
    rfl
  · intro key v hmem hother
    have hextra : h.extras.get? key = some v := by
      rw [hextras, Object.get?_extras_of_not_names (HtmlFlag.forall_mem_spellings.2 hother),
        Table.get?_of_mem hkeys hmem]
    rw [hget, hextra]
    rfl
  · intro f
    obtain ⟨hkey, hsnake⟩ := h.not_mem_entries f
    exact ⟨hnone f _ (Spelling.names_iff.2 (.inl rfl)) hkey,
      hnone f _ (Spelling.names_iff.2 (.inr rfl)) hsnake⟩

end Kept

end HtmlOptions

/-- Options that were resolved pass on what they were resolved from. -/
theorem Options.exists_passes {o : Object} {r : Options} (hkeys : (Json.object o).HasDistinctKeys)
    (honce : SpelledOnce o) (hresolve : resolveJson (.object o) = .ok r) :
    ∃ members, htmlMembers? o = some members ∧
      r.html.Passes members (Html.arguments r.html.toObject) := by
  have hread := (resolveJson_eq_ok_iff hkeys honce).1 hresolve
  have hkept := kept_of_ofObject hkeys honce hread
  obtain ⟨-, -, members, hmembers, hhtml⟩ := ofObject_eq_ok_iff.1 hread
  have hextras := ((HtmlOptions.ofObject_eq_ok_iff (honce.htmlMembers hmembers)).1 hhtml).2
  have hdistinct := hasDistinctKeys_of_htmlMembers? hkeys hmembers
  exact ⟨members, hmembers, hkept.passes_arguments hdistinct.keys hextras⟩

/-! ### Calls -/

theorem Options.wantsMinify_of_minify {r : Options} (h : r.minify = true) (source : Text) :
    r.wantsMinify source = true := by
  rw [wantsMinify, h, Bool.true_or]

private theorem Html.calls_minify {leaf : External} {text : Text} {o : Object} {b : Bool}
    (hcheck : check o = .ok b) : (minify leaf text o).calls =
      [⟨if b then
          (protectAttributes attributeFormat (isOn o .collapseBooleanAttributes)
            (prepare text o)).text
        else prepare text o, arguments o⟩] := by
  rw [minify, hcheck]
  cases b with
  | false => rfl
  | true =>
      dsimp only
      split <;> rfl

namespace Compiler

variable {c : Compiler} {leaf : External} {o : Object}

theorem answer_standard (hleaf : c.minifier = .standard leaf) (source : Text) :
    c.answer (Text.trim source) = Html.minify leaf (c.handed source) c.options.html.toObject := by
  rw [answer, hleaf]
  rfl

section Wanted

variable (hleaf : c.minifier = .standard leaf) (hminify : c.options.minify = true) (source : Text)
include hleaf hminify

theorem calls_compile_standard : (c.compile source).calls =
    (Html.minify leaf (c.handed source) c.options.html.toObject).calls := by
  rw [calls_compile, if_pos (Options.wantsMinify_of_minify hminify _), answer_standard hleaf]

private theorem compile_of_unfulfillable (hhtml : c.options.html.Unfulfillable) :
    (c.compile source).calls = [] ∧ (c.compile source).result = .ok (errorCode c.settings) := by
  have hwants := Options.wantsMinify_of_minify hminify (Text.trim source)
  cases hcheck : Html.check c.options.html.toObject with
  | ok b => exact absurd hhtml (HtmlOptions.not_unfulfillable_iff.2 ⟨b, hcheck⟩)
  | error cause =>
      have hreply : Html.minify leaf (c.handed source) c.options.html.toObject =
          ⟨.error (.conflict cause), []⟩ := by rw [Html.minify, hcheck]
      have hanswer : (c.answer (Text.trim source)).result = .error (.conflict cause) := by
        rw [answer_standard hleaf, hreply]
      constructor
      · rw [calls_compile_standard hleaf hminify, hreply]
      · rw [result_compile_eq, minified_of_error hwants hanswer]
        rfl

private theorem exists_calls_compile (hcan : ¬c.options.html.Unfulfillable) : ∃ text,
    (c.compile source).calls = [⟨text, Html.arguments c.options.html.toObject⟩] ∧
      ((∀ f ∈ HtmlFlag.attributes, c.options.html.flag f = true) →
        c.options.html.flag .removeCommentsFromCdata = false → text = c.handed source) := by
  obtain ⟨b, hcheck⟩ := HtmlOptions.not_unfulfillable_iff.1 hcan
  refine ⟨_, (calls_compile_standard hleaf hminify source).trans (Html.calls_minify hcheck), ?_⟩
  intro hall hcdata
  have hhides := Html.hidesAttributes_of_check hcheck
  have hshown := HtmlOptions.hidesAttributes_toObject (b := false).2 hall
  rw [hshown] at hhides
  obtain rfl := Except.ok.inj hhides
  rw [if_neg Bool.false_ne_true, Html.prepare, HtmlOptions.isOn_toObject, hcdata,
    if_neg Bool.false_ne_true]

/-- If the options ask for what the markup minifier cannot do, it is not called and there is no
code; otherwise it is called once with what they ask for, and with the protected template as it is
if nothing is left to do before. -/
theorem compile_standard (hkeys : (Json.object o).HasDistinctKeys) (honce : Options.SpelledOnce o)
    (hresolve : Options.resolveJson (.object o) = .ok c.options) :
    (c.compile source).calls.length ≤ 1 ∧
    ((c.compile source).calls = [] ∧ (c.compile source).result = .ok (errorCode c.settings) ↔
      c.options.html.Unfulfillable) ∧
    (¬c.options.html.Unfulfillable → ∃ text args members,
      (c.compile source).calls = [⟨text, args⟩] ∧ Options.htmlMembers? o = some members ∧
      c.options.html.Passes members args ∧
      ((∀ f ∈ HtmlFlag.attributes, c.options.html.flag f = true) →
        c.options.html.flag .removeCommentsFromCdata = false → text = c.handed source)) := by
  have hnone := compile_of_unfulfillable hleaf hminify source
  have hone := exists_calls_compile hleaf hminify source
  refine ⟨?_, ⟨?_, hnone⟩, ?_⟩
  · by_cases hcan : c.options.html.Unfulfillable
    · rw [(hnone hcan).1]
      exact Nat.zero_le 1
    · obtain ⟨text, hcalls, -⟩ := hone hcan
      rw [hcalls]
      exact Nat.le_refl 1
  · rintro ⟨hcalls, -⟩
    by_contra hcan
    obtain ⟨text, hcall, -⟩ := hone hcan
    rw [hcalls] at hcall
    cases hcall
  · intro hcan
    obtain ⟨text, hcalls, htext⟩ := hone hcan
    obtain ⟨members, hmembers, hpasses⟩ := Options.exists_passes hkeys honce hresolve
    exact ⟨text, _, members, hcalls, hmembers, hpasses, htext⟩

end Wanted

/-- Attributes are to be shortened, and one argument is given as it is to be. -/
theorem compile_standard_shortening :
    let members : Object := [("remove_attribute_quotes".toList, .bool true),
      ("removeRedundantAttributes".toList, .string "yes".toList),
      ("remove_empty_attributes".toList, .int 1),
      ("removeCommentsFromCDATA".toList, .bool false), ("keep_comments".toList, .null)]
    let o : Object := [("htmlmin_enable".toList, .bool true), ("htmlmin".toList, .object members)]
    (Json.object o).HasDistinctKeys ∧ Options.SpelledOnce o ∧
      ∃ r, Options.resolveJson (.object o) = .ok r ∧ r.minify = true ∧ ¬r.html.Unfulfillable ∧
        ∃ c : Compiler, c.options = r ∧
          c.minifier = .standard (fun text _ => .ok (.string text)) ∧
          ∃ args, (c.compile "<p>{{a}}</p>".toList).calls =
              [⟨c.handed "<p>{{a}}</p>".toList, args⟩] ∧
            args.get? "keep_comments".toList = some .null ∧
            args.get? "keep_input_type_text_attr".toList = some (.bool false) := by
  intro members o
  have hmembers : (Json.object members).HasDistinctKeys := by
    refine .object (by decide) ?_
    simp only [members, List.forall_mem_cons]
    exact ⟨.leaf rfl, .leaf rfl, .leaf rfl, .leaf rfl, .leaf rfl, nofun⟩
  have hkeys : (Json.object o).HasDistinctKeys :=
    .object (by decide)
      (List.forall_mem_cons.2 ⟨.leaf rfl, List.forall_mem_singleton.2 hmembers⟩)
  have honce : Options.SpelledOnce o := by
    constructor
    · decide
    · intro own hget
      obtain rfl := Json.object.inj (Option.some.inj hget)
      decide
  have hresolve : Options.resolveJson (.object o) = .ok _ :=
    (Options.resolveJson_eq_ok_iff hkeys honce).2 rfl
  refine ⟨hkeys, honce, _, hresolve, rfl, ?_, ⟨_, {}, .standard fun text _ => .ok (.string text)⟩,
    rfl, rfl, ?_⟩
  · decide +kernel
  · obtain ⟨-, -, hcalled⟩ := compile_standard (c := ⟨_, {}, .standard fun text _ =>
      .ok (.string text)⟩) rfl rfl "<p>{{a}}</p>".toList hkeys honce hresolve
    obtain ⟨text, args, own, hcalls, hown, hpasses, htext⟩ := hcalled (by decide +kernel)
    obtain rfl : members = own := Option.some.inj hown
    rw [htext (by decide +kernel) rfl] at hcalls
    refine ⟨args, hcalls, ?_, ?_⟩
    · exact hpasses.given _ _ (by simp [members]) fun f => by cases f <;> decide
    · rw [hpasses.computed _ (by decide)]
      rfl

end Compiler

end Stencil
