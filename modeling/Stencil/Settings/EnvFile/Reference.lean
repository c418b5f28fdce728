import Stencil.Settings.EnvFile
import Stencil.Table

/-!
# References in environment files

A value may refer to others: a dollar sign and a name in braces stand for what the file has
assigned to the name so far, or else for what the environment assigns to it, and a default may
follow the name after a colon and a hyphen. A name whose value the file has taken away stands for
no character.
-/

namespace Stencil.EnvFile

structure Reference where
  name : Text
  /-- What stands in for it if there is none. -/
  default : Text
deriving DecidableEq, Repr

/-- The reference that stands between braces. -/
def Reference.ofText? (s : Text) : Option Reference :=
  match s.dropWhile (· != ':') with
  | [] => some ⟨s, []⟩
  | ':' :: '-' :: default => some ⟨s.takeWhile (· != ':'), default⟩
  | _ => none

/-- The reference after a dollar sign, and what follows it. -/
def reference? : Text → Option (Reference × Text)
  | '{' :: r =>
    (Text.cutAfter? '}' r).bind fun p => (Reference.ofText? p.1).map fun ref => (ref, p.2)
  | _ => none

theorem length_lt_of_reference? {s rest : Text} {ref : Reference}
    (h : reference? s = some (ref, rest)) : rest.length < s.length := by
  unfold reference? at h
  split at h
  · obtain ⟨⟨inner, after⟩, hcut, h⟩ := Option.bind_eq_some_iff.1 h
    obtain ⟨_, _, heq⟩ := Option.map_eq_some_iff.1 h
    obtain ⟨_, rfl⟩ := Prod.mk.inj heq
    have := Text.length_lt_of_cutAfter? hcut
    simp only [List.length_cons]
    omega
  · simp at h

/-- A value with what each of its references stands for in place of the reference. -/
def expand (values : Text → Option Text) : Text → Text
  | [] => []
  | c :: r =>
    if c = '$' then
      match _h : reference? r with
      | some (ref, rest) => (values ref.name).getD ref.default ++ expand values rest
      | none => c :: expand values r
    else c :: expand values r
termination_by s => s.length
decreasing_by
  · have := length_lt_of_reference? _h
    simp only [List.length_cons]
    omega
  · simp
  · simp

/-- What a name stands for: the value that the file has assigned to it, which is empty if the file
has taken it away, or else the value in the environment. -/
def lookup (environment : Table Text) (known : Table (Option Text)) (name : Text) : Option Text :=
  match known.get? name with
  | some value => some (value.getD [])
  | none => environment.get? name

/-- The values that a file assigns in an environment, or takes away. -/
def values (environment : Table Text) (s : Text) : Table (Option Text) :=
  (assignments s).foldl
    (fun known a => known.put a.1 (a.2.map (expand (lookup environment known)))) []

end Stencil.EnvFile
