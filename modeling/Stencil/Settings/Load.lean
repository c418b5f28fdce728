import Stencil.Settings.Basic
import Stencil.Settings.Directions
import Stencil.Settings.EnvFile.Reference
import Stencil.Validation.Coerce

/-!
# Loading settings

Each setting comes from the first place that gives it: a command line, a keyword, the environment,
the environment file, and else its default. Names in the environment carry a stem and are read
without regard to case, as are keywords, unless directions say otherwise. A keyword that names
neither a setting nor a direction is refused, and so is any other name to which the file assigns
something; the environment may hold what it likes. Values are read by their fields, and settings
whose fields can all be read are then checked as a whole.
-/

namespace Stencil.Settings

inductive Field where
  | modelName
  | keyName
  | partialName
  | mapMethod
  | strictScopes
  | verbosity
  | placeholderPrefix
  | placeholderSuffix
deriving DecidableEq, Repr

namespace Field

def all : List Field :=
  [modelName, keyName, partialName, mapMethod, strictScopes, verbosity, placeholderPrefix,
    placeholderSuffix]

def name : Field → Text
  | modelName => "model_name".toList
  | keyName => "key_name".toList
  | partialName => "partial_name".toList
  | mapMethod => "map_method".toList
  | strictScopes => "strict_scopes".toList
  | verbosity => "verbosity".toList
  | placeholderPrefix => "placeholder_prefix".toList
  | placeholderSuffix => "placeholder_suffix".toList

/-- The name of a setting in the environment, as it is compared with others. -/
def variableName (f : Field) (d : Directions) : Text := d.fold (d.stem ++ f.name)

end Field

structure Sources where
  keywords : Object := []
  environment : Table Text := []
  file : Option Text := none

namespace Sources

/-- The value of the first keyword that names a setting. -/
def keyword? (s : Sources) (d : Directions) (f : Field) : Option Json :=
  (s.keywords.find? fun m => d.fold m.1 == f.name).map (·.2)

/-- The values that the environment assigns. -/
def inherited (s : Sources) (d : Directions) : Table Text :=
  d.foldNames (s.environment.map fun v => (v.1, some v.2))

def assigned (s : Sources) (d : Directions) : Table Text :=
  d.foldNames (EnvFile.values s.environment d.file)

def given? (s : Sources) (d : Directions) (f : Field) : Option Json :=
  (d.commanded.get? f.name).map Directions.commandedMeaning <|> s.keyword? d f <|>
    ((s.inherited d).get? (f.variableName d)).map d.meaning <|>
    ((s.assigned d).get? (f.variableName d)).map d.meaning

def read {α : Type} (s : Sources) (d : Directions) (f : Field)
    (reading : Json → Except Finding α) (default : α) : Validated α :=
  match s.given? d f with
  | none => .ok default
  | some value => .ofReading [f.name] (reading value)

/-- The keywords that name neither a setting nor a direction. -/
def unknownKeywords (s : Sources) (d : Directions) : List Text :=
  (s.keywords.map (·.1)).filter fun name =>
    !Directions.names.contains name && !Field.all.any fun f => f.name == d.fold name

/-- The names other than those of settings to which the file assigns something. -/
def unknownAssigned (s : Sources) (d : Directions) : List Text :=
  ((s.assigned d).filter fun v =>
    !v.2.isEmpty && !Field.all.any fun f => f.variableName d == v.1 || f.name == v.1).map (·.1)

/-- The findings about names that are not those of settings, the names in the file first. -/
def unknown (s : Sources) (d : Directions) : List Detail :=
  let assigned := s.unknownAssigned d
  (assigned ++ (s.unknownKeywords d).filter (!assigned.contains ·)).map fun name =>
    ⟨.unknownField, [name]⟩

def noUnknown (s : Sources) (d : Directions) : Validated Unit :=
  if s.unknown d = [] then .ok () else .error (s.unknown d)

end Sources

def read (src : Sources) (d : Directions) : Validated Settings :=
  let usual : Settings := {}
  let make : Validated (Text → Text → Text → Text → Bool → Int → Text → Text → Unit → Settings) :=
    .ok fun modelName keyName partialName mapMethod strictScopes verbosity opening ending _ =>
      ⟨modelName, keyName, partialName, mapMethod, strictScopes, verbosity, opening, ending⟩
  make
    |>.apply (src.read d .modelName Json.toText usual.modelName)
    |>.apply (src.read d .keyName Json.toText usual.keyName)
    |>.apply (src.read d .partialName Json.toText usual.partialName)
    |>.apply (src.read d .mapMethod Json.toText usual.mapMethod)
    |>.apply (src.read d .strictScopes Json.toBool usual.strictScopes)
    |>.apply (src.read d .verbosity Json.toInt usual.verbosity)
    |>.apply (src.read d .placeholderPrefix Json.toText usual.placeholderPrefix)
    |>.apply (src.read d .placeholderSuffix Json.toText usual.placeholderSuffix)
    |>.apply (src.noUnknown d)

/-- The settings, if they are accepted as a whole. -/
def accept (s : Settings) : Validated Settings :=
  match s.fault? with
  | none => .ok s
  | some fault => .error [⟨.refused fault.message, []⟩]

/-- The settings that the sources give under directions, if they can be read and are accepted as a
whole. -/
def directed (src : Sources) (d : Directions) : Validated Settings :=
  match read src d with
  | .error details => .error details
  | .ok s => s.accept

/-- The settings that the sources give, under the directions among the keywords. -/
def load (src : Sources) : Except LoadError Settings :=
  match Directions.ofKeywords src.keywords src.file with
  | .error e => .error e
  | .ok d =>
    match directed src d with
    | .error details => .error (.invalid details)
    | .ok s => .ok s

theorem accept_eq_ok_iff {s t : Settings} : s.accept = .ok t ↔ s.Admitted ∧ s = t := by
  unfold accept Admitted
  cases s.fault? <;> simp

theorem admitted_of_directed {src : Sources} {d : Directions} {s : Settings}
    (h : directed src d = .ok s) : s.Admitted := by
  unfold directed at h
  generalize read src d = r at h
  cases r with
  | error details => exact absurd h (by simp)
  | ok t =>
    obtain ⟨ht, rfl⟩ := accept_eq_ok_iff.1 h
    exact ht

theorem admitted_of_load {src : Sources} {s : Settings} (h : load src = .ok s) : s.Admitted := by
  unfold load at h
  split at h
  · exact absurd h (by simp)
  · split at h
    · exact absurd h (by simp)
    · next hd =>
      obtain rfl := Except.ok.inj h
      exact admitted_of_directed hd

end Stencil.Settings
