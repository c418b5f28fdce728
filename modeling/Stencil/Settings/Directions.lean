import Stencil.Json.Order
import Stencil.Settings.EnvFile.Encoding
import Stencil.Text.Digit
import Stencil.Text.SmallLetter
import Stencil.Validation.Detail

/-!
# Directions for loading settings

Some keywords give no setting but direct how the others are found: how names in the environment
begin, whether they have to agree in case, which file is read and how, which values count as
missing, and the arguments of a command line. Their names begin with an underscore and are read
exactly. A direction without a value leaves things as they are, but for that of the file, which
then is not read. Directions about nested settings and directories of secrets are known, but no
setting is found that way.
-/

namespace Stencil.Settings

inductive LoadError where
  | invalid (details : List Detail)
  /-- A direction has a value of a kind that cannot direct. -/
  | wrongKind
  /-- How names in the environment begin is no text. -/
  | unusableStem
  /-- The arguments of a command line are no list. -/
  | unusableArguments (found : Json)
  | unknownEncoding (name : Text)
  | unreadable (byte position : Nat)
deriving BEq, Repr

namespace LoadError

/-- The hexadecimal digit of a number below sixteen. -/
def hexDigit (n : Nat) : Char := Char.ofNat (if n < 10 then 48 + n else 87 + n)

/-- The wording of the errors that are neither findings nor of the wrong kind. -/
def message : LoadError → Text
  | invalid _ | wrongKind => []
  | unusableStem =>
    "error getting value for field \"model_name\" from source \"EnvSettingsSource\"".toList
  | unusableArguments found =>
    "cli_parse_args must be a list or tuple of strings, received <class '".toList
      ++ found.typeName.toList ++ "'>".toList
  | unknownEncoding name => "unknown encoding: ".toList ++ name
  | unreadable byte position =>
    "'ascii' codec can't decode byte 0x".toList ++ [hexDigit (byte / 16), hexDigit (byte % 16)]
      ++ " in position ".toList ++ Text.ofNat position ++ ": ordinal not in range(128)".toList

end LoadError

/-- How settings are loaded. -/
structure Directions where
  respectsCase : Bool := false
  /-- How names in the environment begin. -/
  stem : Text := "TEMPLATIZE_".toList
  /-- Whether values without content count as missing. -/
  skipsEmpty : Bool := false
  /-- The word that stands for no value. -/
  absentWord : Option Text := none
  file : Text := []
  arguments : List Text := []

namespace Directions

def names : List Text :=
  ["_case_sensitive", "_env_prefix", "_env_prefix_target", "_env_file", "_env_file_encoding",
    "_env_ignore_empty", "_env_parse_none_str", "_env_parse_enums", "_env_nested_delimiter",
    "_env_nested_max_split", "_nested_model_default_partial_update", "_secrets_dir",
    "_build_sources", "_cli_prog_name", "_cli_parse_args", "_cli_settings_source",
    "_cli_parse_none_str", "_cli_hide_none_type", "_cli_avoid_json", "_cli_enforce_required",
    "_cli_use_class_docs_for_groups", "_cli_exit_on_error", "_cli_prefix",
    "_cli_flag_prefix_char", "_cli_implicit_flags", "_cli_ignore_unknown_args",
    "_cli_kebab_case", "_cli_shortcuts"].map String.toList

def value? (keywords : Object) (name : String) : Option Json :=
  (keywords.get? name.toList).filter (· != .null)

/-- Whether a direction is given with a value that is not empty. -/
def holds (keywords : Object) (name : String) : Bool :=
  ((value? keywords name).map Json.isGiven).getD false

/-- The texts that a value holds, such as paths. -/
def texts : Json → Except LoadError (List Text)
  | .null => .ok []
  | .string path => .ok [path]
  | .array items =>
    match items.mapM Json.toText? with
    | some texts => .ok texts
    | none => .error .wrongKind
  | .object members => .ok (members.map (·.1))
  | _ => .error .wrongKind

def parts (path : Text) : List Text :=
  path.foldr (fun c parts =>
    if c = '/' then [] :: parts
    else
      match parts with
      | [] => [[c]]
      | part :: parts => (c :: part) :: parts) [[]]

def leadsToFile (path : Text) : Bool :=
  path.head? != some '/' &&
    (parts path).filter (fun part => part != [] && part != ['.']) == [".env".toList]

def encoding (keywords : Object) : Except LoadError EnvFile.Encoding :=
  match (value? keywords "_env_file_encoding").filter Json.isGiven with
  | none => .ok .utf8
  | some (.string name) =>
    match EnvFile.Encoding.ofName? name with
    | some encoding => .ok encoding
    | none => .error (.unknownEncoding name)
  | some _ => .error .wrongKind

def readFile (keywords : Object) (file : Option Text) : Except LoadError Text :=
  match texts ((keywords.get? "_env_file".toList).getD (.string ".env".toList)) with
  | .error e => .error e
  | .ok paths =>
    match file with
    | none => .ok []
    | some text =>
      if paths.any leadsToFile then
        match encoding keywords with
        | .error e => .error e
        | .ok encoding =>
          match encoding.read text with
          | .ok text => .ok text
          | .error (byte, position) => .error (.unreadable byte position)
      else .ok []

def hasStem (keywords : Object) : Bool :=
  match value? keywords "_env_prefix_target" with
  | none => true
  | some target => target == .string "variable".toList || target == .string "all".toList

def readStem (keywords : Object) : Except LoadError Text :=
  if hasStem keywords then
    match value? keywords "_env_prefix" with
    | none => .ok ({} : Directions).stem
    | some (.string stem) => .ok stem
    | some _ => .error .unusableStem
  else .ok []

/-- A number of levels, if it is given, has to be a number. -/
def checkLevels (keywords : Object) : Except LoadError Unit :=
  match (value? keywords "_env_nested_max_split").filter Json.isGiven with
  | none => .ok ()
  | some v => if v.number?.isSome then .ok () else .error .wrongKind

/-- The arguments of a command line. A truth value gives none. -/
def readArguments (keywords : Object) : Except LoadError (List Text) :=
  match value? keywords "_cli_parse_args" with
  | none | some (.bool _) => .ok []
  | some (.array items) => texts (.array items)
  | some v => if v.same (.bool false) then .ok [] else .error (.unusableArguments v)

/-- The directories of secrets, if they are given, have to be paths. -/
def checkSecrets (keywords : Object) : Except LoadError Unit :=
  (texts ((value? keywords "_secrets_dir").getD .null)).map fun _ => ()

/-- The directions that keywords give, with what is read of the environment file. -/
def ofKeywords (keywords : Object) (file : Option Text) : Except LoadError Directions := do
  checkLevels keywords
  let file ← readFile keywords file
  let arguments ← readArguments keywords
  let stem ← readStem keywords
  checkSecrets keywords
  return {
    respectsCase := holds keywords "_case_sensitive"
    stem
    skipsEmpty := holds keywords "_env_ignore_empty"
    absentWord := (value? keywords "_env_parse_none_str").bind Json.toText?
    file
    arguments }

/-- A name as it is compared with others. -/
def fold (d : Directions) (name : Text) : Text :=
  if d.respectsCase then name else Text.smallLetters name

/-- Values under their names as they are compared, less those that are taken away or count as
missing. -/
def foldNames (d : Directions) (values : Table (Option Text)) : Table Text :=
  (Table.update [] ((values.filter fun v => !(d.skipsEmpty && v.2 == some [])).map fun v =>
    (d.fold v.1, v.2))).filterMap fun v => v.2.map fun value => (v.1, value)

/-- What a command line says of settings: a name after two hyphens, and the value after an equals
sign or in the next argument. -/
def assignments (d : Directions) : List Text → Table Text
  | [] => []
  | argument :: rest =>
    match argument with
    | '-' :: '-' :: flag =>
      match Text.cutAfter? '=' flag, rest with
      | some (name, value), rest => (d.fold name, value) :: d.assignments rest
      | none, value :: rest => (d.fold flag, value) :: d.assignments rest
      | none, [] => []
    | _ => d.assignments rest

def commanded (d : Directions) : Table Text := Table.update [] (d.assignments d.arguments)

def commandedMeaning (value : Text) : Json :=
  if value = "null".toList then .null else .string value

def meaning (d : Directions) (value : Text) : Json :=
  if d.absentWord = some value then .null else .string value

end Directions

end Stencil.Settings
