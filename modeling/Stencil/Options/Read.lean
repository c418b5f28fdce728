import Stencil.Options.Spelling
import Stencil.Json.Merge
import Stencil.Validation.Coerce

/-!
# Reading options

An option is looked up under its camel-case key and then under the other, and every option that
cannot be read is reported. Options as a caller gives them are merged onto the defaults first;
empty values count as no options.
-/

namespace Stencil

/-- The member of an object that gives an option, the camel-case key before the other. -/
def Object.either? (o : Object) (key snakeKey : Text) : Option (Text × Json) :=
  ((o.get? key).map fun value => (key, value)) <|>
    (o.get? snakeKey).map fun value => (snakeKey, value)

def Object.readFlag (o : Object) (key snakeKey : Text) (default : Bool) : Validated Bool :=
  match o.either? key snakeKey with
  | none => .ok default
  | some (used, value) => .ofReading [used] value.toBool

namespace HtmlOptions

def findings (o : Object) : List Detail :=
  HtmlFlag.all.flatMap fun f =>
    match o.readFlag f.key f.snakeKey f.default with
    | .ok _ => []
    | .error details => details

/-- The value of an option, its default if none can be read. -/
def flagOf (o : Object) (f : HtmlFlag) : Bool :=
  match o.readFlag f.key f.snakeKey f.default with
  | .ok b => b
  | .error _ => f.default

/-- The members that give no option: unknown keys, and snake-case keys beside the others. -/
def extrasOf (o : Object) : Object :=
  let used := HtmlFlag.all.filterMap fun f => (o.either? f.key f.snakeKey).map (·.1)
  o.filter fun m => !used.contains m.1

def ofObject (o : Object) : Validated HtmlOptions :=
  if findings o = [] then .ok ⟨flagOf o, extrasOf o⟩ else .error (findings o)

def ofJson : Json → Validated HtmlOptions
  | .object members => ofObject members
  | _ => .error [⟨.notModel "HtmlminOptions".toList, []⟩]

end HtmlOptions

namespace Options

def readHtml (o : Object) : Validated HtmlOptions :=
  match o.get? htmlKey with
  | none => .ok {}
  | some value =>
    match HtmlOptions.ofJson value with
    | .ok html => .ok html
    | .error details => .error (details.map (Detail.under htmlKey))

/-- Reads options from an object. Unknown members are passed over. -/
def ofObject (o : Object) : Validated Options :=
  let make : Validated (Bool → Bool → HtmlOptions → Options) := .ok Options.mk
  make
    |>.apply (o.readFlag minifyKey minifySnakeKey false)
    |>.apply (o.readFlag multiLineKey multiLineSnakeKey false)
    |>.apply (readHtml o)

/-- Reads options from a value, which has to be an object. -/
def ofJson : Json → Validated Options
  | .object members => ofObject members
  | _ => .error [⟨.notModel "CompileOptions".toList, []⟩]

/-- The options that result when members in camel case are merged onto the defaults. -/
def overDefaults (overrides : Object) : Validated Options :=
  ofObject (Object.merge ({} : Options).toObject overrides)

/-- The options that an object of options asks for. -/
def resolve (o : Object) : Validated Options := overDefaults (normalize o)

def resolveOptions (o : Options) : Validated Options := overDefaults o.toObject

/-- Why options are refused. -/
inductive Fault where
  /-- They are neither empty nor an object. -/
  | noObject
  | invalid (details : List Detail)

/-- The options that a value asks for; an empty value asks for nothing. -/
def resolveJson (value : Json) : Except Fault Options :=
  let members? := if value.isGiven then value.object? else some []
  match members? with
  | none => .error .noObject
  | some members =>
    match resolve members with
    | .ok options => .ok options
    | .error details => .error (.invalid details)

end Options

end Stencil
