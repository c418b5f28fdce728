import Stencil.Options.Basic

/-!
# Spellings of options

An object of options can give each option under either of its keys. Once every key is spelled in
camel case the object can be merged with the defaults. If an option is given under both keys, the
later value stands, in the place of the earlier.
-/

namespace Stencil

/-- The camel-case spelling of a key of the minifier's options; any other key stays as it is. -/
def HtmlFlag.keyOf (key : Text) : Text :=
  match HtmlFlag.all.find? fun f => f.snakeKey == key with
  | some f => f.key
  | none => key

namespace HtmlOptions

/-- The members with every key in camel case. -/
def normalize (o : Object) : Object :=
  Table.update [] (o.map fun m => (HtmlFlag.keyOf m.1, m.2))

end HtmlOptions

namespace Options

def keyOf (key : Text) : Text :=
  if key = minifySnakeKey then minifyKey
  else if key = multiLineSnakeKey then multiLineKey
  else key

/-- A value under a key; the minifier's options get every key in camel case. -/
def normalizeValue (key : Text) (value : Json) : Json :=
  match value with
  | .object members => if key = htmlKey then .object (HtmlOptions.normalize members) else value
  | _ => value

/-- The members with every key in camel case, those of the minifier's options too. -/
def normalize (o : Object) : Object :=
  Table.update [] (o.map fun m => (keyOf m.1, normalizeValue m.1 m.2))

end Options

end Stencil
