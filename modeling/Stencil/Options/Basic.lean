import Stencil.Json.Basic
import Stencil.Text.LineBreak

/-!
# Options

The options of a compilation: whether markup is minified first, and how. Each option has a key in
camel case, under which it is handed on, and may be given under a key in snake case as well.
Members of the minifier's options that are no option of this list are kept as they are.
-/

namespace Stencil

/-- An option of the minifier that is on or off. -/
inductive HtmlFlag where
  | removeComments
  | removeCommentsFromCdata
  | collapseWhitespace
  | collapseBooleanAttributes
  | removeAttributeQuotes
  | removeRedundantAttributes
  | useShortDoctype
  | removeEmptyAttributes
  | removeOptionalTags
deriving DecidableEq, Repr

namespace HtmlFlag

def all : List HtmlFlag :=
  [removeComments, removeCommentsFromCdata, collapseWhitespace, collapseBooleanAttributes,
    removeAttributeQuotes, removeRedundantAttributes, useShortDoctype, removeEmptyAttributes,
    removeOptionalTags]

/-- The key in camel case. -/
def key : HtmlFlag → Text
  | removeComments => "removeComments".toList
  | removeCommentsFromCdata => "removeCommentsFromCDATA".toList
  | collapseWhitespace => "collapseWhitespace".toList
  | collapseBooleanAttributes => "collapseBooleanAttributes".toList
  | removeAttributeQuotes => "removeAttributeQuotes".toList
  | removeRedundantAttributes => "removeRedundantAttributes".toList
  | useShortDoctype => "useShortDoctype".toList
  | removeEmptyAttributes => "removeEmptyAttributes".toList
  | removeOptionalTags => "removeOptionalTags".toList

def snakeKey : HtmlFlag → Text
  | removeComments => "remove_comments".toList
  | removeCommentsFromCdata => "remove_comments_from_cdata".toList
  | collapseWhitespace => "collapse_whitespace".toList
  | collapseBooleanAttributes => "collapse_boolean_attributes".toList
  | removeAttributeQuotes => "remove_attribute_quotes".toList
  | removeRedundantAttributes => "remove_redundant_attributes".toList
  | useShortDoctype => "use_short_doctype".toList
  | removeEmptyAttributes => "remove_empty_attributes".toList
  | removeOptionalTags => "remove_optional_tags".toList

def default : HtmlFlag → Bool
  | removeAttributeQuotes | removeRedundantAttributes | removeEmptyAttributes
  | removeOptionalTags => false
  | _ => true

theorem mem_all (f : HtmlFlag) : f ∈ all := by cases f <;> simp [all]

end HtmlFlag

structure HtmlOptions where
  flag : HtmlFlag → Bool := HtmlFlag.default
  extras : Object := []

namespace HtmlOptions

/-- The options as an object, with the other members after them. -/
def toObject (o : HtmlOptions) : Object :=
  HtmlFlag.all.map (fun f => (f.key, .bool (o.flag f))) ++ o.extras

end HtmlOptions

structure Options where
  minify : Bool := false
  minifyMultiLine : Bool := false
  html : HtmlOptions := {}

namespace Options

/-- The key of the option to minify every template. -/
def minifyKey : Text := "htmlminEnable".toList

def minifySnakeKey : Text := "htmlmin_enable".toList

/-- The key of the option to minify templates of more than one line. -/
def multiLineKey : Text := "htmlminMultiLines".toList

def multiLineSnakeKey : Text := "htmlmin_multi_lines".toList

/-- The key of the minifier's options, the same in either case. -/
def htmlKey : Text := "htmlmin".toList

def toObject (o : Options) : Object :=
  [(minifyKey, .bool o.minify), (multiLineKey, .bool o.minifyMultiLine),
    (htmlKey, .object o.html.toObject)]

def wantsMinify (o : Options) (source : Text) : Bool :=
  o.minify || (o.minifyMultiLine && Text.lineCount source > 1)

end Options

end Stencil
