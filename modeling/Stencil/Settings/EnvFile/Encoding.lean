import Stencil.Text.Basic

/-!
# Encodings of environment files

A file holds its text in UTF-8, but it can be read as if it held another encoding. Then each byte
is a character by itself, and ASCII has characters only for the smaller half of the bytes.
-/

namespace Stencil.EnvFile

inductive Encoding where
  | utf8
  | latin1
  | ascii
deriving DecidableEq, Repr

namespace Encoding

/-- A name of an encoding as it is looked up: in small letters, without what parts its words. -/
def plainName (name : Text) : Text :=
  (name.filter fun c => c != '-' && c != '_' && c != ' ').map Char.toLower

def names : Encoding → List Text
  | utf8 => ["utf8".toList, "u8".toList, "utf".toList, "cp65001".toList, "utf8sig".toList]
  | latin1 =>
    ["latin1".toList, "iso88591".toList, "88591".toList, "8859".toList, "iso8859".toList,
      "latin".toList, "l1".toList, "cp819".toList]
  | ascii => ["ascii".toList, "usascii".toList, "646".toList]

def ofName? (name : Text) : Option Encoding :=
  [utf8, latin1, ascii].find? fun encoding => encoding.names.contains (plainName name)

def bytes (s : Text) : List Nat := (s.flatMap String.utf8EncodeChar).map UInt8.toNat

/-- The first byte that is no ASCII character, and its place. -/
def foreign? (s : Text) : Option (Nat × Nat) :=
  match (bytes s).dropWhile (· < 128) with
  | [] => none
  | byte :: rest => some (byte, (bytes s).length - (rest.length + 1))

/-- The text that a file is read as, or the byte that cannot be read and its place. -/
def read (s : Text) : Encoding → Except (Nat × Nat) Text
  | utf8 => .ok s
  | latin1 => .ok ((bytes s).map Char.ofNat)
  | ascii =>
    match foreign? s with
    | none => .ok s
    | some place => .error place

end Encoding

end Stencil.EnvFile
