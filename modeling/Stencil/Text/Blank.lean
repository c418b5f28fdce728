import Stencil.Text.Basic

/-!
# Blanks

The blank characters of templates and markup: the white space of Unicode together with the four
information separators. `trim` removes them at both ends.
-/

namespace Stencil.Text

/-- White space, and the information separators from U+001C to U+001F. -/
def isBlank (c : Char) : Bool :=
  let n := c.toNat
  (0x09 ≤ n && n ≤ 0x0D) || (0x1C ≤ n && n ≤ 0x20) || n == 0x85 || n == 0xA0 || n == 0x1680
    || (0x2000 ≤ n && n ≤ 0x200A) || n == 0x2028 || n == 0x2029 || n == 0x202F || n == 0x205F
    || n == 0x3000

def trimLeft (s : Text) : Text := s.dropWhile isBlank

def trimRight (s : Text) : Text := (s.reverse.dropWhile isBlank).reverse

def trim (s : Text) : Text := trimRight (trimLeft s)

theorem length_trimLeft_le (s : Text) : (trimLeft s).length ≤ s.length :=
  (List.dropWhile_sublist _).length_le

theorem length_trimRight_le (s : Text) : (trimRight s).length ≤ s.length := by
  simpa [trimRight] using (List.dropWhile_sublist isBlank (l := s.reverse)).length_le

end Stencil.Text
