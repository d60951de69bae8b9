import Waymark.Text.CharClass

/-!
# Blanks

The characters with the Unicode property `White_Space`. The zero-width space U+200B is not one.
-/

namespace Waymark.CharClass

def blank : CharClass where
  ranges :=
    [(0x9, 0xd), (0x20, 0x20), (0x85, 0x85), (0xa0, 0xa0), (0x1680, 0x1680), (0x2000, 0x200a),
     (0x2028, 0x2029), (0x202f, 0x202f), (0x205f, 0x205f), (0x3000, 0x3000)]

def trim (s : List Char) : List Char :=
  ((s.dropWhile blank.has).reverse.dropWhile blank.has).reverse

end Waymark.CharClass
