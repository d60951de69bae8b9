import Waymark.Text.Alphabetic
import Waymark.Text.Numeric

/-!
# Letters and numerals
-/

namespace Waymark.CharClass

def isAlphanumeric (c : Char) : Bool := alphabetic.has c || numeric.has c

end Waymark.CharClass
