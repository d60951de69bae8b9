/-!
# JSON values

Values as a reader of strict JSON meets them. Fields keep their order and their repetitions, since
a reader refuses a repeated field only where it knows the field. Two things are kept only as far as
a reader can tell: a number that is not a short plain integer, and a string literal in which an escape
names half of a surrogate pair. Either may stand where nobody looks at it.
-/

namespace Waymark

inductive Json where
  | null
  | bool (b : Bool)
  /-- A plain integer that fits in 64 bits. -/
  | integer (i : Int)
  /-- Any other number, `-0` among them: whether it is finite as a double. -/
  | real (fits : Bool)
  /-- A string literal, `none` if it holds half of a surrogate pair. -/
  | text (s : Option String)
  | array (items : List Json)
  | object (fields : List (Option String × Json))
  deriving Inhabited

namespace Json

def string (s : String) : Json := .text (some s)

def nat (n : Nat) : Json := .integer n

def record (fields : List (String × Json)) : Json :=
  .object (fields.map fun f => (some f.1, f.2))

mutual

/-- Whether the value holds together when all of it is looked at: no more than `room` arrays and
objects inside one another, no half surrogate pair and no number beyond the doubles. -/
def sound (room : Nat) : Json → Bool
  | .null => true
  | .bool _ => true
  | .integer _ => true
  | .real fits => fits
  | .text s => s.isSome
  | .array items => 0 < room && soundItems (room - 1) items
  | .object fields => 0 < room && soundFields (room - 1) fields

def soundItems (room : Nat) : List Json → Bool
  | [] => true
  | x :: xs => x.sound room && soundItems room xs

def soundFields (room : Nat) : List (Option String × Json) → Bool
  | [] => true
  | (k, x) :: xs => k.isSome && x.sound room && soundFields room xs

end

end Json

end Waymark
