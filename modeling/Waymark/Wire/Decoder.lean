import Waymark.Json

/-!
# Decoding JSON values

A decoder is given how many arrays and objects may still open inside one another. Fields that
nobody asks for are not looked at and do not count.
-/

namespace Waymark.Wire

/-- The first argument is the room for nesting. -/
abbrev Decoder (α : Type) := Nat → Json → Option α

def maxNesting : Nat := 127

/-! ## Plain values -/

def string : Decoder String
  | _, .text s => s
  | _, _ => none

def bool : Decoder Bool
  | _, .bool b => some b
  | _, _ => none

def natBelow (limit : Nat) : Json → Option Nat
  | .integer (.ofNat n) => if n < limit then some n else none
  | _ => none

def uint32 : Decoder UInt32 := fun _ v => (natBelow UInt32.size v).map .ofNat

def uint64 : Decoder UInt64 := fun _ v => (natBelow UInt64.size v).map .ofNat

def int64 : Decoder Int64
  | _, .integer i =>
    if Int64.minValue.toInt ≤ i ∧ i ≤ Int64.maxValue.toInt then some (.ofInt i) else none
  | _, _ => none

def nullable {α : Type} (d : Decoder α) : Decoder (Option α)
  | _, .null => some none
  | room, v => (d room v).map some

/-! ## Records -/

/-- The one value under a name, or the absence of one. Two are refused. -/
def only : List (Option String × Json) → Option (Option Json)
  | [] => some none
  | [(_, v)] => some (some v)
  | _ => none

/-- The fields of a record in declared order. A record may be written as an object, or as an array
of its fields with some left off the end. -/
def fields (names : List String) : Json → Option (List (Option Json))
  | .array items =>
    if items.length ≤ names.length then
      some (items.map some ++ List.replicate (names.length - items.length) none)
    else none
  | .object fs =>
    if fs.all fun f => f.1.isSome then
      names.mapM fun n => only (fs.filter fun f => f.1 == some n)
    else none
  | _ => none

def required {α : Type} (d : Decoder α) (room : Nat) : Option Json → Option α
  | some v => d room v
  | none => none

def withDefault {α : Type} (x : α) (d : Decoder α) (room : Nat) : Option Json → Option α
  | some v => d room v
  | none => some x

/-! ## Named variants -/

/-- How a value is read. Content that comes before the name that explains it is held: it is read as
a whole first and decoded afterwards. Names inside held content are taken less strictly. -/
inductive Reading where
  | direct
  | held
  deriving DecidableEq, Repr

/-- Whether the value may stand where a variant has no content. -/
def isNothing : Reading → Json → Bool
  | _, .null => true
  | .held, .object [] => true
  | _, _ => false

/-- The name of a variant as a field: a string, or the only field of an object without content. -/
def nameField (how : Reading) (room : Nat) : Json → Option String
  | .text name => name
  | .object [(some name, v)] => if 0 < room && isNothing how v then some name else none
  | _ => none

/-- The name of a variant as the first of two items: a string, or in held content its number. -/
def nameItem (names : List String) : Reading → Json → Option String
  | _, .text name => name
  | .held, .integer (.ofNat i) => names[i]?
  | _, _ => none

structure Variant where
  name : String
  content : Option Json
  how : Reading

/-- A variant, written as an object with `type` and `value` or as an array of the two. -/
def variant (names : List String) (how : Reading) (room : Nat) : Json → Option Variant
  | .array [name, v] => do return ⟨← nameItem names how name, some v, how⟩
  | .object fs =>
    if fs.all fun f => f.1.isSome then
      match fs.filter fun f => f.1 == some "type" || f.1 == some "value" with
      | [(some "type", name)] => do return ⟨← nameField how room name, none, how⟩
      | [(some "type", name), (some "value", v)] => do
        return ⟨← nameField how room name, some v, how⟩
      | [(some "value", v), (some "type", name)] =>
        if v.sound room then do return ⟨← nameField how room name, some v, .held⟩ else none
      | _ => none
    else none
  | _ => none

end Waymark.Wire
