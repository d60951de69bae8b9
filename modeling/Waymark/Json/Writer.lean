import Waymark.Json

/-!
# Writing JSON

The compact form: no blanks, and escapes only where JSON asks for them. A string literal with half
of a surrogate pair and a number that is no integer are written as one of their kind.
-/

namespace Waymark.Json

def writeChar (c : Char) : List Char :=
  match c with
  | '"' => ['\\', '"']
  | '\\' => ['\\', '\\']
  | '\x08' => ['\\', 'b']
  | '\x0c' => ['\\', 'f']
  | '\n' => ['\\', 'n']
  | '\r' => ['\\', 'r']
  | '\t' => ['\\', 't']
  | _ =>
    if c.toNat < 0x20 then
      ['\\', 'u', '0', '0', Nat.digitChar (c.toNat / 16), Nat.digitChar (c.toNat % 16)]
    else [c]

def writeText : Option String → List Char
  | some s => '"' :: s.toList.flatMap writeChar ++ ['"']
  | none => "\"\\ud800\"".toList

def writeInteger (i : Int) : List Char :=
  if i < 0 then '-' :: Nat.toDigits 10 i.natAbs else Nat.toDigits 10 i.natAbs

mutual

def write : Json → List Char
  | .null => "null".toList
  | .bool b => if b then "true".toList else "false".toList
  | .integer i => writeInteger i
  | .real fits => if fits then "0.5".toList else "1e999".toList
  | .text s => writeText s
  | .array items => '[' :: writeItems items
  | .object fields => '{' :: writeFields fields

def writeItems : List Json → List Char
  | [] => [']']
  | [x] => write x ++ [']']
  | x :: y :: xs => write x ++ ',' :: writeItems (y :: xs)

def writeFields : List (Option String × Json) → List Char
  | [] => ['}']
  | [(k, x)] => writeText k ++ ':' :: write x ++ ['}']
  | (k, x) :: y :: xs => writeText k ++ ':' :: write x ++ ',' :: writeFields (y :: xs)

end

def render (v : Json) : String := String.ofList v.write

end Waymark.Json
