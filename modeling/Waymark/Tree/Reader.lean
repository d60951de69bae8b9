import Waymark.Text.Alphanumeric
import Waymark.Text.Blank
import Waymark.Text.Bytes
import Waymark.Tree.Declaration

/-!
# Trees as text

The text form of a tree:

    Program@1:1-9:1 {
      Foo#first@1:1-1:20 { Bar@1:3-1:5, Bar@1:7-1:9 }
      List { Baz@2:1-2:4!visible }
      .decl() = Decl { Name@1:3-1:5 }
      ~lookup("x", $first, 3) = Binding
    }

A node is a type name with an optional label, span and flags, followed by its body in braces. The
body holds children, derived values after a point, and derived values below a proxy after a tilde.
Commas count as blanks. Faults tell the number of bytes before the place.
-/

namespace Waymark

/-! ## Faults -/

inductive NumberFault where
  | empty
  /-- A sign without digits. -/
  | invalid
  | tooLarge
  | tooSmall
  deriving DecidableEq, Repr

def NumberFault.message : NumberFault → String
  | .empty => "cannot parse integer from empty string"
  | .invalid => "invalid digit found in string"
  | .tooLarge => "number too large to fit in target type"
  | .tooSmall => "number too small to fit in target type"

inductive TreeFault where
  | expectedName (offset : Nat) (rest : List Char)
  | expectedChar (c : Char) (offset : Nat) (rest : List Char)
  | expectedNumber (offset : Nat) (cause : NumberFault)
  /-- A line or column that is a number but no position. -/
  | badPosition (cause : NumberFault)
  | expectedColon (offset : Nat)
  | expectedDash (offset : Nat)
  | trailing (offset : Nat) (rest : List Char)
  | unclosed (type : String)
  | unknownFlag (flag : String)
  | unterminated (offset : Nat)
  | unknownArgument (word : String)
  | expectedStream (offset : Nat)
  | endOfArguments
  | unknownLabel (label : String)
  /-- Never arises, since every turn of the reader takes a character. -/
  | exhausted
  deriving DecidableEq, Repr

def TreeFault.message : TreeFault → String
  | .expectedName offset rest =>
    "expected a name at " ++ toString offset ++ ": " ++ Text.quoted rest
  | .expectedChar c offset rest =>
    "expected `" ++ c.toString ++ "` at " ++ toString offset ++ ": " ++ Text.quoted rest
  | .expectedNumber offset cause =>
    "expected a number at " ++ toString offset ++ ": " ++ cause.message
  | .badPosition cause => cause.message
  | .expectedColon offset => "expected `:` in position at " ++ toString offset
  | .expectedDash offset => "expected `-` in span at " ++ toString offset
  | .trailing offset rest =>
    "unexpected trailing input at " ++ toString offset ++ ": " ++ Text.quoted rest
  | .unclosed type => "unclosed `\x7b` for " ++ type
  | .unknownFlag flag => "unknown flag `!" ++ flag ++ "`"
  | .unterminated offset => "unterminated string at " ++ toString offset
  | .unknownArgument word => "unknown argument `" ++ word ++ "`"
  | .expectedStream offset => "expected `out:name` at " ++ toString offset
  | .endOfArguments => "unexpected end of input in argument list"
  | .unknownLabel label => "no node labelled `" ++ label ++ "`"
  | .exhausted => "the text has no end"

/-! ## Cursors -/

/-- A place in a text: the number of bytes before it, and the characters after it. -/
structure Cursor where
  offset : Nat
  rest : List Char

namespace Cursor

def takeWhile (p : Char → Bool) (c : Cursor) : List Char × Cursor :=
  let taken := c.rest.takeWhile p
  (taken, ⟨c.offset + Text.byteLength taken, c.rest.dropWhile p⟩)

def skipBlanks (c : Cursor) : Cursor :=
  (c.takeWhile fun x => CharClass.blank.has x || x == ',').2

def eat (x : Char) (c : Cursor) : Option Cursor :=
  match c.rest with
  | y :: r => if y = x then some ⟨c.offset + x.utf8Size, r⟩ else none
  | [] => none

end Cursor

abbrev TreeReader (α : Type) := Cursor → Except TreeFault (α × Cursor)

namespace TreeReader

/-! ## Words and numbers -/

def isWordChar (c : Char) : Bool :=
  c.isAlphanum || c == '_' || (0x7f < c.toNat && CharClass.isAlphanumeric c)

def word : TreeReader String := fun c =>
  match c.takeWhile isWordChar with
  | ([], _) => .error (.expectedName c.offset c.rest)
  | (w, c') => .ok (String.ofList w, c')

def expect (x : Char) : TreeReader Unit := fun c =>
  let c := c.skipBlanks
  match c.eat x with
  | some c' => .ok ((), c')
  | none => .error (.expectedChar x c.offset c.rest)

def integerOf (negative : Bool) (digits : List Char) : Except NumberFault Int64 :=
  let n : Int := Nat.ofDigitChars 10 digits 0
  match digits, negative with
  | [], false => .error .empty
  | [], true => .error .invalid
  | _, false => if n ≤ Int64.maxValue.toInt then .ok (.ofInt n) else .error .tooLarge
  | _, true => if Int64.minValue.toInt ≤ -n then .ok (.ofInt (-n)) else .error .tooSmall

def number : TreeReader Int64 := fun c =>
  let (negative, c') := match c.eat '-' with
    | some c' => (true, c')
    | none => (false, c)
  let (digits, c') := c'.takeWhile Char.isDigit
  match integerOf negative digits with
  | .ok i => .ok (i, c')
  | .error cause => .error (.expectedNumber c.offset cause)

/-! ## Spans -/

def coordinate (i : Int64) : Except TreeFault UInt32 :=
  if i.toInt < 0 then .error (.badPosition .tooSmall)
  else if i.toInt.toNat < UInt32.size then .ok (.ofNat i.toInt.toNat)
  else .error (.badPosition .tooLarge)

def position : TreeReader (UInt32 × UInt32) := fun c => do
  let (line, c) ← number c
  let some c := c.eat ':' | .error (.expectedColon c.offset)
  let (column, c) ← number c
  return ((← coordinate line, ← coordinate column), c)

def span : TreeReader Span := fun c => do
  let ((startLine, startColumn), c) ← position c
  let some c := c.eat '-' | .error (.expectedDash c.offset)
  let ((stopLine, stopColumn), c) ← position c
  return (.ofLineColumns startLine startColumn stopLine stopColumn, c)

/-! ## Heads -/

/-- What follows a type name: label, span and flags in any order, of which the last one counts. -/
structure Marks where
  label : Option String := none
  span : Option Span := none
  flags : List String := []

def marks : Nat → Marks → TreeReader Marks
  | 0, _, _ => .error .exhausted
  | fuel + 1, m, c =>
    match c.eat '#', c.eat '@', c.eat '!' with
    | some c, _, _ => do
      let (w, c) ← word c
      marks fuel { m with label := some w } c
    | _, some c, _ => do
      let (s, c) ← span c
      marks fuel { m with span := some s } c
    | _, _, some c => do
      let (w, c) ← word c
      marks fuel { m with flags := m.flags ++ [w] } c
    | none, none, none => .ok (m, c)

def withFlag (head : TreeHead) (flag : String) : Except TreeFault TreeHead :=
  match flag with
  | "external" => .ok { head with external := true }
  | "hidden" => .ok { head with visible := some false }
  | "visible" => .ok { head with visible := some true }
  | _ => .error (.unknownFlag flag)

def head (fuel : Nat) : TreeReader TreeHead := fun c => do
  let (type, c) ← word c.skipBlanks
  let (m, c) ← marks fuel {} c
  return (← m.flags.foldlM withFlag { type, label := m.label, span := m.span }, c)

/-! ## Arguments -/

def wordTerm : TreeReader Term := fun c => do
  let (w, c) ← word c
  match w with
  | "true" => return (.bool true, c)
  | "false" => return (.bool false, c)
  | "null" => return (.null, c)
  | "any" => return (.any, c)
  | "out" =>
    let some c := c.eat ':' | .error (.expectedStream c.offset)
    let (name, c) ← word c
    return (.stream name, c)
  | _ => .error (.unknownArgument w)

/-- A string after its opening quote. It has no escapes. -/
def quoted : TreeReader Term := fun c => do
  let (s, c') := c.takeWhile (· != '"')
  let some c' := c'.eat '"' | .error (.unterminated c.offset)
  return (.string (String.ofList s), c')

mutual

def term : Nat → TreeReader Term
  | 0, _ => .error .exhausted
  | fuel + 1, c =>
    match c.skipBlanks with
    | ⟨_, []⟩ => .error .endOfArguments
    | ⟨offset, '"' :: r⟩ => quoted ⟨offset + 1, r⟩
    | ⟨offset, '$' :: r⟩ => do
      let (w, c) ← word ⟨offset + 1, r⟩
      return (.ref w, c)
    | ⟨offset, '[' :: r⟩ => do
      let (items, c) ← terms fuel ']' ⟨offset + 1, r⟩
      return (.collection items, c)
    | ⟨offset, x :: r⟩ =>
      if x.isDigit || x == '-' then do
        let (i, c) ← number ⟨offset, x :: r⟩
        return (.integer i, c)
      else wordTerm ⟨offset, x :: r⟩

def terms : Nat → Char → TreeReader (List Term)
  | 0, _, _ => .error .exhausted
  | fuel + 1, close, c =>
    match c.skipBlanks.eat close with
    | some c => .ok ([], c)
    | none => do
      let (t, c) ← term fuel c.skipBlanks
      let (ts, c) ← terms fuel close c
      return (t :: ts, c)

end

def call (fuel : Nat) : TreeReader (String × List Term) := fun c => do
  let (name, c) ← word c
  let ((), c) ← expect '(' c
  let (args, c) ← terms fuel ')' c
  let ((), c) ← expect '=' c
  return ((name, args), c)

/-! ## Nodes -/

mutual

def declaration : Nat → TreeReader Declaration
  | 0, _ => .error .exhausted
  | fuel + 1, c => do
    let (h, c) ← head fuel c
    let c := c.skipBlanks
    match c.eat '{' with
    | none => return (.node h [], c)
    | some c => do
      let (entries, c) ← body fuel h.type c
      return (.node h entries, c)

def body : Nat → String → TreeReader (List Entry)
  | 0, _, _ => .error .exhausted
  | fuel + 1, type, c =>
    match c.skipBlanks with
    | ⟨_, []⟩ => .error (.unclosed type)
    | ⟨offset, '}' :: r⟩ => .ok ([], ⟨offset + 1, r⟩)
    | ⟨offset, x :: r⟩ =>
      if x == '.' || x == '~' then do
        let ((name, args), c) ← call fuel ⟨offset + 1, r⟩
        let (d, c) ← declaration fuel c
        let (es, c) ← body fuel type c
        return (.derived (x == '~') name args d :: es, c)
      else do
        let (d, c) ← declaration fuel ⟨offset, x :: r⟩
        let (es, c) ← body fuel type c
        return (.child d :: es, c)

end

def whole (s : List Char) : Except TreeFault Declaration := do
  let (d, c) ← declaration (2 * s.length + 2) ⟨0, s⟩
  let c := c.skipBlanks
  if c.rest.isEmpty then return d else .error (.trailing c.offset c.rest)

end TreeReader

def Tree.ofText (text : String) : Except TreeFault Tree := do
  let d ← TreeReader.whole text.toList
  match d.plant with
  | .ok t => return t
  | .error label => .error (.unknownLabel label)

end Waymark
