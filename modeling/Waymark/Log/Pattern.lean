import Waymark.Text.Alphanumeric
import Waymark.Text.Blank
import Waymark.Text.Hex

/-!
# Patterns

The value of a field in a log filter is a number or a pattern, a regular expression. Values belong to
scopes, and there are none, so a pattern is checked and never run. Of its parts only the height is
kept, since they may not be nested too deeply.

A pattern goes by Unicode unless its flag `u` is off, and then needs tables for some things: the
classes `\d`, `\s`, `\w` and `\p`, and for letters that differ only in case. There are no such tables,
so all these are refused. With the flag off only ASCII is left, and what could match more is refused.

A field ends at its first closing brace. So nothing in a pattern is closed by one, and an opening
brace is always wrong outside of a class.
-/

namespace Waymark

inductive PatternFault where
  | malformed
  /-- Word boundaries by Unicode cannot be found. -/
  | wordBoundary
  deriving DecidableEq, Repr

def PatternFault.message : PatternFault → String
  | .malformed => "error building NFA"
  | .wordBoundary =>
    "unsupported regex feature for DFAs: cannot build DFAs for regexes with Unicode word " ++
      "boundaries; switch to ASCII word boundaries, or heuristically enable Unicode word " ++
      "boundaries or use a different regex engine"

namespace Pattern

def maxHeight : Nat := 250

structure Flags where
  /-- Blanks and comments do not count. -/
  loose : Bool := false
  anyCase : Bool := false
  unicode : Bool := true
  deriving DecidableEq, Repr

structure State where
  rest : List Char
  flags : Flags := {}
  names : List (List Char) := []
  /-- Whether there was a word boundary by Unicode. -/
  boundary : Bool := false

abbrev Reader := StateT State Option

/-- A part of a sequence. A change of flags cannot be repeated. -/
structure Part where
  height : Nat := 0
  repeatable : Bool := true

def joined : List Nat → Nat
  | [] => 0
  | [h] => h
  | hs => 1 + hs.foldl max 0

/-! ## Characters -/

/-- What follows after blanks and comments. A comment goes from `#` to the end of its line. -/
def afterIgnored (inComment : Bool) : List Char → List Char
  | [] => []
  | c :: s =>
    if inComment then afterIgnored (c != '\n') s
    else if CharClass.blank.has c then afterIgnored false s
    else if c = '#' then afterIgnored true s
    else c :: s

def setRest (s : List Char) : Reader Unit := modify fun st => { st with rest := s }

def skip : Reader Unit :=
  modify fun st => if st.flags.loose then { st with rest := afterIgnored false st.rest } else st

def take : Reader Char := do
  match (← get).rest with
  | c :: s => setRest s; return c
  | [] => failure

def accept (text : String) : Reader Bool := do
  let s := (← get).rest
  if text.toList.isPrefixOf s then
    setRest (s.drop text.length)
    return true
  else return false

def require (b : Bool) : Reader Unit := if b then pure () else failure

def isAscii (c : Char) : Bool := c.toNat < 128

/-- A character that stands for itself. `byte` says that it was written as two hexadecimal digits. -/
def literal (c : Char) (byte : Bool) : Reader Unit := do
  let f := (← get).flags
  require (if f.unicode then !f.anyCase else isAscii c || !byte)

def member (c : Char) : Reader Unit := do
  let f := (← get).flags
  require (if f.unicode then !f.anyCase else isAscii c)

/-! ## Escapes -/

inductive Escape where
  | literal (c : Char) (byte : Bool)
  | charClass
  | assertion

def hexDigits : Nat → Nat → Reader Nat
  | 0, n => return n
  | count + 1, n => do
    skip
    match Text.hexDigit (← take) with
    | some d => hexDigits count (16 * n + d)
    | none => failure

def hexEscape (digits : Nat) : Reader Escape := do
  let n ← hexDigits digits 0
  require (decide n.isValidChar)
  return .literal (Char.ofNat n) (digits == 2)

/-- Whether a backslash makes the character stand for itself. Letters and digits are kept for other
uses, and so are the angle brackets. -/
def isEscapable (c : Char) : Bool := isAscii c && !c.isAlphanum && c != '<' && c != '>'

def escape : Reader Escape := do
  let c ← take
  match c with
  | 'x' => hexEscape 2
  | 'u' => hexEscape 4
  | 'U' => hexEscape 8
  | 'd' | 's' | 'w' => do require (!(← get).flags.unicode); return .charClass
  | 'a' => return .literal '\x07' false
  | 'f' => return .literal '\x0c' false
  | 't' => return .literal '\t' false
  | 'n' => return .literal '\n' false
  | 'r' => return .literal '\r' false
  | 'v' => return .literal '\x0b' false
  | 'A' | 'z' => return .assertion
  | 'b' | 'B' | '<' | '>' =>
    modify fun st => { st with boundary := st.boundary || st.flags.unicode }
    return .assertion
  | _ => require (isEscapable c); return .literal c false

/-! ## Classes -/

def asciiClasses : List String :=
  ["alnum", "alpha", "ascii", "blank", "cntrl", "digit", "graph", "lower", "print", "punct", "space",
   "upper", "word", "xdigit"]

/-- A named class after its opening bracket: whether it is negated, and what follows it. -/
def asciiClass? : List Char → Option (Bool × List Char)
  | ':' :: s =>
    let negated := s.head? == some '^'
    let s := if negated then s.tail else s
    match s.dropWhile (· != ':') with
    | ':' :: ']' :: rest =>
      if asciiClasses.contains (String.ofList (s.takeWhile (· != ':'))) then some (negated, rest)
      else none
    | _ => none
  | _ => none

/-- A named class takes part in case and negation like one that is spelled out. -/
def namedClass (negated : Bool) : Reader Unit := do
  let f := (← get).flags
  require (if f.unicode then !f.anyCase else !negated)

def endpoint : Reader (Option Char) := do
  match ← take with
  | '\\' =>
    match ← escape with
    | .literal c _ => return some c
    | .charClass => return none
    | .assertion => failure
  | c => return some c

/-- The character after the next one, blanks and the start of a comment left out. -/
def second? (loose : Bool) (s : List Char) : Option Char :=
  let s := s.tail
  if loose then
    let s' := s.dropWhile CharClass.blank.has
    let s' := if s'.head? == some '#' then s'.tail.dropWhile CharClass.blank.has else s'
    s'.head? <|> s.head?
  else s.head?

def item : Reader Unit := do
  let start ← endpoint
  skip
  let st ← get
  let following := second? st.flags.loose st.rest
  if st.rest.head? != some '-' || following == some ']' || following == some '-' then
    match start with
    | some c => member c
    | none => pure ()
  else
    let _ ← take
    skip
    match start, ← endpoint with
    | some a, some b => do require (a ≤ b); member a; member b
    | _, _ => failure

/-- Hyphens at the start of a class, which stand for themselves. -/
def hyphens : Nat → Reader Nat
  | 0 => return 0
  | fuel + 1 => do
    if ← accept "-" then
      member '-'
      skip
      return (← hyphens fuel) + 1
    else return 0

/-- The height of a set whose left side may have been read before. -/
def combined (left : Option Nat) (right : Nat) : Nat :=
  match left with
  | some h => 1 + max h right
  | none => right

mutual

/-- A class from its opening bracket on, with its height. A closing bracket that comes first stands
for itself. -/
def bracketed : Nat → Reader Nat
  | 0 => failure
  | fuel + 1 => do
    let _ ← take
    skip
    if ← accept "^" then
      require (← get).flags.unicode
      skip
    let count ← hyphens fuel
    let first ← if count == 0 then accept "]" else pure false
    if first then
      member ']'
      skip
    return (← members fuel (List.replicate (count + first.toNat) 0) none) + 1

/-- The rest of a class. `items` are the heights of what is between two operators. -/
def members : Nat → List Nat → Option Nat → Reader Nat
  | 0, _, _ => failure
  | fuel + 1, items, left => do
    skip
    match (← get).rest with
    | [] => failure
    | ']' :: s => setRest s; return combined left (joined items)
    | '&' :: '&' :: s => setRest s; members fuel [] (some (combined left (joined items)))
    | '-' :: '-' :: s => setRest s; members fuel [] (some (combined left (joined items)))
    | '~' :: '~' :: s => setRest s; members fuel [] (some (combined left (joined items)))
    | '[' :: s =>
      match asciiClass? s with
      | some (negated, rest) =>
        namedClass negated
        setRest rest
        members fuel (0 :: items) left
      | none =>
        let h ← bracketed fuel
        members fuel (h :: items) left
    | _ =>
      item
      members fuel (0 :: items) left

end

/-! ## Groups -/

/-- The flags up to the end of their list. None may come twice, a minus sign included, and none
follows last on a minus sign. -/
def flagList (seen : List Char) : List Char → Option (List Char × List Char)
  | [] => none
  | c :: s =>
    if c = ':' ∨ c = ')' then
      if seen.head? = some '-' then none else some (seen.reverse, c :: s)
    else if seen.contains c || !"imsUuRx-".toList.contains c then none
    else flagList (c :: seen) s

/-- The flags after a minus sign are switched off, those before it on. -/
def Flags.change (f : Flags) (on : Bool) : List Char → Flags
  | [] => f
  | '-' :: cs => f.change false cs
  | 'x' :: cs => { f with loose := on }.change on cs
  | 'i' :: cs => { f with anyCase := on }.change on cs
  | 'u' :: cs => { f with unicode := on }.change on cs
  | _ :: cs => f.change on cs

def isNameChar (c : Char) : Bool :=
  c == '_' || c == '.' || c == '[' || c == ']' || CharClass.isAlphanumeric c

/-- The name of a group, up to its closing angle bracket. No two groups share a name. -/
def groupName : Reader Unit := do
  let st ← get
  let name := st.rest.takeWhile (· != '>')
  match name, st.rest.dropWhile (· != '>') with
  | c :: cs, '>' :: s =>
    require ((c == '_' || CharClass.alphabetic.has c) && cs.all isNameChar)
    require (!st.names.contains name)
    set { st with rest := s, names := name :: st.names }
  | _, _ => failure

def isLookaround (s : List Char) : Bool :=
  ["?=", "?!", "?<=", "?<!"].any fun p => p.toList.isPrefixOf s

/-- What stands between the opening parenthesis and the body of a group. There is no body, and the
answer is false, if the parentheses only change flags. -/
def groupHead : Reader Bool := do
  skip
  require (!isLookaround (← get).rest)
  if ← accept "?P<" then
    groupName
    return true
  else if ← accept "?<" then
    groupName
    return true
  else if ← accept "?" then
    let st ← get
    match flagList [] st.rest with
    | some (flags, c :: s) =>
      require (c == ':' || !flags.isEmpty)
      set { st with rest := s, flags := st.flags.change true flags }
      return c == ':'
    | _ => failure
  else return true

/-! ## Sequences -/

mutual

/-- A group after its opening parenthesis. Flags that change in it are as before after it. -/
def group : Nat → Reader Part
  | 0 => failure
  | fuel + 1 => do
    let flags := (← get).flags
    if ← groupHead then
      let h ← branches fuel [] []
      require (← accept ")")
      modify fun st => { st with flags }
      return { height := h + 1 }
    else return { repeatable := false }

/-- Everything up to a closing parenthesis or the end. `parts` are those of the branch so far, the
last one first, and `done` the heights of the branches before it. -/
def branches : Nat → List Part → List Nat → Reader Nat
  | 0, _, _ => failure
  | fuel + 1, parts, done => do
    skip
    let height := joined (parts.map (·.height))
    match (← get).rest with
    | [] => return joined (height :: done)
    | ')' :: _ => return joined (height :: done)
    | '|' :: s => setRest s; branches fuel [] (height :: done)
    | '(' :: s =>
      setRest s
      let p ← group fuel
      branches fuel (p :: parts) done
    | '[' :: _ =>
      let h ← bracketed fuel
      branches fuel ({ height := h } :: parts) done
    | '{' :: _ => failure
    | c :: s =>
      setRest s
      if c = '?' ∨ c = '*' ∨ c = '+' then
        match parts with
        | p :: before =>
          require p.repeatable
          let _ ← accept "?"
          branches fuel ({ height := p.height + 1 } :: before) done
        | [] => failure
      else
        match c with
        | '\\' =>
          match ← escape with
          | .literal c byte => literal c byte
          | .charClass | .assertion => pure ()
        | '.' => require (← get).flags.unicode
        | '^' | '$' => pure ()
        | _ => literal c false
        branches fuel ({} :: parts) done

end

def fault? (s : List Char) : Option PatternFault :=
  match (branches (2 * s.length + 2) [] []).run { rest := s } with
  | some (h, st) =>
    if !st.rest.isEmpty || maxHeight < h then some .malformed
    else if st.boundary then some .wordBoundary
    else none
  | none => some .malformed

end Pattern

/-! ## Values -/

namespace FieldValue

/-- A number with or without a point and an exponent, and at least one digit before the exponent. -/
def isDecimal (s : List Char) : Bool :=
  let whole := s.takeWhile Char.isDigit
  let s := s.dropWhile Char.isDigit
  let point := s.head? == some '.'
  let fraction := if point then s.tail.takeWhile Char.isDigit else []
  let s := if point then s.tail.dropWhile Char.isDigit else s
  !(whole ++ fraction).isEmpty &&
    match s with
    | [] => true
    | c :: s =>
      let digits := if s.head? == some '+' || s.head? == some '-' then s.tail else s
      (c == 'e' || c == 'E') && !digits.isEmpty && digits.all Char.isDigit

/-- Numbers may have a sign. Infinity and what is no number count as numbers too. -/
def isNumber (s : List Char) : Bool :=
  let s := if s.head? == some '+' || s.head? == some '-' then s.tail else s
  isDecimal s || ["inf", "infinity", "nan"].contains (String.ofList (s.map Char.toLower))

def fault? (s : List Char) : Option PatternFault := if isNumber s then none else Pattern.fault? s

end FieldValue

end Waymark
