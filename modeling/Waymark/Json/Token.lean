import Waymark.Json
import Waymark.Json.Double
import Waymark.Text.Hex

/-!
# JSON tokens

Reading starts by cutting the text into tokens. The rules are the strict ones: four blanks, no
leading zeros or plus signs, no raw control characters in a string.
-/

namespace Waymark.Json

inductive Token where
  | openBracket
  | closeBracket
  | openBrace
  | closeBrace
  | comma
  | colon
  | null
  | bool (b : Bool)
  | integer (i : Int)
  | real (fits : Bool)
  | text (s : Option String)
  deriving DecidableEq

namespace Token

def isBlank (c : Char) : Bool := c == ' ' || c == '\t' || c == '\r' || c == '\n'

/-! ## Numbers -/

def minus : List Char → Bool × List Char
  | '-' :: s => (true, s)
  | s => (false, s)

def exponentSign : List Char → Bool × List Char
  | '+' :: s => (false, s)
  | s => minus s

def exponent (s : List Char) : Option (Int × List Char) :=
  let (negative, s) := exponentSign s
  match s.takeWhile Char.isDigit with
  | [] => none
  | digits =>
    let n : Int := Nat.ofDigitChars 10 digits 0
    some (if negative then -n else n, s.dropWhile Char.isDigit)

/-- A number that is no integer, from what may be its exponent on. Before it stand the digits on
the two sides of its point. -/
def realTail (whole fraction : List Char) : List Char → Option (Token × List Char)
  | c :: s =>
    if c = 'e' ∨ c = 'E' then
      (exponent s).map fun (e, r) => (.real (Double.fits whole fraction e), r)
    else some (.real (Double.fits whole fraction 0), c :: s)
  | [] => some (.real (Double.fits whole fraction 0), [])

/-- Integers are kept if they fit in 64 bits, with a sign or without. -/
def integral (negative : Bool) (digits : List Char) : Token :=
  let n := Nat.ofDigitChars 10 digits 0
  if !negative && n < UInt64.size then .integer n
  else if negative && n != 0 && Int64.minValue.toInt ≤ -(n : Int) then .integer (-n)
  else .real (Double.fits digits [] 0)

def numberTail (negative : Bool) (whole : List Char) : List Char → Option (Token × List Char)
  | '.' :: s =>
    match s.takeWhile Char.isDigit with
    | [] => none
    | digits => realTail whole digits (s.dropWhile Char.isDigit)
  | s =>
    if s.head? = some 'e' ∨ s.head? = some 'E' then realTail whole [] s
    else some (integral negative whole, s)

def number (s : List Char) : Option (Token × List Char) :=
  let (negative, s) := minus s
  match s.takeWhile Char.isDigit with
  | [] => none
  | '0' :: _ :: _ => none
  | digits => numberTail negative digits (s.dropWhile Char.isDigit)

/-! ## Strings -/

def hexUnit (a b c d : Char) : Option Nat := do
  return 4096 * (← Text.hexDigit a) + 256 * (← Text.hexDigit b) + 16 * (← Text.hexDigit c) + (← Text.hexDigit d)

def isHighHalf (n : Nat) : Bool := 0xd800 ≤ n && n < 0xdc00

def isLowHalf (n : Nat) : Bool := 0xdc00 ≤ n && n < 0xe000

def joinHalves (high low : Nat) : Char :=
  Char.ofNat (0x10000 + 0x400 * (high - 0xd800) + (low - 0xdc00))

def shortEscape : Char → Option Char
  | '"' => some '"'
  | '\\' => some '\\'
  | '/' => some '/'
  | 'b' => some '\x08'
  | 'f' => some '\x0c'
  | 'n' => some '\n'
  | 'r' => some '\r'
  | 't' => some '\t'
  | _ => none

/-- Half of a surrogate pair that nothing completes spoils what was read. -/
def settle (half : Option Nat) (read : Option (List Char)) : Option (List Char) :=
  if half.isSome then none else read

/-- The rest of a string literal after its opening quote. `half` is the upper half of a surrogate
pair that the last escape named. `read` holds the characters so far, the last one first, and
nothing any more once a half was left alone. -/
def literal (half : Option Nat) (read : Option (List Char)) :
    List Char → Option (Option String × List Char)
  | '"' :: s => some ((settle half read).map fun cs => String.ofList cs.reverse, s)
  | '\\' :: 'u' :: a :: b :: c :: d :: s =>
    match hexUnit a b c d, half with
    | none, _ => none
    | some n, some h =>
      if isLowHalf n then literal none (read.map (joinHalves h n :: ·)) s
      else if isHighHalf n then literal (some n) none s
      else literal none none s
    | some n, none =>
      if isHighHalf n then literal (some n) read s
      else if isLowHalf n then literal none none s
      else literal none (read.map (Char.ofNat n :: ·)) s
  | '\\' :: c :: s =>
    match shortEscape c with
    | some c => literal none ((settle half read).map (c :: ·)) s
    | none => none
  | c :: s =>
    if c.toNat < 0x20 || c == '\\' then none
    else literal none ((settle half read).map (c :: ·)) s
  | [] => none

/-! ## The text as tokens -/

def first : List Char → Option (Token × List Char)
  | '[' :: s => some (.openBracket, s)
  | ']' :: s => some (.closeBracket, s)
  | '{' :: s => some (.openBrace, s)
  | '}' :: s => some (.closeBrace, s)
  | ',' :: s => some (.comma, s)
  | ':' :: s => some (.colon, s)
  | 'n' :: 'u' :: 'l' :: 'l' :: s => some (.null, s)
  | 't' :: 'r' :: 'u' :: 'e' :: s => some (.bool true, s)
  | 'f' :: 'a' :: 'l' :: 's' :: 'e' :: s => some (.bool false, s)
  | '"' :: s => (literal none (some []) s).map fun r => (.text r.1, r.2)
  | s => number s

/-! ### A token takes at least one character -/

theorem length_dropWhile_le (p : Char → Bool) (s : List Char) :
    (s.dropWhile p).length ≤ s.length :=
  (List.dropWhile_sublist p).length_le

theorem length_dropWhile_lt {p : Char → Bool} {s : List Char} (h : s.takeWhile p ≠ []) :
    (s.dropWhile p).length < s.length := by
  have hs := congrArg List.length (List.takeWhile_append_dropWhile (p := p) (l := s))
  have ht := List.length_pos_iff.2 h
  simp only [List.length_append] at hs
  omega

theorem length_minus_le (s : List Char) : (minus s).2.length ≤ s.length := by
  unfold minus; split
  · exact Nat.le_succ _
  · exact Nat.le_refl _

theorem length_exponentSign_le (s : List Char) : (exponentSign s).2.length ≤ s.length := by
  unfold exponentSign; split
  · exact Nat.le_succ _
  · exact length_minus_le _

theorem length_exponent_le {s r : List Char} {e : Int} (h : exponent s = some (e, r)) :
    r.length ≤ s.length := by
  unfold exponent at h
  simp only at h
  split at h
  · cases h
  · cases h
    exact Nat.le_trans (length_dropWhile_le _ _) (length_exponentSign_le s)

theorem length_realTail_le {w f s r : List Char} {t : Token}
    (h : realTail w f s = some (t, r)) : r.length ≤ s.length := by
  unfold realTail at h
  split at h
  · split at h
    · obtain ⟨⟨e, r'⟩, he, hr⟩ := Option.map_eq_some_iff.1 h
      cases hr
      exact Nat.le_succ_of_le (length_exponent_le he)
    · cases h
      exact Nat.le_refl _
  · cases h
    exact Nat.le_refl _

theorem length_numberTail_le {b : Bool} {w s r : List Char} {t : Token}
    (h : numberTail b w s = some (t, r)) : r.length ≤ s.length := by
  unfold numberTail at h
  split at h
  · split at h
    · cases h
    · exact Nat.le_succ_of_le (Nat.le_trans (length_realTail_le h) (length_dropWhile_le _ _))
  · split at h
    · exact length_realTail_le h
    · cases h
      exact Nat.le_refl _

theorem length_number_lt {s r : List Char} {t : Token} (h : number s = some (t, r)) :
    r.length < s.length := by
  unfold number at h
  simp only at h
  split at h
  · cases h
  · cases h
  · rename_i hne _
    have := length_numberTail_le h
    have := length_dropWhile_lt hne
    have := length_minus_le s
    omega

theorem length_literal_lt {half : Option Nat} {read : Option (List Char)} {s r : List Char}
    {x : Option String} (h : literal half read s = some (x, r)) : r.length < s.length := by
  fun_induction literal half read s <;> simp_all <;> grind

theorem length_first_lt {s r : List Char} {t : Token} (h : first s = some (t, r)) :
    r.length < s.length := by
  unfold first at h
  split at h
  all_goals first
    | exact length_number_lt h
    | obtain ⟨⟨x, r'⟩, hl, hr⟩ := Option.map_eq_some_iff.1 h
      cases hr
      exact Nat.lt_succ_of_lt (length_literal_lt hl)
    | cases h
      simp only [List.length_cons]
      omega

def scan (s : List Char) : Option (List Token) :=
  match s with
  | [] => some []
  | c :: r =>
    if isBlank c then scan r
    else
      match _h : first (c :: r) with
      | none => none
      | some (t, rest) => (scan rest).map (t :: ·)
termination_by s.length
decreasing_by
  · exact Nat.lt_succ_self _
  · exact length_first_lt _h

end Token

end Waymark.Json
