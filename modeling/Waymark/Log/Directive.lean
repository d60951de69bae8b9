import Waymark.Log.Event
import Waymark.Log.Pattern
import Waymark.Text.Alphanumeric
import Waymark.Text.Blank
import Waymark.Text.Bytes

/-!
# Log directives

A directive says up to which level events pass. It may hold for some targets only, for events inside
a scope of some name, and for events that have a field:

    debug
    ast_locator::locator=debug
    ast_locator[scope{field=value}]=debug

A target without a level lets all levels through. Blanks around a directive do not count when its
parts are found, but each part is cut from the text with its blanks, at the place that was found
without them.
-/

namespace Waymark

namespace Level

/-- A numeral in base ten, which may have a plus sign and leading zeros. -/
def numeral? (s : List Char) : Option Nat :=
  let digits := if s.head? = some '+' then s.tail else s
  if !digits.isEmpty && digits.all Char.isDigit then some (Nat.ofDigitChars 10 digits 0) else none

/-- The last level that passes, none if no level does. Levels have names, in any case, and numbers. -/
def limit? (s : List Char) : Option (Option Level) :=
  match numeral? s, String.ofList (s.map Char.toLower) with
  | some 0, _ => some none
  | some 1, _ => some (some .error)
  | some 2, _ => some (some .warn)
  | some 3, _ => some (some .info)
  | some 4, _ => some (some .debug)
  | some 5, _ => some (some .trace)
  | _, "off" => some none
  | _, "error" => some (some .error)
  | _, "warn" => some (some .warn)
  | _, "info" => some (some .info)
  | _, "debug" => some (some .debug)
  | _, "trace" => some (some .trace)
  | _, _ => none

end Level

structure FieldTest where
  name : String
  value : Option String
  deriving DecidableEq, Repr

structure Directive where
  /-- None for a directive that holds for all targets. -/
  target : Option String := none
  scope : Option String := none
  field : Option FieldTest := none
  /-- The last level that passes, none if no level does. -/
  limit : Option Level := some .trace
  deriving DecidableEq, Repr

inductive DirectiveFault where
  | malformed
  | unknownLevel
  | badField (cause : PatternFault)
  deriving DecidableEq, Repr

def DirectiveFault.message : DirectiveFault → String
  | .malformed => "invalid filter directive"
  | .unknownLevel =>
    "error parsing level filter: expected one of \"off\", \"error\", \"warn\", \"info\", " ++
      "\"debug\", \"trace\", or a number 0-5"
  | .badField cause => "invalid field filter: " ++ cause.message

namespace Directive

def part (text : List Char) (start stop : Nat) : String :=
  String.ofList (Text.takeBytes (stop - start) (Text.dropBytes start text))

/-- What stands after the equals sign of a field is its value, up to the next one. -/
def fieldTest (s : String) : Except DirectiveFault FieldTest :=
  match s.splitOn "=" with
  | name :: value :: _ =>
    match FieldValue.fault? value.toList with
    | some cause => .error (.badField cause)
    | none => .ok ⟨name, some value⟩
  | _ => .ok ⟨s, none⟩

/-- The level from a place to the end. Without one all levels pass. -/
def withLevel (text : List Char) (start : Nat) (d : Directive) : Except DirectiveFault Directive :=
  match Text.dropBytes start text with
  | [] => .ok d
  | s =>
    match Level.limit? s with
    | some limit => .ok { d with limit }
    | none => .error .unknownLevel

def afterBracket (text : List Char) (start : Nat) (d : Directive) :
    List Char → Except DirectiveFault Directive
  | [] => .ok d
  | '=' :: _ => withLevel text (start + 1) d
  | _ => .error .malformed

def afterBrace (text : List Char) (start : Nat) (d : Directive) (s : List Char) :
    Except DirectiveFault Directive :=
  let name := s.takeWhile (· != '}')
  let stop := start + Text.byteLength name
  match name, s.dropWhile (· != '}') with
  | _ :: _, '}' :: rest => do
    let field ← fieldTest (part text start stop)
    match rest with
    | ']' :: rest => afterBracket text (stop + 2) { d with field := some field } rest
    | _ => .error .malformed
  | _, _ => .error .malformed

def inBrackets (text : List Char) (start : Nat) (d : Directive) (s : List Char) :
    Except DirectiveFault Directive :=
  let isName (c : Char) : Bool := c != ']' && c != '{'
  let name := s.takeWhile isName
  let stop := start + Text.byteLength name
  let scope := part text start stop
  match s.dropWhile isName with
  | ']' :: rest => afterBracket text (stop + 1) { d with scope := some scope } rest
  | '{' :: rest =>
    afterBrace text (stop + 1) { d with scope := if name.isEmpty then none else some scope } rest
  | _ => .error .malformed

def isFirst (c : Char) : Bool := c == '-' || c == ':' || c == '_' || CharClass.isAlphanumeric c

def parse (text : List Char) : Except DirectiveFault Directive :=
  match CharClass.trim text with
  | [] => .error .malformed
  | '[' :: s => inBrackets text 1 {} s
  | c :: s =>
    if isFirst c then
      let isName (c : Char) : Bool := c != '=' && c != '['
      let stop := Text.byteLength ((c :: s).takeWhile isName)
      let d : Directive := { target := some (part text 0 stop) }
      match s.dropWhile isName with
      | '=' :: _ => withLevel text (stop + 1) d
      | '[' :: rest => inBrackets text (stop + 1) d rest
      | _ =>
        match Level.limit? text with
        | some limit => .ok { limit }
        | none => .ok { target := some (String.ofList text) }
    else .error .malformed

end Directive

end Waymark
