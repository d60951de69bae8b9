import Waymark.Tree.Reader

/-!
# Reading a tree by byte offsets

A scan knows the text and one number, the bytes before its place. It cuts what it looks at out of the text
each time anew, and the tree grows while the text is read. A cut inside a character or beyond the end is a
lapse, and so is a node or a call that is looked up and not there.

Nothing limits the loops and calls of a scan: one that never ends has no outcome. It keeps a record of where
it has been, and of where each call and each turn of a loop has led.
-/

namespace Waymark

/-! ## Cuts -/

namespace Text

/-- `n` bytes are some whole characters at the beginning of the text. -/
def IsOffset (text : List Char) (n : Nat) : Prop := ∃ before, before <+: text ∧ byteLength before = n

def from? : Nat → List Char → Option (List Char)
  | 0, s => some s
  | _ + 1, [] => none
  | n + 1, c :: s => if c.utf8Size ≤ n + 1 then from? (n + 1 - c.utf8Size) s else none

def upTo? : Nat → List Char → Option (List Char)
  | 0, _ => some []
  | _ + 1, [] => none
  | n + 1, c :: s => if c.utf8Size ≤ n + 1 then (upTo? (n + 1 - c.utf8Size) s).map (c :: ·) else none

def slice? (start stop : Nat) (text : List Char) : Option (List Char) :=
  if start ≤ stop then (from? start text).bind (upTo? (stop - start)) else none

end Text

/-! ## Scans -/

structure Scan where
  pos : Nat := 0
  /-- All places before. -/
  trail : List Nat := []
  /-- Where each call that came back and each turn of a loop that goes on began, and where it ended. -/
  strides : List (Nat × Nat) := []
  tree : Option Tree := none
  /-- The arguments that wait for labels, with the number of their derivation. -/
  pending : Array (Nat × List Term) := #[]

namespace Scan

def advanced (s : Scan) (n : Nat) : Scan := { s with pos := s.pos + n, trail := s.pos :: s.trail }

def noted (s : Scan) (start : Nat) : Scan := { s with strides := (start, s.pos) :: s.strides }

end Scan

inductive Stop where
  | fault (f : TreeFault)
  | lapse

abbrev Scanner (α : Type) := ExceptT Stop (StateT Scan Option) α

namespace Scanner

variable {α : Type}

def outcome (p : Scanner α) (s : Scan) : Option (Except Stop α × Scan) := p.run.run s

def fault (f : TreeFault) : Scanner α := throw (.fault f)

def lapse : Scanner α := throw .lapse

def ofOption : Option α → Scanner α
  | some a => return a
  | none => lapse

def here : Scanner Nat := return (← get).pos

def advance (n : Nat) : Scanner Unit := modify (·.advanced n)

def note (start : Nat) : Scanner Unit := modify (·.noted start)

/-! ## Numbers -/

def integerOf : List Char → Except NumberFault Int64
  | '-' :: digits => TreeReader.integerOf true digits
  | digits => TreeReader.integerOf false digits

def ofNumber (start : Nat) : Except NumberFault Int64 → Scanner Int64
  | .ok i => return i
  | .error cause => fault (.expectedNumber start cause)

def coordinate (i : Int64) : Scanner UInt32 :=
  match TreeReader.coordinate i with
  | .ok n => return n
  | .error f => fault f

/-! ## Growing -/

inductive Attach where
  | root
  | child (owner : Nat)
  | derived (owner : Nat) (proxied : Bool) (name : String) (args : List Term)

def grown : Scanner Tree := do ofOption (← get).tree

def grow (t : Tree) : Scanner Unit := modify fun s => { s with tree := some t }

def touch (t : Tree) (n : Nat) (f : TreeNode → TreeNode) : Scanner Tree :=
  if n < t.size then return t.update n f else lapse

def await (t : Tree) (args : List Term) : Scanner Unit :=
  modify fun s => { s with tree := some t, pending := s.pending.push (t.derived.size - 1, args) }

def attach (head : TreeHead) : Attach → Scanner Nat
  | .root => do
    match (← get).tree with
    | some _ => lapse
    | none =>
      grow (.ofRoot head)
      return 0
  | .child owner => do
    let t ← grown
    grow (← touch (t.push head owner) owner fun n => { n with children := n.children.push t.size })
    return t.size
  | .derived owner false name args => do
    let t ← grown
    await (t.addDerived owner name [] head) args
    return t.size
  | .derived owner true name args => do
    let t ← grown
    let t' := (t.push Tree.proxy owner).addDerived owner name [] head
    await (← touch t' (t.size + 1) fun n => { n with parent := some t.size }) args
    return t.size + 1

def mark (n : Nat) (t : Tree) : String → Scanner Tree
  | "external" => touch t n fun node => { node with external := true }
  | "hidden" => touch t n fun node => { node with visible := some false }
  | "visible" => touch t n fun node => { node with visible := some true }
  | flag => fault (.unknownFlag flag)

def entitle (n : Nat) (t : Tree) : Option String → Scanner Tree
  | some label => touch t n fun node => { node with label := some label }
  | none => return t

def decorate (n : Nat) (label : Option String) (flags : List String) : Scanner Unit := do
  let t ← entitle n (← grown) label
  grow (← flags.foldlM (mark n) t)

def ofLabels : Except String α → Scanner α
  | .ok a => return a
  | .error label => fault (.unknownLabel label)

def settle : List (Nat × List Term) → Tree → Scanner Tree
  | [], t => return t
  | (k, args) :: pending, t => do
    let values ← ofLabels (Term.values t args)
    if k < t.derived.size then
      settle pending { t with derived := t.derived.modify k fun d => { d with args := values } }
    else lapse

end Scanner

/-! ## Looking at the text -/

abbrev Input := List Char

namespace Input

open Scanner

def rest (text : Input) : Scanner (List Char) := do ofOption (Text.from? (← here) text)

def since (text : Input) (start : Nat) : Scanner (List Char) := do ofOption (Text.slice? start (← here) text)

def peek (text : Input) : Scanner (Option Char) := return (← text.rest).head?

/-- Passes over characters that satisfy `p`, each of which is taken to have `width` bytes. -/
def passWhile (text : Input) (p : Char → Bool) (width : Char → Nat) : Scanner Unit := do
  let start ← here
  match ← text.peek with
  | some x =>
    if p x then do
      advance (width x)
      note start
      text |>.passWhile p width
    else return
  | none => return
partial_fixpoint

def skipBlanks (text : Input) : Scanner Unit :=
  text.passWhile (fun x => CharClass.blank.has x || x == ',') Char.utf8Size

def eat (text : Input) (x : Char) : Scanner Bool := do
  if (← text.peek) = some x then do
    advance x.utf8Size
    return true
  else return false

def expect (text : Input) (x : Char) : Scanner Unit := do
  text.skipBlanks
  if ← text.eat x then return
  else fault (.expectedChar x (← here) (← text.rest))

/-! ## Words and numbers -/

def word (text : Input) : Scanner String := do
  let start ← here
  text.passWhile TreeReader.isWordChar Char.utf8Size
  if start = (← here) then fault (.expectedName start (← text.rest))
  else return String.ofList (← text.since start)

def sign (text : Input) : Scanner Unit := do
  if (← text.peek) = some '-' then advance 1 else return

def number (text : Input) : Scanner Int64 := do
  let start ← here
  text.sign
  text.passWhile Char.isDigit fun _ => 1
  ofNumber start (integerOf (← text.since start))

/-! ## Heads -/

def position (text : Input) : Scanner (UInt32 × UInt32) := do
  let line ← text.number
  if ← text.eat ':' then do
    let column ← text.number
    return (← coordinate line, ← coordinate column)
  else fault (.expectedColon (← here))

def span (text : Input) : Scanner Span := do
  let (startLine, startColumn) ← text.position
  if ← text.eat '-' then do
    let (stopLine, stopColumn) ← text.position
    return .ofLineColumns startLine startColumn stopLine stopColumn
  else fault (.expectedDash (← here))

def marks (text : Input) (m : TreeReader.Marks) : Scanner TreeReader.Marks := do
  let start ← here
  if ← text.eat '#' then do
    let w ← text.word
    note start
    text |>.marks { m with label := some w }
  else if ← text.eat '@' then do
    let s ← text.span
    note start
    text |>.marks { m with span := some s }
  else if ← text.eat '!' then do
    let w ← text.word
    note start
    text |>.marks { m with flags := m.flags ++ [w] }
  else return m
partial_fixpoint

/-! ## Arguments -/

def termOf (text : Input) : String → Scanner Term
  | "true" => return .bool true
  | "false" => return .bool false
  | "null" => return .null
  | "any" => return .any
  | "out" => do
    if ← text.eat ':' then return .stream (← text.word)
    else fault (.expectedStream (← here))
  | w => fault (.unknownArgument w)

def wordTerm (text : Input) : Scanner Term := do text.termOf (← text.word)

def quoted (text : Input) : Scanner Term := do
  let start ← here
  text.passWhile (· != '"') Char.utf8Size
  let s ← text.since start
  if ← text.eat '"' then return .string (String.ofList s)
  else fault (.unterminated start)

mutual

def term (text : Input) : Scanner Term := do
  let start ← here
  text.skipBlanks
  let t ← text |>.bareTerm
  note start
  return t
partial_fixpoint

def bareTerm (text : Input) : Scanner Term := do
  match ← text.peek with
  | none => fault .endOfArguments
  | some x =>
    if x = '"' then do
      advance 1
      text.quoted
    else if x = '$' then do
      advance 1
      return .ref (← text.word)
    else if x = '[' then do
      advance 1
      return .collection (← text |>.terms ']')
    else if x.isDigit || x == '-' then return .integer (← text.number)
    else text.wordTerm
partial_fixpoint

def terms (text : Input) (close : Char) : Scanner (List Term) := do
  let start ← here
  text.skipBlanks
  if ← text.eat close then return []
  else do
    let t ← text |>.term
    note start
    return t :: (← text |>.terms close)
partial_fixpoint

end

def call (text : Input) : Scanner (String × List Term) := do
  let start ← here
  let name ← text.word
  text.expect '('
  let args ← text.terms ')'
  text.expect '='
  note start
  return (name, args)

/-! ## Nodes -/

def head (text : Input) (a : Attach) : Scanner (Nat × String) := do
  text.skipBlanks
  let type ← text.word
  let m ← text.marks {}
  let n ← attach { type, span := m.span } a
  decorate n m.label m.flags
  return (n, type)

mutual

def node (text : Input) (a : Attach) : Scanner Unit := do
  let start ← here
  let (n, type) ← text.head a
  text.skipBlanks
  if ← text.eat '{' then do
    text |>.body n type
    note start
  else note start
partial_fixpoint

def body (text : Input) (n : Nat) (type : String) : Scanner Unit := do
  let start ← here
  text.skipBlanks
  match ← text.peek with
  | none => fault (.unclosed type)
  | some x =>
    if x = '}' then advance 1
    else if x == '.' || x == '~' then do
      advance 1
      let (name, args) ← text.call
      text |>.node (.derived n (x == '~') name args)
      note start
      text |>.body n type
    else do
      text |>.node (.child n)
      note start
      text |>.body n type
partial_fixpoint

end

def finish (text : Input) : Scanner Tree := do
  text.skipBlanks
  if (← here) < Text.byteLength text then fault (.trailing (← here) (← text.rest))
  else do settle (← get).pending.toList (← grown)

def tree (text : Input) : Scanner Tree := do
  text.node .root
  text.finish

end Input

def Scan.ofText (text : String) : Option (Except Stop Tree × Scan) := (Input.tree text.toList).outcome {}

end Waymark
