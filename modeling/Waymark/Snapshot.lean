import Waymark.Host
import Waymark.Log.Event
import Waymark.TypeRegistry

/-!
# Snapshots

A snapshot is what the library knows about one state of a host's tree. Every node that an operation
touches gets a slot, and the slot keeps the answers about it, so that no question is put twice. What
was learned stays, also when the operation that learned it fails. The number of a slot is handed out as a
word of 32 bits, so a snapshot is meant to have no more than `2 ^ 32` slots.
-/

namespace Waymark

/-- A node of a snapshot: the number of its slot, and the host's handle. -/
structure Node (ν : Type) where
  id : Nat
  host : ν
  deriving DecidableEq

inductive ParentLink (ν : Type) where
  | unresolved
  | top
  | node (p : Node ν)

inductive NodeKey where
  | type (tag : TypeTag)
  | label (label : String)
  deriving DecidableEq, Repr

structure Slot (ν : Type) where
  host : ν
  /-- One entry for each child once their number is known, filled one at a time. -/
  children : Option (Array (Option (Node ν))) := none
  parent : ParentLink ν := .unresolved
  rawSpan : Option Span := none
  recovered : Option (Recovery × Span) := none
  tag : Option TypeTag := none
  key : Option NodeKey := none

structure Journal (ν : Type) where
  events : Array Event := #[]
  queries : Array (Query ν) := #[]

structure Snapshot (ν : Type) where
  config : Config
  root : Node ν
  slots : Array (Slot ν)
  /-- The numbers of the slots by their handles. -/
  interned : List (ν × Nat)
  types : TypeRegistry
  /-- Which hooks the host has for which types, as far as it was asked. -/
  hooks : List ((TypeTag × Hook) × Bool)
  searchRoot : Option TypeTag
  journal : Journal ν

inductive Fault where
  /-- A walk came back to a node it had seen. -/
  | loop (type : String)
  | host (message : String)
  | childOutOfRange (index count : Nat)
  /-- More steps than there are nodes. Only arguments that name each other in a circle lead there. -/
  | endless
  deriving DecidableEq, Repr

def Fault.message : Fault → String
  | .loop type => "AST loop detected at a `" ++ type ++ "` node"
  | .host message => "invalid AST node: " ++ message
  | .childOutOfRange index count =>
    "child index " ++ toString index ++ " is out of range for a node with " ++ toString count ++
      " children"
  | .endless => "the arguments of derived nodes name each other without end"

/-- An operation on a snapshot: it may ask the host, learn, note events, and fail. -/
abbrev Op (ν : Type) := ReaderT (Host ν) (ExceptT Fault (StateM (Snapshot ν)))

namespace Snapshot

variable {ν : Type}

def ofRoot (config : Config) (host : Host ν) (root : ν) : Snapshot ν :=
  let (searchRoot, types) : Option TypeTag × TypeRegistry :=
    match host.searchRoot with
    | some name => let (tag, types) := TypeRegistry.intern {} name; (some tag, types)
    | none => (none, {})
  { config, root := ⟨0, root⟩, slots := #[{ host := root }], interned := [(root, 0)], types, hooks := [],
    searchRoot, journal := { queries := #[.searchRoot] } }

def reset (s : Snapshot ν) (host : Host ν) (root : ν) : Snapshot ν :=
  { ofRoot s.config host root with
    journal := { s.journal with queries := s.journal.queries.push .searchRoot } }

def size (s : Snapshot ν) : Nat := s.slots.size

def find? [DecidableEq ν] (s : Snapshot ν) (v : ν) : Option (Node ν) :=
  (s.interned.lookup v).map fun i => ⟨i, v⟩

def extend (s : Snapshot ν) (v : ν) : Snapshot ν :=
  { s with slots := s.slots.push { host := v }, interned := (v, s.size) :: s.interned }

def intern [DecidableEq ν] (s : Snapshot ν) (v : ν) : Node ν × Snapshot ν :=
  match s.find? v with
  | some n => (n, s)
  | none => (⟨s.size, v⟩, s.extend v)

def slot (s : Snapshot ν) (n : Node ν) : Slot ν := s.slots[n.id]?.getD { host := n.host }

def put (s : Snapshot ν) (n : Node ν) (f : Slot ν → Slot ν) : Snapshot ν :=
  { s with slots := s.slots.modify n.id f }

/-- Whether `p` is `c` or has it among its ancestors, as far as parents are known. -/
def leadsTo [DecidableEq ν] (s : Snapshot ν) (c : Node ν) : Nat → Node ν → Bool
  | 0, _ => true
  | n + 1, p =>
    p = c || match (s.slot p).parent with
      | .node q => s.leadsTo c n q
      | .top | .unresolved => false

end Snapshot

/-! ## Operations -/

namespace Op

variable {ν : Type}

def exec {α : Type} (op : Op ν α) (host : Host ν) (s : Snapshot ν) :
    Except Fault α × Snapshot ν := (op host).run.run s

def note (e : Event) : Op ν Unit :=
  modify fun s => { s with journal := { s.journal with events := s.journal.events.push e } }

def asked (q : Query ν) : Op ν Unit :=
  modify fun s => { s with journal := { s.journal with queries := s.journal.queries.push q } }

def answer {α : Type} : HostAnswer α → Op ν α
  | .ok a => pure a
  | .error message => throw (.host message)

def slot (n : Node ν) : Op ν (Slot ν) := return (← get).slot n

def update (n : Node ν) (f : Slot ν → Slot ν) : Op ν Unit := modify fun s => s.put n f

/-- More than any walk through different nodes can visit. -/
def reach : Op ν Nat := return (← get).size + (← read).size + 1

def typeName (n : Node ν) : Op ν String := return (← read).typeName n.host

def loopAt {α : Type} (n : Node ν) : Op ν α := do
  let type ← typeName n
  note (.loop type)
  throw (.loop type)

/-- A walk down that visits more nodes than there are slots has met one twice. -/
def boundWalk (visited : Nat) (n : Node ν) : Op ν Unit := do
  if (← get).size < visited then loopAt n

variable [DecidableEq ν]

def intern (v : ν) : Op ν (Node ν) := modifyGet fun s => s.intern v

def childCount (n : Node ν) : Op ν Nat := do
  match (← slot n).children with
  | some cs => return cs.size
  | none =>
    asked (.childCount n.host)
    let count ← answer ((← read).childCount n.host)
    update n fun s => { s with children := some (Array.replicate count none) }
    return count

def child (n : Node ν) (index : Nat) : Op ν (Node ν) := do
  let count ← childCount n
  if count ≤ index then throw (.childOutOfRange index count)
  match (← slot n).children.bind fun cs => cs[index]?.join with
  | some c => return c
  | none =>
    asked (.child n.host index)
    let c ← intern (← answer ((← read).child n.host index))
    update n fun s => { s with children := s.children.map fun cs => cs.setIfInBounds index (some c) }
    return c

def children (n : Node ν) : Op ν (List (Node ν)) := do
  (List.range (← childCount n)).mapM fun i => child n i

/-- Makes `p` the parent of `n`. It is refused if it would close a circle. -/
def link (n p : Node ν) : Op ν (Option (Node ν)) := do
  let s ← get
  if s.leadsTo n (s.size + 1) p then loopAt n
  update n fun s => { s with parent := .node p }
  return some p

def parent (n : Node ν) : Op ν (Option (Node ν)) := do
  match (← slot n).parent with
  | .top => return none
  | .node p => return some p
  | .unresolved =>
    asked (.parent n.host)
    match ← answer ((← read).parent n.host) with
    | none =>
      update n fun s => { s with parent := .top }
      return none
    | some v => link n (← intern v)

/-! ### What identifies a node -/

def internType (name : String) : Op ν TypeTag :=
  modifyGet fun s => let (tag, types) := s.types.intern name; (tag, { s with types })

def typeTag (n : Node ν) : Op ν TypeTag := do
  match (← slot n).tag with
  | some tag => return tag
  | none =>
    let tag ← internType (← typeName n)
    update n fun s => { s with tag := some tag }
    return tag

/-- Whether the host has the hook for nodes of the type. It is asked once for each type. -/
def hasHook (tag : TypeTag) (hook : Hook) : Op ν Bool := do
  let s ← get
  match s.hooks.lookup (tag, hook) with
  | some b => return b
  | none =>
    let type := (s.types.name? tag).getD ""
    asked (.supports type hook)
    let b := (← read).supports type hook
    modify fun s => { s with hooks := ((tag, hook), b) :: s.hooks }
    return b

def label (n : Node ν) : Op ν (Option String) := do
  if ← hasHook (← typeTag n) .label then
    asked (.label n.host)
    return (← read).label n.host
  else return none

def isExternal (n : Node ν) : Op ν Bool := do
  if ← hasHook (← typeTag n) .external then
    asked (.external n.host)
    return (← read).external n.host
  else return false

def isList (n : Node ν) : Op ν Bool := return (← typeName n) == "List"

def isOpt (n : Node ν) : Op ν Bool := return (← typeName n) == "Opt"

/-- Whether the node belongs in listings. Wrappers do not, unless the host says so. -/
def isVisible (n : Node ν) : Op ν Bool := do
  if ← hasHook (← typeTag n) .visibility then
    asked (.visible n.host)
    if let some b := (← read).visible n.host then return b
  return !((← isList n) || (← isOpt n))

def key (n : Node ν) : Op ν NodeKey := do
  match (← slot n).key with
  | some k => return k
  | none =>
    let tag ← typeTag n
    let k ← match (← get).config.identify with
      | .label => do
        match ← label n with
        | some l => pure (.label l)
        | none => pure (.type tag)
      | .type => pure (.type tag)
    update n fun s => { s with key := some k }
    return k

/-! ### Spans -/

def hostSpan (n : Node ν) : Op ν (Option Span) := do
  match (← get).config.positions with
  | .packed =>
    asked (.packedSpan n.host)
    return (← read).packedSpan n.host
  | .lineColumn =>
    asked (.lineColumns n.host)
    return ((← read).lineColumns n.host).map LineColumns.toSpan

def rawSpan (n : Node ν) : Op ν Span := do
  match (← slot n).rawSpan with
  | some span => return span
  | none =>
    let span := (← hostSpan n).getD .none
    note (.rawSpan (← typeName n) span)
    update n fun s => { s with rawSpan := some span }
    return span

end Op

end Waymark
