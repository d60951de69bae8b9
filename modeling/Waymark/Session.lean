import Waymark.Host.Table
import Waymark.Tree.Reader
import Waymark.Wire.Listing

/-!
# Sessions

A session works through commands on the snapshot of one tree after another. It keeps locators under
names, across trees. A command that fails leaves behind what was learned until then, and the session
goes on.
-/

namespace Waymark

/-! ## Trees -/

structure SessionTree where
  host : Host Nat
  root : Nat
  size : Nat
  /-- Which questions to the host are reported. -/
  watched : Query Nat → Bool

namespace SessionTree

def ofTree (t : Tree) (root : Nat) : SessionTree := ⟨t.host, root, t.size, fun _ => false⟩

def ofTable (t : HostTable) (root : Nat) : SessionTree := ⟨t.host, root, t.nodes.size, fun _ => true⟩

/-- A bare host has no hooks that could be watched. -/
def ofBareTable (t : HostTable) (root : Nat) : SessionTree :=
  ⟨t.bareHost, root, t.nodes.size, fun
    | .childCount _ | .child .. | .parent _ => true
    | _ => false⟩

end SessionTree

/-! ## Commands and replies -/

inductive LocatorSource where
  | saved (name : String)
  | given (v : Json)

inductive TargetSource where
  | given (v : Json)
  | like (n depth : Nat)

inductive Command where
  | new (tree : Nat) (config : Option Json)
  | reset (tree : Nat)
  | configure (config : Json)
  | info (types : List String)
  | node (n : Nat)
  | find (n : Nat)
  | childCount (n : Nat)
  | child (n index : Nat)
  | children (n : Nat)
  | parent (n : Nat)
  | describe (n : Nat)
  | key (n : Nat)
  | rawSpan (n : Nat)
  | span (n : Nat) (strategy : Option Json)
  | locate (n : Nat) (save : Option String)
  | resolve (l : LocatorSource) (save : Option String)
  | resolveSteps (steps : Json)
  | resolveOrReport (l : LocatorSource)
  | bestMatch (start : Nat) (ignore : Option Nat) (strict : Bool) (target : TargetSource)
  | uniqueMatch (start : Nat) (ignore : Option Nat) (target : TargetSource)
  | isAmbiguous (start : Nat) (ignore : Option Nat) (fingerprint : Json)
  | nodesAt (p : Position)
  | subtree (l : LocatorSource) (levels : Nat)
  /-- Locates every node and saves each locator under its number. -/
  | locateAll (names : String)
  /-- Resolves the locators saved under the numbers below `count`. -/
  | resolveAll (names : String) (count : Nat)

structure SnapshotInfo where
  config : Config
  types : Nat
  searchRoot : Option String
  known : List Bool
  size : Nat

structure NodeInfo where
  type : String
  label : Option String
  external : Bool
  visible : Bool
  list : Bool
  opt : Bool

inductive Renewal where
  | unsaved
  | failed (f : Fault)
  | lost
  /-- The node, and its locator if that is another one now. -/
  | found (n : Nat) (changed : Option Locator)

inductive Reply where
  | done
  | number (n : Nat)
  | numberIfAny (n : Option Nat)
  | numbers (ns : List Nat)
  | flag (b : Bool)
  | info (i : SnapshotInfo)
  | nodeInfo (i : NodeInfo)
  /-- The type or the label that a node is known by. -/
  | keyType (name : String)
  | keyLabel (label : String)
  | span (s : Span)
  | located (l : Option Locator)
  | resolved (r : Option (Resolved Nat))
  | report (r : Except Diagnostic (Resolved Nat))
  | search (m : Match (Node Nat))
  | nodes (l : NodeListing Nat)
  | tree (l : TreeListing)
  | locatedAll (ls : List (Except Fault (Option Locator)))
  | resolvedAll (rs : List Renewal)

inductive CommandFault where
  | fault (f : Fault)
  | badJson
  | neverSaved (name : String)
  | noSuchTree

structure Session where
  trees : Array SessionTree
  current : SessionTree
  snapshot : Snapshot Nat
  saved : List (String × Locator) := []

namespace Session

def ofTree (trees : Array SessionTree) (first : SessionTree) (config : Config) : Session :=
  { trees, current := first, snapshot := .ofRoot config first.host first.root }

abbrev Act := ExceptT CommandFault (StateM Session)

namespace Act

def attempt {α : Type} (op : Op Nat α) : Act (Except Fault α) := do
  let s ← get
  let (r, snapshot) := op.exec s.current.host s.snapshot
  set { s with snapshot }
  return r

def exec {α : Type} (op : Op Nat α) : Act α := do
  match ← attempt op with
  | .ok a => return a
  | .error f => throw (.fault f)

def decode {α : Type} (d : Wire.Decoder α) (v : Json) : Act α :=
  match d Wire.maxNesting v with
  | some a => pure a
  | none => throw .badJson

def locator : LocatorSource → Act Locator
  | .given v => decode Wire.locator v
  | .saved name => do
    match (← get).saved.lookup name with
    | some l => return l
    | none => throw (.neverSaved name)

def save (name : String) (l : Locator) : Act Unit :=
  modify fun s => { s with saved := (name, l) :: s.saved }

def saveAs (name : Option String) (l : Option Locator) : Act Unit :=
  match name, l with
  | some name, some l => save name l
  | _, _ => pure ()

def tree (i : Nat) : Act SessionTree := do
  match (← get).trees[i]? with
  | some t => return t
  | none => throw .noSuchTree

def internAll (n : Nat) (ignore : Option Nat) : Op Nat (Node Nat × Option (Node Nat)) := do
  let n ← Op.intern n
  match ignore with
  | some m => return (n, some (← Op.intern m))
  | none => return (n, none)

def target : TargetSource → Act Target
  | .given v => do exec (Op.targetOf (← decode Wire.fingerprint v))
  | .like n depth => exec do Op.targetAt (← Op.intern n) depth

def snapshotInfo (types : List String) : Act SnapshotInfo := do
  let s := (← get).snapshot
  return {
    config := s.config
    types := s.types.size
    searchRoot := s.searchRoot.bind s.types.name?
    known := types.map fun t => (s.types.find? t).isSome
    size := s.size }

def nodeInfo (n : Nat) : Op Nat NodeInfo := do
  let n ← Op.intern n
  let label ← Op.label n
  let external ← Op.isExternal n
  let visible ← Op.isVisible n
  return {
    type := ← Op.typeName n
    label, external, visible
    list := ← Op.isList n
    opt := ← Op.isOpt n }

def locateAll (names : String) : List Nat → Act (List (Except Fault (Option Locator)))
  | [] => return []
  | n :: ns => do
    let r ← attempt do Op.locate (← Op.intern n)
    if let .ok (some l) := r then save (names ++ toString n) l
    return r :: (← locateAll names ns)

def renewal (name : String) : Act Renewal := do
  match (← get).saved.lookup name with
  | none => return .unsaved
  | some l =>
    match ← attempt (Op.resolve l) with
    | .error f => return .failed f
    | .ok none => return .lost
    | .ok (some r) =>
      return .found r.node.host (if r.locator = l then none else some r.locator)

def perform : Command → Act Reply
  | .new i config => do
    let t ← tree i
    let config ← match config with
      | some v => decode Wire.config v
      | none => pure {}
    modify fun s => { s with current := t, snapshot := .ofRoot config t.host t.root }
    return .number t.root
  | .reset i => do
    let t ← tree i
    modify fun s => { s with current := t, snapshot := s.snapshot.reset t.host t.root }
    return .number t.root
  | .configure v => do
    let config ← decode Wire.config v
    modify fun s => { s with snapshot := { s.snapshot with config } }
    return .done
  | .info types => return .info (← snapshotInfo types)
  | .node n => exec do return .number (← Op.intern n).id
  | .find n => return .numberIfAny (((← get).snapshot.find? n).map (·.id))
  | .childCount n => exec do return .number (← Op.childCount (← Op.intern n))
  | .child n i => exec do return .number (← Op.child (← Op.intern n) i).host
  | .children n => exec do return .numbers ((← Op.children (← Op.intern n)).map (·.host))
  | .parent n => exec do return .numberIfAny ((← Op.parent (← Op.intern n)).map (·.host))
  | .describe n => return .nodeInfo (← exec (nodeInfo n))
  | .key n => exec do
    match ← Op.key (← Op.intern n) with
    | .type tag => return .keyType (((← get).types.name? tag).getD "")
    | .label l => return .keyLabel l
  | .rawSpan n => exec do return .span (← Op.rawSpan (← Op.intern n))
  | .span n none => exec do return .span (← Op.span (← Op.intern n))
  | .span n (some v) => do
    let n ← exec (Op.intern n)
    let strategy ← decode (Wire.setting Recovery) v
    return .span (← exec (Op.spanWith strategy n))
  | .locate n name => do
    let l ← exec do Op.locate (← Op.intern n)
    saveAs name l
    return .located l
  | .resolve source name => do
    let r ← exec (Op.resolve (← locator source))
    saveAs name (r.map (·.locator))
    return .resolved r
  | .resolveSteps v => do
    let steps ← decode Wire.steps v
    return .numberIfAny ((← exec (Op.resolveSteps steps)).map (·.host))
  | .resolveOrReport source => do
    return .report (← exec (Op.resolveOrReport (← locator source)))
  | .bestMatch n ignore strict source => do
    let (n, ignore) ← exec (internAll n ignore)
    let t ← target source
    return .search (← exec (Op.bestMatch n t strict ignore))
  | .uniqueMatch n ignore source => do
    let (n, ignore) ← exec (internAll n ignore)
    let t ← target source
    return .numberIfAny ((← exec (Op.uniqueMatch n t ignore)).map (·.host))
  | .isAmbiguous n ignore v => do
    let (n, ignore) ← exec (internAll n ignore)
    let f ← decode Wire.fingerprint v
    return .flag (← exec (Op.isAmbiguous n f ignore))
  | .nodesAt p => return .nodes (← exec (Op.nodesAt p))
  | .subtree source levels => do
    return .tree (← exec (Op.subtree (← locator source) levels))
  | .locateAll names => do
    return .locatedAll (← locateAll names (List.range (← get).current.size))
  | .resolveAll names count => do
    return .resolvedAll (← (List.range count).mapM fun i => renewal (names ++ toString i))

end Act

/-- What a command brought: the reply, how many nodes the snapshot has touched, and what was said
and asked meanwhile. -/
structure Result where
  reply : Except CommandFault Reply
  size : Nat
  events : List Event
  queries : List (Query Nat)

/-- The library's own events up to a level, without those of the tree's owner. -/
def Result.log (r : Result) (limit : Level) : List Event :=
  r.events.filter fun e => e.source != .tree && e.level.passes limit

def step (c : Command) (s : Session) : Result × Session :=
  let s := { s with snapshot := { s.snapshot with journal := {} } }
  let (reply, s) := ExceptT.run (Act.perform c) s
  let journal := s.snapshot.journal
  ({ reply, size := s.snapshot.size, events := journal.events.toList,
     queries := journal.queries.toList.filter s.current.watched }, s)

def run : List Command → Session → List Result
  | [], _ => []
  | c :: cs, s =>
    let (r, s) := s.step c
    r :: s.run cs

end Session

end Waymark
