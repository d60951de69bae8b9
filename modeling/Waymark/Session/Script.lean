import Waymark.Session
import Waymark.Tree.Edit

/-!
# Scripts

A script is a whole session as data: the trees it works on, the settings it starts with, and its
commands. A tree in text form that cannot be read ends the script before its first command, and so do
wrong settings. The trees are looked at first.
-/

namespace Waymark

inductive TreeSource where
  | text (text : String) (edits : List TreeEdit)
  | table (t : HostTable)
  | bareTable (t : HostTable)

structure ScriptTree where
  source : TreeSource
  root : Nat := 0

structure Script where
  first : ScriptTree
  others : List ScriptTree := []
  config : Option Json := none
  commands : List Command

inductive ScriptFault where
  | tree (f : TreeFault)
  | badJson

namespace ScriptTree

def build (t : ScriptTree) : Except TreeFault (SessionTree × List Event) :=
  match t.source with
  | .text text edits => do
    let tree ← Tree.ofText text
    return (.ofTree (tree.editAll edits) t.root, [.treeRead tree.size])
  | .table table => return (.ofTable table t.root, [])
  | .bareTable table => return (.ofBareTable table t.root, [])

/-- Builds the trees up to the first that is wrong. What was noted until then stays. -/
def buildAll : List ScriptTree → List Event × Except TreeFault (List SessionTree)
  | [] => ([], .ok [])
  | t :: ts =>
    match t.build with
    | .error f => ([], .error f)
    | .ok (tree, events) =>
      let (later, rest) := buildAll ts
      (events ++ later, rest.map (tree :: ·))

end ScriptTree

namespace Script

def settings (s : Script) : Except ScriptFault Config :=
  match s.config with
  | none => .ok {}
  | some v =>
    match Wire.config Wire.maxNesting v with
    | some config => .ok config
    | none => .error .badJson

def start (s : Script) : List Event × Except ScriptFault Session :=
  match s.first.build with
  | .error f => ([], .error (.tree f))
  | .ok (tree, events) =>
    let (later, others) := ScriptTree.buildAll s.others
    (events ++ later, do
      let others ← others.mapError ScriptFault.tree
      return .ofTree (tree :: others).toArray tree (← s.settings))

def run (s : Script) : List Event × Except ScriptFault (List Session.Result) :=
  match s.start with
  | (events, .error f) => (events, .error f)
  | (events, .ok session) =>
    let results := session.run s.commands
    (events ++ results.flatMap (·.events), .ok results)

end Script

end Waymark
