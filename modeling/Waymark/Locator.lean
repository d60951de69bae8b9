import Waymark.Span

/-!
# Locators

A locator is a path from the root of a tree to one of its nodes that can be stored and followed
later, also in a tree that was built anew. A step names a child by its index, the result of a call
on the node at hand, or the node of a given kind that lies nearest to a given span. Calls take
arguments, and a node among them is again given by a locator.
-/

namespace Waymark

/-- What a node looks like from outside: its type or label, its span, and how many hops below the
start of a search it is expected. -/
structure Fingerprint where
  type : String
  label : Option String := none
  span : Span
  depth : UInt32
  external : Bool := false
  deriving DecidableEq, Repr

mutual

inductive Step where
  /-- The node below the current one that fits the fingerprint best. -/
  | nearest (f : Fingerprint)
  | child (index : UInt64)
  | derived (call : Call)

structure Call where
  name : String
  args : List Arg

inductive Arg where
  | string (s : String)
  | integer (i : Int64)
  | bool (b : Bool)
  | collection (items : List Arg)
  /-- An output stream, of which only the name is kept. -/
  | stream (name : String)
  | node (l : Option Locator)
  /-- A value that cannot be described. -/
  | any

structure Locator where
  result : Fingerprint
  steps : List Step

end

/-! ## Equality -/

mutual

def Step.same : Step → Step → Bool
  | .nearest f, .nearest g => f == g
  | .child i, .child j => i == j
  | .derived c, .derived d => c.same d
  | _, _ => false

def Call.same : Call → Call → Bool
  | ⟨n, as⟩, ⟨m, bs⟩ => n == m && Arg.sameList as bs

def Arg.same : Arg → Arg → Bool
  | .string s, .string t => s == t
  | .integer i, .integer j => i == j
  | .bool a, .bool b => a == b
  | .collection as, .collection bs => Arg.sameList as bs
  | .stream s, .stream t => s == t
  | .node none, .node none => true
  | .node (some l), .node (some m) => l.same m
  | .any, .any => true
  | _, _ => false

def Arg.sameList : List Arg → List Arg → Bool
  | [], [] => true
  | a :: as, b :: bs => a.same b && Arg.sameList as bs
  | _, _ => false

def Locator.same : Locator → Locator → Bool
  | ⟨r, ss⟩, ⟨q, ts⟩ => r == q && Step.sameList ss ts

def Step.sameList : List Step → List Step → Bool
  | [], [] => true
  | s :: ss, t :: ts => s.same t && Step.sameList ss ts
  | _, _ => false

end

mutual

theorem Step.same_iff : ∀ s t : Step, s.same t = true ↔ s = t
  | .nearest f, t => by cases t <;> simp [Step.same]
  | .child i, t => by cases t <;> simp [Step.same]
  | .derived c, t => by cases t <;> simp [Step.same, Call.same_iff c]

theorem Call.same_iff : ∀ c d : Call, c.same d = true ↔ c = d
  | ⟨n, as⟩, ⟨m, bs⟩ => by simp [Call.same, Arg.sameList_iff as bs]

theorem Arg.same_iff : ∀ a b : Arg, a.same b = true ↔ a = b
  | .string s, b => by cases b <;> simp [Arg.same]
  | .integer i, b => by cases b <;> simp [Arg.same]
  | .bool a, b => by cases b <;> simp [Arg.same]
  | .collection as, b => by cases b <;> simp [Arg.same, Arg.sameList_iff as]
  | .stream s, b => by cases b <;> simp [Arg.same]
  | .node none, b => by
    cases b with
    | node l => cases l <;> simp [Arg.same]
    | _ => simp [Arg.same]
  | .node (some l), b => by
    cases b with
    | node m => cases m <;> simp [Arg.same, Locator.same_iff l]
    | _ => simp [Arg.same]
  | .any, b => by cases b <;> simp [Arg.same]

theorem Arg.sameList_iff : ∀ as bs : List Arg, Arg.sameList as bs = true ↔ as = bs
  | [], bs => by cases bs <;> simp [Arg.sameList]
  | a :: as, bs => by cases bs <;> simp [Arg.sameList, Arg.same_iff a, Arg.sameList_iff as]

theorem Locator.same_iff : ∀ l m : Locator, l.same m = true ↔ l = m
  | ⟨r, ss⟩, ⟨q, ts⟩ => by simp [Locator.same, Step.sameList_iff ss ts]

theorem Step.sameList_iff : ∀ ss ts : List Step, Step.sameList ss ts = true ↔ ss = ts
  | [], ts => by cases ts <;> simp [Step.sameList]
  | s :: ss, ts => by cases ts <;> simp [Step.sameList, Step.same_iff s, Step.sameList_iff ss]

end

instance : DecidableEq Step := fun s t => decidable_of_iff _ (Step.same_iff s t)

instance : DecidableEq Call := fun c d => decidable_of_iff _ (Call.same_iff c d)

instance : DecidableEq Arg := fun a b => decidable_of_iff _ (Arg.same_iff a b)

instance : DecidableEq Locator := fun l m => decidable_of_iff _ (Locator.same_iff l m)

/-! ## Text for readers -/

def Fingerprint.text (f : Fingerprint) : String :=
  let name := match f.label with
    | some label => f.type ++ "#" ++ label
    | none => f.type
  name ++ "@" ++ f.span.text ++ "^" ++ toString f.depth.toNat

def Step.text : Step → String
  | .nearest f => "tal " ++ f.text
  | .child i => "child " ++ toString i.toNat
  | .derived c => "nta " ++ c.name ++ "(" ++ toString c.args.length ++ " args)"

def Locator.text (l : Locator) : String :=
  l.result.text ++ " via [" ++ String.intercalate ", " (l.steps.map Step.text) ++ "]"

def Step.shape : Step → String
  | .nearest f => f.type ++ "^" ++ toString f.depth.toNat
  | .child i => "#" ++ toString i.toNat
  | .derived c => c.name ++ "()"

def Locator.shape (l : Locator) : List String := l.steps.map Step.shape

end Waymark
