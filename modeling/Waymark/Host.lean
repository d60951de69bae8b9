import Waymark.Span

/-!
# Hosts

A host is whoever owns the tree. The library sees its nodes as handles of some type with equality
and asks it questions about them. Some answers may fail, with the host's own words.

The handles in the answers are bounded in number, so that a walk can count its steps. A host that makes
up new handles without end is not lost by this. A request that ends has put finitely many questions, and it
goes the same way on the host that answers these as before and fails at all others, which is bounded. A
request that does not end has no answer, and there is nothing to say about it. The bound itself decides no
answer, only how many steps are enough: a search or a listing that has more of them does the same
(`Op.extends_searchFrom`, `Op.extends_nodesWithin`).
-/

namespace Waymark

/-- What a call on a node is given, over handles of type `ν`. -/
inductive Value (ν : Type) where
  | string (s : String)
  | integer (i : Int64)
  | bool (b : Bool)
  | collection (items : List (Value ν))
  | stream (name : String)
  | node (n : Option ν)
  | any

namespace Value

variable {ν : Type}

mutual

def same [DecidableEq ν] : Value ν → Value ν → Bool
  | .string s, .string t => s == t
  | .integer i, .integer j => i == j
  | .bool a, .bool b => a == b
  | .collection as, .collection bs => sameList as bs
  | .stream s, .stream t => s == t
  | .node m, .node n => m == n
  | .any, .any => true
  | _, _ => false

def sameList [DecidableEq ν] : List (Value ν) → List (Value ν) → Bool
  | [], [] => true
  | a :: as, b :: bs => a.same b && sameList as bs
  | _, _ => false

end

mutual

theorem same_iff [DecidableEq ν] : ∀ a b : Value ν, a.same b = true ↔ a = b
  | .string s, b => by cases b <;> simp [same]
  | .integer i, b => by cases b <;> simp [same]
  | .bool a, b => by cases b <;> simp [same]
  | .collection as, b => by cases b <;> simp [same, sameList_iff as]
  | .stream s, b => by cases b <;> simp [same]
  | .node n, b => by cases b <;> simp [same]
  | .any, b => by cases b <;> simp [same]

theorem sameList_iff [DecidableEq ν] :
    ∀ as bs : List (Value ν), sameList as bs = true ↔ as = bs
  | [], bs => by cases bs <;> simp [sameList]
  | a :: as, bs => by cases bs <;> simp [sameList, same_iff a, sameList_iff as]

end

mutual

def nodes : Value ν → List ν
  | .node n => n.toList
  | .collection items => nodesList items
  | _ => []

def nodesList : List (Value ν) → List ν
  | [] => []
  | v :: vs => v.nodes ++ nodesList vs

end

instance [DecidableEq ν] : DecidableEq (Value ν) := fun a b => decidable_of_iff _ (same_iff a b)

end Value

/-- The call that a node is the result of. -/
structure Origin (ν : Type) where
  name : String
  args : List (Value ν)
  deriving DecidableEq

/-- Questions that a host may decline for all nodes of a type. -/
inductive Hook where
  | label
  | visibility
  | external
  deriving DecidableEq, Repr

abbrev HostAnswer (α : Type) := Except String α

inductive Mentioned {ν : Type} (child : ν → Nat → HostAnswer ν) (parent : ν → HostAnswer (Option ν))
    (origin : ν → ν → HostAnswer (Option (Origin ν)))
    (invoke : ν → String → List (Value ν) → HostAnswer (Option ν)) : ν → Prop where
  | child {v : ν} {i : Nat} {c : ν} (h : child v i = .ok c) : Mentioned child parent origin invoke c
  | parent {v p : ν} (h : parent v = .ok (some p)) : Mentioned child parent origin invoke p
  | argument {p c : ν} {o : Origin ν} (h : origin p c = .ok (some o)) {m : ν}
      (hm : m ∈ Value.nodesList o.args) : Mentioned child parent origin invoke m
  | result {v : ν} {name : String} {args : List (Value ν)} {c : ν}
      (h : invoke v name args = .ok (some c)) : Mentioned child parent origin invoke c

/-- A tree as its owner answers for it. -/
structure Host (ν : Type) where
  /-- No more than this many different nodes occur in the answers. -/
  size : Nat
  childCount : ν → HostAnswer Nat
  child : ν → Nat → HostAnswer ν
  parent : ν → HostAnswer (Option ν)
  typeName : ν → String
  packedSpan : ν → Option Span := fun _ => none
  lineColumns : ν → Option LineColumns := fun _ => none
  label : ν → Option String := fun _ => none
  /-- Whether the node belongs in listings, where the host has a say. -/
  visible : ν → Option Bool := fun _ => none
  /-- Whether the node's position is in another text than the root's. -/
  external : ν → Bool := fun _ => false
  /-- The type of the nodes from which searches at the top start. -/
  searchRoot : Option String := none
  supports : String → Hook → Bool := fun _ _ => true
  /-- The call on the first node whose result the second one is. -/
  origin : ν → ν → HostAnswer (Option (Origin ν)) := fun _ _ => .ok none
  invoke : ν → String → List (Value ν) → HostAnswer (Option ν) := fun _ _ _ => .ok none
  /-- What the host itself notes when a call has no result, as text for the arguments. -/
  missed : Option (List (Value ν) → String) := none
  bounded : ∃ nodes : List ν, nodes.length ≤ size ∧
    ∀ v, Mentioned child parent origin invoke v → v ∈ nodes

/-- Counting what is collected. -/
theorem length_flatMap_le_foldl {α β : Type} {f : α → List β} {g : α → Nat}
    (h : ∀ a, (f a).length ≤ g a) :
    ∀ (as : List α) (k : Nat), k + (as.flatMap f).length ≤ as.foldl (fun n a => n + g a) k
  | [], k => by simp
  | a :: as, k => by
    have ih := length_flatMap_le_foldl h as (k + g a)
    have ha := h a
    simp only [List.flatMap_cons, List.length_append, List.foldl_cons]
    omega

inductive Query (ν : Type) where
  | childCount (n : ν)
  | child (n : ν) (index : Nat)
  | parent (n : ν)
  | packedSpan (n : ν)
  | lineColumns (n : ν)
  | label (n : ν)
  | visible (n : ν)
  | external (n : ν)
  | searchRoot
  | supports (type : String) (hook : Hook)
  | origin (parent child : ν)
  | invoke (n : ν) (name : String) (args : Nat)
  deriving DecidableEq

end Waymark
