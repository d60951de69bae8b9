import Mathlib
import Waymark.Config
import Waymark.Host

/-!
# What a host says

The answers of a host about one node as the settings and the hooks let them through, and how its
nodes hang together by these answers.
-/

namespace Waymark

open Relation

inductive Mark where
  | type (name : String)
  | label (label : String)
  deriving DecidableEq

/-- Where every step leads to a smaller number, there is no way around. -/
theorem not_circle_of_lt {α : Type} {r : α → α → Prop} (f : α → Nat) (h : ∀ a b, r a b → f b < f a) (a : α) :
    ¬ TransGen r a a := by
  have hlt : ∀ b, TransGen r a b → f b < f a := by
    intro b hb
    induction hb with
    | single hab => exact h a _ hab
    | tail _ hbc ih => exact Nat.lt_trans (h _ _ hbc) ih
  exact fun ha => Nat.lt_irrefl _ (hlt a ha)

/-- Where the ways on lead through finitely many nodes and never around, they all end. -/
theorem acc_of_not_circle {α : Type} {r : α → α → Prop} : ∀ (k : Nat) (nodes : List α) {a : α},
    nodes.length ≤ k → (∀ b, TransGen r a b → b ∈ nodes) → (∀ b, TransGen r a b → ¬ TransGen r b b) →
    Acc (fun b a => r a b) a
  | 0, nodes, a, hlen, hmem, _ => by
    refine ⟨a, fun b hab => ?_⟩
    rw [List.eq_nil_of_length_eq_zero (Nat.le_zero.1 hlen)] at hmem
    cases hmem b (.single hab)
  | k + 1, nodes, a, hlen, hmem, hno => by
    classical
    refine ⟨a, fun b hab => ?_⟩
    have hb := hmem b (.single hab)
    refine acc_of_not_circle k (nodes.erase b) ?_ (fun c hc => ?_) fun c hc => hno c (.head hab hc)
    · rw [List.length_erase_of_mem hb]
      omega
    · refine (List.mem_erase_of_ne ?_).2 (hmem c (.head hab hc))
      rintro rfl
      exact hno c (.single hab) hc

namespace Host

/-- With finitely many handles there are no more nodes than these. -/
theorem bounded_of_fintype {ν : Type} [Fintype ν] {child : ν → Nat → HostAnswer ν}
    {parent : ν → HostAnswer (Option ν)} {origin : ν → ν → HostAnswer (Option (Origin ν))}
    {invoke : ν → String → List (Value ν) → HostAnswer (Option ν)} :
    ∃ nodes : List ν, nodes.length ≤ Fintype.card ν ∧ ∀ v, Mentioned child parent origin invoke v → v ∈ nodes :=
  ⟨Finset.univ.toList, (Finset.length_toList _).le, fun v _ => Finset.mem_toList.2 (Finset.mem_univ v)⟩

variable {ν : Type} (host : Host ν)

/-! ## About one node -/

def reportedSpan (positions : Convention) (v : ν) : Option Span :=
  match positions with
  | .packed => host.packedSpan v
  | .lineColumn => (host.lineColumns v).map LineColumns.toSpan

def rawSpan (positions : Convention) (v : ν) : Span := (host.reportedSpan positions v).getD .none

def has (hook : Hook) (v : ν) : Bool := host.supports (host.typeName v) hook

def shownLabel (v : ν) : Option String := if host.has .label v then host.label v else none

def isExternal (v : ν) : Bool := host.has .external v && host.external v

def isVisible (v : ν) : Bool :=
  (if host.has .visibility v then host.visible v else none).getD
    !(host.typeName v == "List" || host.typeName v == "Opt")

def mark (identify : Identity) (v : ν) : Mark :=
  match identify, host.shownLabel v with
  | .label, some label => .label label
  | _, _ => .type (host.typeName v)

/-! ## Between nodes -/

def Lists (p : ν) (i : Nat) (c : ν) : Prop :=
  ∃ count, host.childCount p = .ok count ∧ i < count ∧ host.child p i = .ok c

def IsChild (p c : ν) : Prop := ∃ i, host.Lists p i c

def HasFirst (v c : ν) : Prop := host.Lists v 0 c

def HasParent (v p : ν) : Prop := host.parent v = .ok (some p)

/-- The way to `v` comes from `u`, by a call or, with no call, from `u` as a structural parent. -/
inductive Enters : ν → ν → Option (Origin ν) → Prop where
  | call {v p : ν} {o : Origin ν} (hp : host.HasParent v p) (ho : host.origin p v = .ok (some o)) :
    Enters v p (some o)
  /-- The parent has no children, and its own parent knows the call. -/
  | proxy {v p g : ν} {o : Origin ν} (hp : host.HasParent v p) (hn : host.origin p v = .ok none)
    (hc : host.childCount p = .ok 0) (hg : host.HasParent p g)
    (ho : host.origin g v = .ok (some o)) : Enters v g (some o)
  | child {v p : ν} (hp : host.HasParent v p) (hn : host.origin p v = .ok none)
    (hc : host.IsChild p v) : Enters v p none

def EntersFrom (v u : ν) : Prop := ∃ o, host.Enters v u o

/-- A call on the way to `v` has `m` among its arguments. -/
def Needs (v m : ν) : Prop :=
  ∃ u x o, ReflTransGen host.EntersFrom v u ∧ host.Enters u x (some o) ∧
    m ∈ Value.nodesList o.args

theorem Enters.parents {v u : ν} {o : Option (Origin ν)} (h : host.Enters v u o) :
    TransGen host.HasParent v u := by
  cases h with
  | call hp _ => exact .single hp
  | proxy hp _ _ hg _ => exact .tail (.single hp) hg
  | child hp _ _ => exact .single hp

/-! ## What can go wrong -/

def Mentions (v : ν) : Prop := Mentioned host.child host.parent host.origin host.invoke v

inductive Fails (m : String) : Prop where
  | childCount {v : ν} (h : host.childCount v = .error m) : Fails m
  | child {v : ν} {i : Nat} (h : host.child v i = .error m) : Fails m
  | parent {v : ν} (h : host.parent v = .error m) : Fails m
  | origin {p v : ν} (h : host.origin p v = .error m) : Fails m
  | invoke {v : ν} {name : String} {args : List (Value ν)} (h : host.invoke v name args = .error m) :
    Fails m

inductive FailsBelow (v : ν) (m : String) : Prop where
  | count (h : host.childCount v = .error m) : FailsBelow v m
  | child {i count : Nat} (hc : host.childCount v = .ok count) (hi : i < count)
    (h : host.child v i = .error m) : FailsBelow v m

theorem FailsBelow.fails {v : ν} {m : String} (h : host.FailsBelow v m) : host.Fails m := by
  cases h with
  | count h => exact .childCount h
  | child _ _ h => exact .child h

/-- The way down from `a` by the children with these indices, the last one first, ends at a node. -/
inductive Way (a : ν) : List Nat → ν → Prop where
  | here : Way a [] a
  | down {path : List Nat} {v : ν} {i : Nat} {c : ν} (h : Way a path v) (hc : host.Lists v i c) :
    Way a (i :: path) c

def MeetsTwice : Prop := ∃ a v path path', path ≠ path' ∧ host.Way a path v ∧ host.Way a path' v

def Tangled : Prop := (∃ v, TransGen host.HasParent v v) ∨ host.MeetsTwice

def IsArgument (m : ν) : Prop := ∃ p v o, host.origin p v = .ok (some o) ∧ m ∈ Value.nodesList o.args

/-- No call has a node among its arguments. -/
def Plain : Prop := ∀ m, ¬ host.IsArgument m

structure IsTree : Prop where
  once : ∀ p q i j c, host.Lists p i c → host.Lists q j c → p = q ∧ i = j
  children : ∀ v, ¬ TransGen host.IsChild v v
  parents : ∀ v, ¬ TransGen host.HasParent v v

theorem Way.transGen {a v : ν} {i : Nat} {path : List Nat} (h : host.Way a (i :: path) v) :
    TransGen host.IsChild a v := by
  induction path generalizing i v with
  | nil =>
    cases h with
    | down h hc =>
      cases h
      exact .single ⟨i, hc⟩
  | cons j path ih =>
    cases h with
    | down h hc => exact (ih h).tail ⟨i, hc⟩

/-! ## Well-behaved hosts -/

/-- What the host says about the nodes in `N` is about nodes in `N`. -/
structure Closed (N : ν → Prop) : Prop where
  child : ∀ v i c, N v → host.Lists v i c → N c
  parent : ∀ v p, N v → host.HasParent v p → N p
  origin : ∀ p v o, N p → N v → host.origin p v = .ok (some o) → ∀ m ∈ Value.nodesList o.args, N m
  invoke : ∀ v name args c, N v → (∀ m ∈ Value.nodesList args, N m) →
    host.invoke v name args = .ok (some c) → N c

/-- No walk in `N` comes back to where it was. -/
structure Orderly (N : ν → Prop) : Prop where
  once : ∀ p q i j c, N p → N q → host.Lists p i c → host.Lists q j c → p = q ∧ i = j
  children : ∀ v, N v → ¬ TransGen host.IsChild v v
  parents : ∀ v, N v → ¬ TransGen host.HasParent v v
  arguments : ∀ v, N v → Acc (fun m u => host.Needs u m) v

/-- The nodes in `N` form trees, about which children and parents agree, and all of it is told. -/
structure Grown (N : ν → Prop) : Prop where
  childCount : ∀ v, N v → ∃ count, host.childCount v = .ok count
  child : ∀ v count i, N v → host.childCount v = .ok count → i < count → ∃ c, host.child v i = .ok c
  parent : ∀ v, N v → ∃ p, host.parent v = .ok p
  down : ∀ v i c, N v → host.Lists v i c → N c
  up : ∀ v p, N v → host.HasParent v p → N p
  parent_child : ∀ p c, N p → host.IsChild p c → host.HasParent c p
  once : ∀ p i j c, N p → host.Lists p i c → host.Lists p j c → i = j
  circle : ∀ v, N v → ¬ TransGen host.HasParent v v

section
variable {host} {N : ν → Prop}

theorem HasParent.unique {v p q : ν} (hp : host.HasParent v p) (hq : host.HasParent v q) : p = q := by
  rw [HasParent, hp] at hq
  simpa using hq

def Below (host : Host ν) (v z : ν) : Prop := ReflTransGen host.IsChild v z

theorem below_of_way {a v : ν} {path : List Nat} (h : host.Way a path v) : host.Below a v := by
  induction h with
  | here => exact .refl
  | down _ hc ih => exact ih.tail ⟨_, hc⟩

theorem Below.way {a v : ν} (h : host.Below a v) : ∃ path, host.Way a path v := by
  induction h with
  | refl => exact ⟨[], .here⟩
  | tail _ hc ih =>
    obtain ⟨path, hp⟩ := ih
    obtain ⟨i, hi⟩ := hc
    exact ⟨i :: path, .down hp hi⟩

/-- Once around a circle is a second way to the same node. -/
theorem twice_of_circle {a v : ν} {path : List Nat} (h : host.Way a path v)
    (hv : TransGen host.IsChild v v) : ∃ path', path ≠ path' ∧ host.Way a path' v := by
  -- Every way that goes on from here is longer.
  have longer : ∀ z, TransGen host.IsChild v z →
      ∃ path', path.length < path'.length ∧ host.Way a path' z := by
    intro z hz
    induction hz with
    | single hc =>
      obtain ⟨i, hi⟩ := hc
      exact ⟨i :: path, by simp, .down h hi⟩
    | tail _ hc ih =>
      obtain ⟨p, hlen, hp⟩ := ih
      obtain ⟨i, hi⟩ := hc
      exact ⟨i :: p, by simp only [List.length_cons]; omega, .down hp hi⟩
  obtain ⟨path', hlen, hp⟩ := longer v hv
  exact ⟨path', fun he => by simp [he] at hlen, hp⟩

/-- Where no node is listed twice and no way leads around, there is one way to each node. -/
theorem way_unique {a : ν} (honce : ∀ p q i j c, host.Below a p → host.Below a q → host.Lists p i c →
      host.Lists q j c → p = q ∧ i = j) (hno : ∀ v, host.Below a v → ¬ TransGen host.IsChild v v) {v : ν}
    {path path' : List Nat} (h : host.Way a path v) (h' : host.Way a path' v) : path = path' := by
  induction h generalizing path' with
  | here =>
    cases path' with
    | nil => rfl
    | cons j path' => exact absurd h'.transGen (hno a .refl)
  | @down path v i c h hc ih =>
    cases h' with
    | here => exact absurd (Way.down h hc).transGen (hno a .refl)
    | down h₂ hc₂ =>
      obtain ⟨rfl, rfl⟩ := honce _ _ _ _ _ (below_of_way h) (below_of_way h₂) hc hc₂
      rw [ih h₂]

theorem IsTree.not_tangled (ht : host.IsTree) : ¬ host.Tangled := by
  rintro (⟨v, hv⟩ | ⟨a, v, path, path', hne, h, h'⟩)
  · exact ht.parents v hv
  · exact hne (way_unique (fun p q i j c _ _ => ht.once p q i j c) (fun v _ => ht.children v) h h')

section
variable (hg : host.Grown N)
include hg

theorem Grown.parents_of_below {v z : ν} (hv : N v) (h : TransGen host.IsChild v z) :
    N z ∧ TransGen host.HasParent z v := by
  induction h with
  | single hz =>
    obtain ⟨i, hi⟩ := hz
    exact ⟨hg.down v i _ hv hi, .single (hg.parent_child v _ hv ⟨i, hi⟩)⟩
  | @tail y z _ hyz ih =>
    obtain ⟨i, hi⟩ := hyz
    exact ⟨hg.down y i z ih.1 hi, .head (hg.parent_child y z ih.1 ⟨i, hi⟩) ih.2⟩

theorem Grown.not_circle {v : ν} (hv : N v) : ¬ TransGen host.IsChild v v :=
  fun h => hg.circle v hv (hg.parents_of_below hv h).2

theorem Grown.below {v z : ν} (hv : N v) (h : host.Below v z) : N z := by
  rcases reflTransGen_iff_eq_or_transGen.1 h with rfl | h
  · exact hv
  · exact (hg.parents_of_below hv h).1

theorem Grown.above {v u : ν} (hv : N v) (h : ReflTransGen host.HasParent v u) : N u := by
  induction h with
  | refl => exact hv
  | tail _ hp ih => exact hg.up _ _ ih hp

/-- There is one place for a node among the children of all others. -/
theorem Grown.lists_unique {p q c : ν} {i j : Nat} (hp : N p) (hq : N q) (hi : host.Lists p i c)
    (hj : host.Lists q j c) : p = q ∧ i = j := by
  obtain rfl := (hg.parent_child p c hp ⟨i, hi⟩).unique (hg.parent_child q c hq ⟨j, hj⟩)
  exact ⟨rfl, hg.once p i j c hp hi hj⟩

theorem Grown.orderly (ha : ∀ v, N v → Acc (fun m u => host.Needs u m) v) : host.Orderly N where
  once _ _ _ _ _ := hg.lists_unique
  children _ := hg.not_circle
  parents := hg.circle
  arguments := ha

theorem Grown.way_unique {a v : ν} (ha : N a) {path path' : List Nat} (h : host.Way a path v)
    (h' : host.Way a path' v) : path = path' :=
  Host.way_unique (fun _ _ _ _ _ hp hq => hg.lists_unique (hg.below ha hp) (hg.below ha hq))
    (fun _ hv => hg.not_circle (hg.below ha hv)) h h'

end

theorem Closed.below (hc : host.Closed N) {v z : ν} (hv : N v) (h : host.Below v z) : N z := by
  induction h with
  | refl => exact hv
  | tail _ hz ih =>
    obtain ⟨i, hi⟩ := hz
    exact hc.child _ i _ ih hi

/-- Of two nodes above a third one, one is above the other. -/
theorem Orderly.comparable (ho : host.Orderly N) (hc : host.Closed N) {a b z : ν} (ha : N a) (hb : N b)
    (h : host.Below a z) (h' : host.Below b z) : host.Below a b ∨ host.Below b a := by
  induction h with
  | refl => exact .inr h'
  | @tail y z hay hyz ih =>
    rcases ReflTransGen.cases_tail h' with rfl | ⟨x, hbx, hxz⟩
    · exact .inl (.tail hay hyz)
    · obtain ⟨i, hi⟩ := hyz
      obtain ⟨j, hj⟩ := hxz
      obtain ⟨rfl, -⟩ := ho.once y x i j z (hc.below ha hay) (hc.below hb hbx) hi hj
      exact ih hbx

theorem Orderly.not_below_sibling (ho : host.Orderly N) (hc : host.Closed N) {v a b : ν} {i j : Nat}
    (hv : N v) (ha : host.Lists v i a) (hb : host.Lists v j b) (hij : i ≠ j) : ¬ host.Below a b := by
  intro h
  have hna := hc.child v i a hv ha
  rcases ReflTransGen.cases_tail h with rfl | ⟨y, hay, k, hk⟩
  · exact hij (ho.once v v i j _ hv hv ha hb).2
  · obtain ⟨rfl, -⟩ := ho.once v y j k b hv (hc.below hna hay) hb hk
    exact ho.children v hv (TransGen.head' ⟨i, ha⟩ hay)

/-- The subtrees of two children have nothing in common. -/
theorem Orderly.siblings_apart (ho : host.Orderly N) (hc : host.Closed N) {v a b : ν} {i j : Nat}
    (hv : N v) (ha : host.Lists v i a) (hb : host.Lists v j b) (hij : i ≠ j) (z : ν)
    (hz : host.Below a z) : ¬ host.Below b z := by
  intro hz'
  rcases ho.comparable hc (hc.child v i a hv ha) (hc.child v j b hv hb) hz hz' with h | h
  · exact ho.not_below_sibling hc hv ha hb hij h
  · exact ho.not_below_sibling hc hv hb ha (Ne.symm hij) h

end

end Host

end Waymark
