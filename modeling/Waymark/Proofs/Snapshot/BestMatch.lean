import Waymark.Proofs.Snapshot.Recovered

/-!
# What a search finds

Below a node from where the children form a tree, a search goes through the nodes in pre-order and finds
the first one of those with the best score. A strict search finds it only if it is the only one. The
parents of these nodes must not go in a circle: where they do, a node whose span is looked for above it
makes the search fail.
-/

namespace Waymark

open Relation Op Snapshot

variable {ν : Type}

/-- What is at and below `a` is a tree, and what is above the nodes in it ends. -/
structure Host.Branches (host : Host ν) (a : ν) : Prop where
  childCount : ∀ v, host.Below a v → ∃ count, host.childCount v = .ok count
  child : ∀ v count i, host.Below a v → host.childCount v = .ok count → i < count →
    ∃ c, host.child v i = .ok c
  once : ∀ v path path', host.Way a path v → host.Way a path' v → path = path'
  parent : ∀ v u, host.Below a v → ReflTransGen host.HasParent v u → ∃ p, host.parent u = .ok p
  circle : ∀ v u, host.Below a v → ReflTransGen host.HasParent v u → ¬ TransGen host.HasParent u u

namespace Host.Branches

variable {host : Host ν} {a : ν} (h : host.Branches a)
include h

theorem not_circle {v : ν} (hv : host.Below a v) : ¬ TransGen host.IsChild v v := by
  intro hcircle
  obtain ⟨path, hpath⟩ := hv.way
  obtain ⟨path', hne, hpath'⟩ := twice_of_circle hpath hcircle
  exact hne (h.once v path path' hpath hpath')

theorem exists_branch : ∃ b : Branch ν, b.root = a ∧ host.Unfolds b := by
  obtain ⟨nodes, -, hmem⟩ := host.bounded
  refine exists_unfolds (acc_of_not_circle nodes.length nodes (Nat.le_refl _) ?_ ?_) h.childCount h.child
  · intro v hv
    obtain ⟨u, -, i, count, -, -, hc⟩ := TransGen.tail'_iff.1 hv
    exact hmem v (.child hc)
  · exact fun v hv => h.not_circle hv.to_reflTransGen

theorem excuses (s : Snapshot ν) : SearchExcuses host (s.scope host) (fun _ => False)
    (fun u => ∃ v, host.Below a v ∧ ReflTransGen host.HasParent v u) (host.Below a) a where
  up u p := fun ⟨v, hv, hu⟩ hp => ⟨v, hv, hu.tail hp⟩
  parent u m := by
    rintro ⟨v, hv, hu⟩ hm
    obtain ⟨p, hp⟩ := h.parent v u hv hu
    rw [hm] at hp
    cases hp
  circle u _ := fun ⟨v, hv, hu⟩ hc => h.circle v u hv hu hc
  down v c hv hc := hv.tail ⟨0, hc⟩
  children v m hv hm := not_failsBelow (h.childCount v hv) (fun _ _ => h.child v _ _ hv) m hm
  spiral v _ hv hc := by
    have hle : host.HasFirst ≤ host.IsChild := fun _ _ hc => ⟨0, hc⟩
    exact h.not_circle hv (TransGen.mono hle v v hc)
  enough := .inr (s.fewer_scope_reach host)
  within v hv := ⟨⟨v, hv, .refl⟩, hv⟩
  twice v path path' _ hne hp hp' := hne (h.once v path path' hp hp')

end Host.Branches

theorem Host.Grown.branches {host : Host ν} {N : ν → Prop} (hg : host.Grown N) {a : ν} (ha : N a) :
    host.Branches a where
  childCount v hv := hg.childCount v (hg.below ha hv)
  child v count i hv := hg.child v count i (hg.below ha hv)
  once _ _ _ := hg.way_unique ha
  parent _ u hv hu := hg.parent u (hg.above (hg.below ha hv) hu)
  circle _ u hv hu := hg.circle u (hg.above (hg.below ha hv) hu)

theorem Host.Grown.searchExcuses {host : Host ν} {N : ν → Prop} (hg : host.Grown N) (s : Snapshot ν) {a : ν}
    (ha : N a) : SearchExcuses host (s.scope host) (fun _ => False) N N a where
  toSpanExcuses := hg.chainsEnd.excuses s
  within _ hv := ⟨hg.below ha hv, hg.below ha hv⟩
  twice _ _ _ _ hne hp hp' := hne (hg.way_unique ha hp hp')

namespace Snapshot

variable [DecidableEq ν] {host : Host ν} {root : ν} {s : Snapshot ν}

/-- The nodes at and below `a` have spans, and one function tells all the spans that there are. -/
theorem History.exists_span (h : s.History host root) {n : Node ν} (hn : s.Knows n)
    (hb : host.Branches n.host) : ∃ span : ν → Span,
      (∀ v, host.Below n.host v → ((spanOf v).exec host s).1 = .ok (span v) ∧
        View.HasSpan ⟨host, s.config, root⟩ v (span v)) ∧
      ∀ v z, View.HasSpan ⟨host, s.config, root⟩ v z → z = span v := by
  let w : View ν := ⟨host, s.config, root⟩
  have hof : s.Of w (.all w.host) := h.of_all
  have hspan : ∀ v, ∃ z, (host.Below n.host v → ((spanOf v).exec host s).1 = .ok z ∧ w.HasSpan v z) ∧
      ∀ z', w.HasSpan v z' → z' = z := by
    intro v
    by_cases hv : host.Below n.host v
    · have hholds : (s.scope host).holds v := by
        rcases ReflTransGen.cases_tail hv with rfl | ⟨u, -, i, count, -, -, hc⟩
        · exact .inl ⟨n.id, hn⟩
        · exact .inr (.child hc)
      obtain ⟨z, hrun, hz⟩ := Keeps.ends hof
        (spanOf_meets (hb.excuses s).toSpanExcuses hholds ⟨v, hv, .refl⟩ hv)
      exact ⟨z, fun _ => ⟨hrun, hz⟩, fun z' hz' => hz'.unique hz⟩
    · by_cases hz : ∃ z, w.HasSpan v z
      · obtain ⟨z, hz⟩ := hz
        exact ⟨z, fun hv' => absurd hv' hv, fun z' hz' => hz'.unique hz⟩
      · exact ⟨.none, fun hv' => absurd hv' hv, fun z' hz' => absurd ⟨z', hz'⟩ hz⟩
  choose span hspan using hspan
  exact ⟨span, fun v hv => (hspan v).1 hv, fun v => (hspan v).2⟩

section
variable (h : s.History host root) {n : Node ν} (hn : s.Knows n) (hb : host.Branches n.host)
variable {span : ν → Span} (hspan : ∀ v z, View.HasSpan ⟨host, s.config, root⟩ v z → z = span v)
variable {b : Branch ν} (hroot : b.root = n.host) (hunfolds : host.Unfolds b)
include h hn hb hspan hroot hunfolds

/-- A search below `n` comes to what is found in the branch. -/
theorem History.bestMatch_searched {target : Target} {t : View.Sought} (ht : SameTarget s target t)
    {ignore : Option (Node ν)} (hig : ∀ x ∈ ignore, s.Knows x) (strict : Bool) :
    ∃ m, ((bestMatch n target strict ignore).exec host s).1 = .ok m ∧
      (∀ x ∈ m.node?, ((bestMatch n target strict ignore).exec host s).2.Knows x) ∧
      m.map Node.host =
        View.searched ⟨host, s.config, root⟩ t span (ignore.map Node.host) strict [(b, 0)] {} := by
  let w : View ν := ⟨host, s.config, root⟩
  have hof : s.Of w (.all w.host) := h.of_all
  obtain ⟨m, hrun, hm⟩ := Keeps.ends hof
    (bestMatch_meets (hb.excuses s) ⟨hn, rfl⟩ target strict ignore)
  exact ⟨m, hrun, hm.knows, hm.found t span [(b, 0)] ⟨ht, hig, hspan⟩ (.cons ⟨hroot, rfl, hunfolds⟩ .nil)⟩

theorem History.isAmbiguous_searched {ignore : Option (Node ν)} (hig : ∀ x ∈ ignore, s.Knows x)
    (f : Fingerprint) : ((isAmbiguous n f ignore).exec host s).1 =
      .ok (View.searched ⟨host, s.config, root⟩ (View.soughtOf ⟨host, s.config, root⟩ f) span
        (ignore.map Node.host) true [(b, 0)] {}).node?.isNone := by
  let w : View ν := ⟨host, s.config, root⟩
  have hof : s.Of w (.all w.host) := h.of_all
  have hmeets : Keeps w (s.scope w.host) (fun _ => False) s (isAmbiguous n f ignore) (fun _ r =>
      r = (w.searched (w.soughtOf f) span (ignore.map Node.host) true [(b, 0)] {}).node?.isNone) := by
    unfold isAmbiguous uniqueMatch
    simp only [bind_assoc, pure_bind]
    refine Keeps.bestOf_bind (hb.excuses s) ⟨hn, rfl⟩ hig hspan hunfolds hroot fun _ m _ hm => ?_
    rw [← hm]
    exact Meets.pure fun _ _ _ => by cases m <;> rfl
  obtain ⟨r, hr, rfl⟩ := Keeps.ends hof hmeets
  exact hr

end

/-- A search finds the first of those nodes in pre-order that have the best score, or nothing if no node
has the mark. If it is strict and there are several, it is ambiguous. -/
theorem History.bestMatch_leaders (h : s.History host root) {n : Node ν} (hn : s.Knows n)
    (hb : host.Branches n.host) {target : Target} {t : View.Sought} (ht : SameTarget s target t)
    {ignore : Option (Node ν)} (hig : ∀ x ∈ ignore, s.Knows x) :
    ∃ (b : Branch ν) (span : ν → Span), b.root = n.host ∧ host.Unfolds b ∧
      (∀ v, host.Below n.host v → ((spanOf v).exec host s).1 = .ok (span v)) ∧
      let w : View ν := ⟨host, s.config, root⟩
      let found := w.rated t span (b.order (w.goesInto t (ignore.map Node.host)) 0)
      (leaders found = [] ↔ found = []) ∧
      (∀ strict, ∃ m, ((bestMatch n target strict ignore).exec host s).1 = .ok m ∧
        (∀ x ∈ m.node?, ((bestMatch n target strict ignore).exec host s).2.Knows x) ∧
        m.map Node.host = .ofLeaders strict (leaders found)) ∧
      ∀ f, w.soughtOf f = t → ∃ ambiguous, ((isAmbiguous n f ignore).exec host s).1 = .ok ambiguous ∧
        (ambiguous = false ↔ ∃ x, leaders found = [x]) := by
  obtain ⟨b, hroot, hunfolds⟩ := hb.exists_branch
  obtain ⟨span, hrun, hspan⟩ := h.exists_span hn hb
  refine ⟨b, span, hroot, hunfolds, fun v hv => (hrun v hv).1, leaders_eq_nil, fun strict => ?_,
    fun f hf => ⟨_, h.isAmbiguous_searched hn hb hspan hroot hunfolds hig f, ?_⟩⟩
  · obtain ⟨m, hm, hknows, hfound⟩ := h.bestMatch_searched hn hb hspan hroot hunfolds ht hig strict
    exact ⟨m, hm, hknows, hfound.trans (View.searched_eq b)⟩
  · rw [View.searched_eq, hf]
    match leaders _ with
    | [] => simp [Match.ofLeaders, Match.node?]
    | [x] => simp [Match.ofLeaders, Match.node?]
    | x :: y :: l => simp [Match.ofLeaders, Match.node?]

end Snapshot

/-- Two nodes next to each other, and one without a span below the second. -/
inductive PairNode where
  | block
  | left
  | right
  | leaf
  deriving DecidableEq

namespace PairNode

def tree : Host PairNode where
  size := 4
  childCount v := .ok (match v with
    | block => 2
    | right => 1
    | left | leaf => 0)
  child v i := .ok (if v = right then leaf else if i = 0 then left else right)
  parent v := .ok (match v with
    | block => none
    | left | right => some block
    | leaf => some right)
  typeName v := match v with
    | block => "Block"
    | left | right => "Expr"
    | leaf => "Leaf"
  packedSpan v := match v with
    | block => some ⟨1, 9⟩
    | left => some ⟨2, 4⟩
    | right => some ⟨6, 8⟩
    | leaf => none
  bounded := ⟨[block, left, right, leaf], by simp, fun v _ => by cases v <;> simp⟩

theorem lists_tree {p c : PairNode} {i : Nat} (h : tree.Lists p i c) :
    p = block ∧ i = 0 ∧ c = left ∨ p = block ∧ i = 1 ∧ c = right ∨ p = right ∧ i = 0 ∧ c = leaf := by
  obtain ⟨count, hcount, hi, hc⟩ := h
  cases p <;> simp only [tree, Except.ok.injEq] at hcount hc <;> subst hcount
  case block =>
    obtain rfl | rfl : i = 0 ∨ i = 1 := by omega
    · exact .inl ⟨rfl, rfl, hc.symm⟩
    · exact .inr (.inl ⟨rfl, rfl, hc.symm⟩)
  case right =>
    obtain rfl : i = 0 := by omega
    exact .inr (.inr ⟨rfl, rfl, hc.symm⟩)
  all_goals omega

def depth : PairNode → Nat
  | block => 0
  | left | right => 1
  | leaf => 2

theorem grown_tree : tree.Grown fun _ => True where
  childCount _ _ := ⟨_, rfl⟩
  child _ _ _ _ _ _ := ⟨_, rfl⟩
  parent _ _ := ⟨_, rfl⟩
  down _ _ _ _ _ := trivial
  up _ _ _ _ := trivial
  parent_child p c _ h := by
    obtain ⟨i, hi⟩ := h
    obtain ⟨rfl, -, rfl⟩ | ⟨rfl, -, rfl⟩ | ⟨rfl, -, rfl⟩ := lists_tree hi <;> rfl
  once p i j c _ hi hj := by
    obtain ⟨rfl, rfl, rfl⟩ | ⟨rfl, rfl, rfl⟩ | ⟨rfl, rfl, rfl⟩ := lists_tree hi <;>
      obtain ⟨-, rfl, h⟩ | ⟨-, rfl, h⟩ | ⟨h, rfl, h'⟩ := lists_tree hj <;> first | rfl | cases h
  circle v _ := by
    refine not_circle_of_lt depth (fun v p h => ?_) v
    cases v <;> cases h <;> decide

def between : Fingerprint := { type := "Expr", span := ⟨3, 7⟩, depth := 1 }

def betweenTarget : Target := ⟨.type ⟨0⟩, ⟨3, 7⟩, 1⟩

def asked : Snapshot PairNode := ((Request.targetOf between).op.exec tree (ofRoot {} tree block)).2

theorem bestMatch_leaders_tree :
    ((bestMatch ⟨0, block⟩ betweenTarget true none).exec tree asked).1 = .ok .ambiguous ∧
      ∃ (b : Branch PairNode) (span : PairNode → Span), b.root = block ∧ tree.Unfolds b ∧
        let w : View PairNode := ⟨tree, {}, block⟩
        ∃ x y rest, leaders (w.rated (w.soughtOf between) span
          (b.order (w.goesInto (w.soughtOf between) none) 0)) = x :: y :: rest := by
  have hs : asked.History tree block := (History.fresh {}).request (.targetOf between)
  have hrun : ((bestMatch ⟨0, block⟩ betweenTarget true none).exec tree asked).1 = .ok .ambiguous := by cbv
  have hhandle : asked.handle? 0 = some block := by cbv
  have hconfig : asked.config = {} := by cbv
  have hname : asked.types.name? ⟨0⟩ = some "Expr" := by cbv
  have hknows : asked.Knows ⟨0, block⟩ := hhandle
  have htarget : SameTarget asked betweenTarget (View.soughtOf ⟨tree, {}, block⟩ between) := ⟨hname, rfl, rfl⟩
  obtain ⟨b, span, hroot, hunfolds, -, -, hfind, -⟩ := hs.bestMatch_leaders hknows
    (grown_tree.branches trivial) htarget (by simp : ∀ x ∈ none, asked.Knows x)
  obtain ⟨m, hm, -, heq⟩ := hfind true
  rw [hrun] at hm
  cases hm
  rw [hconfig] at heq
  exact ⟨hrun, b, span, hroot, hunfolds, Match.ofLeaders_eq_ambiguous heq.symm⟩

end PairNode

/-! ## Parents in a circle -/

/-- A node whose only child takes itself for its parent. -/
def noose : Host Bool where
  size := 2
  childCount v := .ok (if v then 1 else 0)
  child _ _ := .ok false
  parent v := .ok (if v then none else some false)
  typeName v := if v then "Root" else "Leaf"
  packedSpan v := if v then some ⟨1, 9⟩ else none
  bounded := ⟨[true, false], by simp, fun v _ => by cases v <;> simp⟩

def leaf : Fingerprint := { type := "Leaf", span := ⟨2, 3⟩, depth := 1 }

theorem way_noose {path : List Nat} {v : Bool} (h : noose.Way true path v) :
    path = [] ∧ v = true ∨ path = [0] ∧ v = false := by
  induction h with
  | here => exact .inl ⟨rfl, rfl⟩
  | @down path v i c _ hc ih =>
    obtain ⟨count, hcount, hi, hchild⟩ := hc
    obtain ⟨rfl, rfl⟩ | ⟨rfl, rfl⟩ := ih
    · cases hcount
      cases hchild
      obtain rfl : i = 0 := by simpa using hi
      exact .inr ⟨rfl, rfl⟩
    · cases hcount
      exact absurd hi (Nat.not_lt_zero i)

/-- No question fails, the children form a tree, and there is one candidate, whatever its span. The search
fails nevertheless, as there is no end to the parents of the candidate. -/
theorem bestMatch_noose :
    (∀ m, ¬ noose.Fails m) ∧ noose.Unfolds (.node true [.node false []]) ∧
      (∀ v path path', noose.Way true path v → noose.Way true path' v → path = path') ∧
      (∀ span, let w : View Bool := ⟨noose, { recovery := .parent }, true⟩
        (w.rated (w.soughtOf leaf) span (Branch.order (w.goesInto (w.soughtOf leaf) none) 0
          (.node true [.node false []]))).map Prod.fst = [false]) ∧
      ∀ strict, ((do bestMatch ⟨0, true⟩ (← targetOf leaf) strict).exec noose
        (ofRoot { recovery := .parent } noose true)).1 = .error (.loop "Leaf") := by
  refine ⟨fun m h => ?_, ?_, fun v path path' h h' => ?_, fun span => ?_, fun strict => ?_⟩
  · cases h <;> contradiction
  · refine .node rfl (fun i b hb => ?_) fun b hb => ?_
    · match i with
      | 0 =>
        cases hb
        rfl
      | i + 1 => cases hb
    · rw [List.mem_singleton.1 hb]
      exact .node rfl nofun nofun
  · obtain ⟨rfl, rfl⟩ | ⟨rfl, rfl⟩ := way_noose h <;> obtain ⟨rfl, h⟩ | ⟨rfl, h⟩ := way_noose h' <;>
      first | rfl | cases h
  · rfl
  · cases strict <;> cbv

end Waymark
