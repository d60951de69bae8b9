import Waymark.Proofs.View.Borrowed

/-!
# Rebuilt trees

A rebuilt tree gives other handles to the same nodes. `Rebuild` says that one view looks on its nodes
as another does on theirs, and that walks on them end. How many nodes a walk can meet is bounded on
both sides: what is met by a walk without circles is a list of different nodes that the hosts
mention.
-/

namespace Waymark

open Relation

variable {ν μ : Type}

/-! ## Other handles -/

mutual

def Value.map (f : ν → μ) : Value ν → Value μ
  | .string s => .string s
  | .integer i => .integer i
  | .bool b => .bool b
  | .collection items => .collection (Value.mapList f items)
  | .stream name => .stream name
  | .node n => .node (n.map f)
  | .any => .any

def Value.mapList (f : ν → μ) : List (Value ν) → List (Value μ)
  | [] => []
  | v :: vs => v.map f :: Value.mapList f vs

end

mutual

theorem Value.nodes_map (f : ν → μ) : ∀ v : Value ν, (v.map f).nodes = v.nodes.map f
  | .string _ | .integer _ | .bool _ | .stream _ | .any => rfl
  | .node n => by cases n <;> rfl
  | .collection items => by
    rw [Value.map, Value.nodes, Value.nodes]
    exact Value.nodesList_mapList f items

theorem Value.nodesList_mapList (f : ν → μ) :
    ∀ vs : List (Value ν), Value.nodesList (Value.mapList f vs) = (Value.nodesList vs).map f
  | [] => rfl
  | v :: vs => by
    rw [Value.mapList, Value.nodesList, Value.nodesList, List.map_append, Value.nodes_map f v,
      Value.nodesList_mapList f vs]

end

mutual

theorem Value.map_id : ∀ v : Value ν, v.map id = v
  | .string _ | .integer _ | .bool _ | .stream _ | .any => rfl
  | .node n => by cases n <;> rfl
  | .collection items => by rw [Value.map, Value.mapList_id items]

theorem Value.mapList_id : ∀ vs : List (Value ν), Value.mapList id vs = vs
  | [] => rfl
  | v :: vs => by rw [Value.mapList, Value.map_id v, Value.mapList_id vs]

end

def Origin.map (f : ν → μ) (o : Origin ν) : Origin μ := ⟨o.name, Value.mapList f o.args⟩

theorem Origin.map_id (o : Origin ν) : o.map id = o := by
  rw [Origin.map, Value.mapList_id]

/-! ## Rebuilds -/

/-- The nodes of a view, and where they are in another one that says the same about them. -/
structure Rebuild (ν μ : Type) where
  view : View ν
  copy : View μ
  IsNode : ν → Prop
  place : ν → μ
  closed : view.host.Closed IsNode
  orderly : view.host.Orderly IsNode
  config : copy.config = view.config
  isNode_root : IsNode view.root
  root : copy.root = place view.root
  place_inj : ∀ u v, IsNode u → IsNode v → place u = place v → u = v
  childCount : ∀ v, IsNode v → copy.host.childCount (place v) = view.host.childCount v
  child : ∀ v count i, IsNode v → view.host.childCount v = .ok count → i < count →
    copy.host.child (place v) i = (view.host.child v i).map place
  parent : ∀ v, IsNode v → copy.host.parent (place v) = (view.host.parent v).map (Option.map place)
  typeName : ∀ v, IsNode v → copy.host.typeName (place v) = view.host.typeName v
  packedSpan : ∀ v, IsNode v → copy.host.packedSpan (place v) = view.host.packedSpan v
  lineColumns : ∀ v, IsNode v → copy.host.lineColumns (place v) = view.host.lineColumns v
  label : ∀ v, IsNode v → copy.host.label (place v) = view.host.label v
  visible : ∀ v, IsNode v → copy.host.visible (place v) = view.host.visible v
  external : ∀ v, IsNode v → copy.host.external (place v) = view.host.external v
  searchRoot : copy.host.searchRoot = view.host.searchRoot
  supports : ∀ name hook, copy.host.supports name hook = view.host.supports name hook
  origin : ∀ p v, IsNode p → IsNode v →
    copy.host.origin (place p) (place v) = (view.host.origin p v).map (Option.map (Origin.map place))
  invoke : ∀ v name args, IsNode v → (∀ m ∈ Value.nodesList args, IsNode m) →
    copy.host.invoke (place v) name (Value.mapList place args) =
      (view.host.invoke v name args).map (Option.map place)

namespace Rebuild

def refl (w : View ν) (N : ν → Prop) (hc : w.host.Closed N) (ho : w.host.Orderly N) (hr : N w.root) :
    Rebuild ν ν where
  view := w
  copy := w
  IsNode := N
  place := id
  closed := hc
  orderly := ho
  config := rfl
  isNode_root := hr
  root := rfl
  place_inj _ _ _ _ h := h
  childCount _ _ := rfl
  child v _ i _ _ _ := by rw [Except.map_id]; rfl
  parent v _ := by rw [Option.map_id, Except.map_id]; rfl
  typeName _ _ := rfl
  packedSpan _ _ := rfl
  lineColumns _ _ := rfl
  label _ _ := rfl
  visible _ _ := rfl
  external _ _ := rfl
  searchRoot := rfl
  supports _ _ := rfl
  origin p v _ _ := by
    have hid : (Origin.map id : Origin ν → Origin ν) = id := funext Origin.map_id
    rw [hid, Option.map_id, Except.map_id]
    rfl
  invoke v name args _ _ := by
    rw [Value.mapList_id, Option.map_id, Except.map_id]
    rfl

variable (B : Rebuild ν μ)

/-! ## Answers about one node -/

section
variable {v : ν} (hv : B.IsNode v)
include hv

theorem rawSpan : B.copy.rawSpan (B.place v) = B.view.rawSpan v := by
  simp only [View.rawSpan, Host.rawSpan, Host.reportedSpan, B.config, B.packedSpan v hv,
    B.lineColumns v hv]

theorem has (hook : Hook) : B.copy.host.has hook (B.place v) = B.view.host.has hook v := by
  simp only [Host.has, B.typeName v hv, B.supports]

theorem shownLabel : B.copy.host.shownLabel (B.place v) = B.view.host.shownLabel v := by
  simp only [Host.shownLabel, B.has hv, B.label v hv]

theorem isExternal : B.copy.host.isExternal (B.place v) = B.view.host.isExternal v := by
  simp only [Host.isExternal, B.has hv, B.external v hv]

theorem isVisible : B.copy.host.isVisible (B.place v) = B.view.host.isVisible v := by
  simp only [Host.isVisible, B.has hv, B.visible v hv, B.typeName v hv]

theorem mark : B.copy.mark (B.place v) = B.view.mark v := by
  simp only [View.mark, Host.mark, B.config, B.shownLabel hv, B.typeName v hv]

/-! ## Answers about neighbours -/

theorem child_place (i : Nat) : B.copy.child (B.place v) i = (B.view.child v i).map B.place := by
  unfold View.child View.childCount
  rw [B.childCount v hv]
  cases hc : B.view.host.childCount v with
  | error m => rfl
  | ok count =>
    by_cases hi : count ≤ i
    · simp [View.told, hi, bind, Except.bind, throw, throwThe, MonadExceptOf.throw, Except.map]
    · have h := B.child v count i hv hc (Nat.lt_of_not_le hi)
      simp only [View.told, hi, bind, Except.bind, if_false, h]
      cases B.view.host.child v i <;> rfl

theorem parent_place : B.copy.parent (B.place v) = (B.view.parent v).map (Option.map B.place) := by
  rw [View.parent, View.parent, B.parent v hv]
  cases B.view.host.parent v <;> rfl

theorem firstChild_place :
    B.copy.firstChild (B.place v) = (B.view.firstChild v).map (Option.map B.place) := by
  unfold View.firstChild
  rw [View.childCount, View.childCount, B.childCount v hv, B.child_place hv]
  cases B.view.host.childCount v with
  | error m => rfl
  | ok count =>
    simp only [View.told, bind, Except.bind]
    split
    · cases B.view.child v 0 <;> rfl
    · rfl

end

def placed (x : Option ν × Span) : Option μ × Span := (x.1.map B.place, x.2)

theorem stepUp_place {up : Option ν} (hu : ∀ v ∈ up, B.IsNode v) :
    B.copy.stepUp (up.map B.place) = (B.view.stepUp up).map B.placed := by
  cases up with
  | none => rfl
  | some v =>
    simp only [Option.map_some, View.stepUp, B.parent_place (hu v rfl)]
    cases hp : B.view.parent v with
    | error e => rfl
    | ok p =>
      cases p with
      | none => rfl
      | some p =>
        have hnp := B.closed.parent v p (hu v rfl) (View.parent_eq_ok.1 hp)
        simp only [Except.map, bind, Except.bind, Option.map_some, B.rawSpan hnp]
        rfl

theorem stepDown_place {down : Option ν} (hd : ∀ v ∈ down, B.IsNode v) :
    B.copy.stepDown (down.map B.place) = (B.view.stepDown down).map B.placed := by
  cases down with
  | none => rfl
  | some v =>
    simp only [Option.map_some, View.stepDown, B.firstChild_place (hd v rfl)]
    cases hc : B.view.firstChild v with
    | error e => rfl
    | ok c =>
      cases c with
      | none => rfl
      | some c =>
        have hnc := B.closed.child v 0 c (hd v rfl) (View.firstChild_eq_ok hc)
        simp only [Except.map, bind, Except.bind, Option.map_some, B.rawSpan hnc]
        rfl

/-! ## Nodes that walks meet -/

structure InBoth (v : ν) : Prop where
  isNode : B.IsNode v
  inView : Mentioned B.view.host.child B.view.host.parent B.view.host.origin B.view.host.invoke v
  inCopy : Mentioned B.copy.host.child B.copy.host.parent B.copy.host.origin B.copy.host.invoke
    (B.place v)

variable {B}

theorem inBoth_child {v c : ν} {i : Nat} (hv : B.IsNode v) (h : B.view.host.Lists v i c) : B.InBoth c := by
  obtain ⟨count, hcount, hi, hc⟩ := h
  refine ⟨B.closed.child v i c hv ⟨count, hcount, hi, hc⟩, .child hc, ?_⟩
  refine .child (v := B.place v) (i := i) ?_
  rw [B.child v count i hv hcount hi, hc]
  rfl

theorem inBoth_parent {v p : ν} (hv : B.IsNode v) (h : B.view.host.HasParent v p) : B.InBoth p := by
  refine ⟨B.closed.parent v p hv h, .parent h, .parent (v := B.place v) ?_⟩
  rw [B.parent v hv, h]
  rfl

theorem inBoth_argument {p v m : ν} {o : Origin ν} (hp : B.IsNode p) (hv : B.IsNode v)
    (h : B.view.host.origin p v = .ok (some o)) (hm : m ∈ Value.nodesList o.args) : B.InBoth m := by
  refine ⟨B.closed.origin p v o hp hv h m hm, .argument h hm, ?_⟩
  refine .argument (p := B.place p) (c := B.place v) (o := o.map B.place) ?_ ?_
  · rw [B.origin p v hp hv, h]
    rfl
  · rw [Origin.map, Value.nodesList_mapList]
    exact List.mem_map_of_mem hm

theorem inBoth_enters {v u : ν} {o : Option (Origin ν)} (hv : B.IsNode v) (h : B.view.host.Enters v u o) :
    B.InBoth u := by
  cases h with
  | call hp _ => exact inBoth_parent hv hp
  | proxy hp _ _ hg _ => exact inBoth_parent (inBoth_parent hv hp).isNode hg
  | child hp _ _ => exact inBoth_parent hv hp

theorem not_enters_circle {u : ν} (hu : B.IsNode u) : ¬ TransGen B.view.host.EntersFrom u u := by
  have parents : ∀ v, TransGen B.view.host.EntersFrom u v → TransGen B.view.host.HasParent u v := by
    intro v h
    induction h with
    | single h => exact h.choose_spec.parents
    | tail _ h ih => exact ih.trans h.choose_spec.parents
  exact fun h => B.orderly.parents u hu (parents u h)

theorem inBoth_needs {v m : ν} (hv : B.IsNode v) (h : B.view.host.Needs v m) : B.InBoth m := by
  obtain ⟨u, x, o, hu, hx, hm⟩ := h
  have hnode : B.IsNode u := by
    clear hx
    induction hu with
    | refl => exact hv
    | tail _ h ih => exact (inBoth_enters ih h.choose_spec).isNode
  cases hx with
  | call hp ho => exact inBoth_argument (inBoth_parent hnode hp).isNode hnode ho hm
  | proxy hp _ _ hg ho =>
    exact inBoth_argument (inBoth_parent (inBoth_parent hnode hp).isNode hg).isNode hnode ho hm

theorem not_needs_circle {u : ν} (hu : B.IsNode u) : ¬ TransGen B.view.host.Needs u u := by
  have hacc := B.orderly.arguments u hu
  induction hacc with
  | intro u _ ih =>
    intro h
    obtain ⟨m, hum, hmu⟩ := TransGen.head'_iff.1 h
    exact ih m hum (inBoth_needs hu hum).isNode (TransGen.tail' hmu hum)

theorem length_le_of_bounded {α : Type} {P : α → Prop} {size : Nat}
    (h : ∃ nodes : List α, nodes.length ≤ size ∧ ∀ v, P v → v ∈ nodes) {vs : List α} (hd : vs.Nodup)
    (hP : ∀ v ∈ vs, P v) : vs.length ≤ size := by
  obtain ⟨nodes, hlen, hmem⟩ := h
  exact Nat.le_trans (hd.subperm fun v hv => hmem v (hP v hv)).length_le hlen

theorem length_le_sizes {vs : List ν} (hd : vs.Nodup) (hm : ∀ v ∈ vs, B.InBoth v) :
    vs.length ≤ B.view.host.size ∧ vs.length ≤ B.copy.host.size := by
  refine ⟨length_le_of_bounded B.view.host.bounded hd fun v hv => (hm v hv).inView, ?_⟩
  have hd' : (vs.map B.place).Nodup :=
    List.Nodup.map_on (fun u hu v hv h => B.place_inj u v (hm u hu).isNode (hm v hv).isNode h) hd
  rw [← List.length_map (f := B.place)]
  refine length_le_of_bounded B.copy.host.bounded hd' fun u hu => ?_
  obtain ⟨v, hv, rfl⟩ := List.mem_map.1 hu
  exact (hm v hv).inCopy

/-! ## Walks along a chain -/

variable (B) in
/-- The nodes that a walk by `r` has met since `start`, the last one first, when it is at `v`. -/
structure Trail (r : ν → ν → Prop) (start : ν) (seen : List ν) (v : ν) : Prop where
  nodup : (start :: seen).Nodup
  inBoth : ∀ x ∈ seen, B.InBoth x
  leads : ∀ x ∈ start :: seen, ReflTransGen r x v

theorem Trail.nil {r : ν → ν → Prop} {start : ν} : B.Trail r start [] start :=
  ⟨by simp, by simp, by simp [ReflTransGen.refl]⟩

theorem Trail.next {r : ν → ν → Prop} {start v u : ν} {seen : List ν} (h : B.Trail r start seen v)
    (hr : r v u) (hu : B.InBoth u) (hc : ¬ TransGen r u u) : B.Trail r start (u :: seen) u := by
  have hnot : u ∉ start :: seen := fun hm => hc (TransGen.tail' (h.leads u hm) hr)
  refine ⟨?_, ?_, ?_⟩
  · refine ((List.Perm.swap start u seen).nodup_iff).1 (List.nodup_cons.2 ⟨hnot, h.nodup⟩)
  · intro x hx
    rcases List.mem_cons.1 hx with rfl | hx
    · exact hu
    · exact h.inBoth x hx
  · intro x hx
    by_cases hxu : x = u
    · rw [hxu]
    · have hx' : x ∈ start :: seen := by
        rcases List.mem_cons.1 hx with hx | hx
        · exact hx ▸ List.mem_cons_self
        · exact List.mem_cons_of_mem _ ((List.mem_cons.1 hx).resolve_left hxu)
      exact (h.leads x hx').tail hr

theorem Trail.length_le {r : ν → ν → Prop} {start v : ν} {seen : List ν}
    (h : B.Trail r start seen v) :
    seen.length ≤ B.view.host.size ∧ seen.length ≤ B.copy.host.size :=
  length_le_sizes (List.nodup_cons.1 h.nodup).2 h.inBoth

/-! ## Spans of the copy

A span that the copy borrows is the one that the walks of the view find, which are long enough. -/

/-- Both walks go by the same rule, up or down. -/
theorem walk_of_ahead {next : ν → Except Fault (Option ν)} {next' : μ → Except Fault (Option μ)}
    {walk : Nat → ν → Except Fault Span} {r : ν → ν → Prop}
    (hplace : ∀ v, B.IsNode v → next' (B.place v) = (next v).map (Option.map B.place))
    (hwalk : ∀ fuel v, walk (fuel + 1) v = (do
      match ← next v with
      | none => return .none
      | some u => if (B.view.rawSpan u).isMeaningful then return B.view.rawSpan u else walk fuel u))
    (hr : ∀ v u, B.IsNode v → next v = .ok (some u) → r v u ∧ B.InBoth u)
    (hc : ∀ v, B.IsNode v → ¬ TransGen r v v) {y : μ} {s : Span} (h : B.copy.Ahead next' y s) :
    ∀ {v start : ν} {seen : List ν} {fuel : Nat}, B.IsNode v → B.place v = y → B.Trail r start seen v →
      B.view.host.size < seen.length + fuel → walk fuel v = .ok s := by
  -- A step of the copy is one of the view, and there is fuel for it.
  have step : ∀ {v start : ν} {seen : List ν} {fuel : Nat} {a : Option μ}, B.IsNode v →
      next' (B.place v) = .ok a → B.Trail r start seen v → B.view.host.size < seen.length + fuel →
      ∃ b fuel', next v = .ok b ∧ a = b.map B.place ∧ fuel = fuel' + 1 := by
    intro v start seen fuel a hv hnext ht hf
    rw [hplace v hv] at hnext
    have hlen := ht.length_le
    obtain ⟨fuel', rfl⟩ : ∃ fuel', fuel = fuel' + 1 := ⟨fuel - 1, by omega⟩
    cases hn : next v with
    | error e => simp [hn, Except.map] at hnext
    | ok b =>
      simp only [hn, Except.map, Except.ok.injEq] at hnext
      exact ⟨b, fuel', rfl, hnext.symm, rfl⟩
  induction h with
  | ends h =>
    rintro v start seen fuel hv rfl ht hf
    obtain ⟨b, fuel', hb, hnone, rfl⟩ := step hv h ht hf
    obtain rfl := Option.map_eq_none_iff.1 hnone.symm
    rw [hwalk, hb]
    rfl
  | here h hm =>
    rintro v start seen fuel hv rfl ht hf
    obtain ⟨b, fuel', hb, hsome, rfl⟩ := step hv h ht hf
    obtain ⟨x, rfl, rfl⟩ := Option.map_eq_some_iff.1 hsome.symm
    have hx := (hr v x hv hb).2.isNode
    rw [B.rawSpan hx] at hm ⊢
    rw [hwalk, hb]
    exact if_pos hm
  | beyond h hm _ ih =>
    rintro v start seen fuel hv rfl ht hf
    obtain ⟨b, fuel', hb, hsome, rfl⟩ := step hv h ht hf
    obtain ⟨x, rfl, rfl⟩ := Option.map_eq_some_iff.1 hsome.symm
    obtain ⟨hvx, hboth⟩ := hr v x hv hb
    rw [B.rawSpan hboth.isNode] at hm
    have hnot : ¬ (B.view.rawSpan x).isMeaningful = true := by simp [hm]
    rw [hwalk, hb]
    refine (if_neg hnot).trans (ih hboth.isNode rfl (ht.next hvx hboth (hc x hboth.isNode)) ?_)
    rw [List.length_cons]
    omega

theorem spanAbove_of_ahead {v : ν} {s : Span} (hv : B.IsNode v)
    (h : B.copy.Ahead B.copy.parent (B.place v) s) : B.view.spanAbove B.view.reach v = .ok s := by
  refine walk_of_ahead (r := B.view.host.HasParent) (fun v hv => B.parent_place hv) (fun _ _ => rfl) ?_
    B.orderly.parents h hv rfl .nil (by simp [View.reach])
  intro v u hv hu
  exact ⟨View.parent_eq_ok.1 hu, inBoth_parent hv (View.parent_eq_ok.1 hu)⟩

theorem spanBelow_of_ahead {v : ν} {s : Span} (hv : B.IsNode v)
    (h : B.copy.Ahead B.copy.firstChild (B.place v) s) : B.view.spanBelow B.view.reach v = .ok s := by
  refine walk_of_ahead (r := B.view.host.IsChild) (fun v hv => B.firstChild_place hv) (fun _ _ => rfl) ?_
    B.orderly.children h hv rfl .nil (by simp [View.reach])
  intro v u hv hu
  exact ⟨⟨0, View.firstChild_eq_ok hu⟩, inBoth_child hv (View.firstChild_eq_ok hu)⟩

variable (B) in
def Gone (r : ν → ν → Prop) (start : ν) (k : Nat) (v : ν) : Prop :=
  B.IsNode v ∧ ∃ seen, B.Trail r start seen v ∧ seen.length = k

theorem Gone.first {r : ν → ν → Prop} {v : ν} (hv : B.IsNode v) : B.Gone r v 0 v := ⟨hv, [], .nil, rfl⟩

theorem Gone.length_le {r : ν → ν → Prop} {start v : ν} {k : Nat} (h : B.Gone r start k v) :
    k ≤ B.view.host.size ∧ k ≤ B.copy.host.size := by
  obtain ⟨-, seen, ht, rfl⟩ := h
  exact ht.length_le

theorem Gone.up {start : ν} {k : Nat} {up up' : Option ν} {s : Span}
    (h : ∀ v ∈ up, B.Gone B.view.host.HasParent start k v) (hs : B.view.stepUp up = .ok (up', s)) :
    ∀ v ∈ up', B.Gone B.view.host.HasParent start (k + 1) v := by
  rintro p rfl
  obtain ⟨u, rfl, hup⟩ := View.stepUp_eq_ok hs
  obtain ⟨hu, seen, ht, rfl⟩ := h u rfl
  have hboth := inBoth_parent hu hup
  exact ⟨hboth.isNode, p :: seen, ht.next hup hboth (B.orderly.parents p hboth.isNode), rfl⟩

theorem Gone.down {start : ν} {k : Nat} {down down' : Option ν} {s : Span}
    (h : ∀ v ∈ down, B.Gone B.view.host.IsChild start k v) (hs : B.view.stepDown down = .ok (down', s)) :
    ∀ v ∈ down', B.Gone B.view.host.IsChild start (k + 1) v := by
  rintro c rfl
  obtain ⟨u, rfl, hl⟩ := View.stepDown_eq_ok hs
  obtain ⟨hu, seen, ht, rfl⟩ := h u rfl
  have hboth := inBoth_child hu hl
  exact ⟨hboth.isNode, c :: seen, ht.next ⟨0, hl⟩ hboth (B.orderly.children c hboth.isNode), rfl⟩

/-- Walks both ways that are not both at their end have not met more nodes than there are. -/
theorem Gone.either {start : ν} {k : Nat} {up down : Option ν}
    (hu : ∀ v ∈ up, B.Gone B.view.host.HasParent start k v)
    (hd : ∀ v ∈ down, B.Gone B.view.host.IsChild start k v) (hne : up = none → down ≠ none) :
    k ≤ B.view.host.size ∧ k ≤ B.copy.host.size := by
  cases up with
  | some u => exact (hu u rfl).length_le
  | none =>
    cases down with
    | some d => exact (hd d rfl).length_le
    | none => exact absurd rfl (hne rfl)

theorem spanAround_of_around (start : ν) {y z : Option μ} {s : Span} (h : B.copy.Around y z s) :
    ∀ {up down : Option ν} {k fuel : Nat}, y = up.map B.place → z = down.map B.place →
      (∀ v ∈ up, B.Gone B.view.host.HasParent start k v) →
      (∀ v ∈ down, B.Gone B.view.host.IsChild start k v) → B.view.host.size < k + fuel →
      B.view.spanAround fuel up down = .ok s := by
  -- A step of the copy is one of the view.
  have stepUp : ∀ {up : Option ν} {k : Nat} {y : Option μ} {s : Span},
      (∀ v ∈ up, B.Gone B.view.host.HasParent start k v) →
      B.copy.stepUp (up.map B.place) = .ok (y, s) →
      ∃ up', y = up'.map B.place ∧ B.view.stepUp up = .ok (up', s) := by
    intro up k y s hu h
    rw [B.stepUp_place fun v hv => (hu v hv).1] at h
    cases hs : B.view.stepUp up with
    | error e => simp [hs, Except.map] at h
    | ok x =>
      simp only [hs, Except.map, placed, Except.ok.injEq, Prod.mk.injEq] at h
      exact ⟨x.1, h.1.symm, by rw [← h.2]⟩
  have stepDown : ∀ {down : Option ν} {k : Nat} {z : Option μ} {s : Span},
      (∀ v ∈ down, B.Gone B.view.host.IsChild start k v) →
      B.copy.stepDown (down.map B.place) = .ok (z, s) →
      ∃ down', z = down'.map B.place ∧ B.view.stepDown down = .ok (down', s) := by
    intro down k z s hd h
    rw [B.stepDown_place fun v hv => (hd v hv).1] at h
    cases hs : B.view.stepDown down with
    | error e => simp [hs, Except.map] at h
    | ok x =>
      simp only [hs, Except.map, placed, Except.ok.injEq, Prod.mk.injEq] at h
      exact ⟨x.1, h.1.symm, by rw [← h.2]⟩
  -- Where a span is found or a walk goes on, not both walks are at their end, and there is fuel.
  have fueled : ∀ {up down : Option ν} {k fuel : Nat}, (up = none → down ≠ none) →
      (∀ v ∈ up, B.Gone B.view.host.HasParent start k v) →
      (∀ v ∈ down, B.Gone B.view.host.IsChild start k v) → B.view.host.size < k + fuel →
      ∃ fuel', fuel = fuel' + 1 := by
    intro up down k fuel hne hu hd hf
    have := Gone.either hu hd hne
    exact ⟨fuel - 1, by omega⟩
  induction h with
  | ends =>
    intro up down k fuel hy hz _ _ _
    obtain rfl := Option.map_eq_none_iff.1 hy.symm
    obtain rfl := Option.map_eq_none_iff.1 hz.symm
    exact View.spanAround_none
  | foundAbove hup hs =>
    rintro up down k fuel rfl rfl hu hd hf
    obtain ⟨up', -, hup'⟩ := stepUp hu hup
    have hne : up = none → down ≠ none := by
      rintro rfl
      cases hup'
      cases hs
    obtain ⟨fuel', rfl⟩ := fueled hne hu hd hf
    rw [View.spanAround_succ hne, hup']
    exact if_pos hs
  | foundBelow hup hs hdown hs' =>
    rintro up down k fuel rfl rfl hu hd hf
    obtain ⟨up', -, hup'⟩ := stepUp hu hup
    obtain ⟨down', -, hdown'⟩ := stepDown hd hdown
    have hne : up = none → down ≠ none := by
      rintro - rfl
      cases hdown'
      cases hs'
    obtain ⟨fuel', rfl⟩ := fueled hne hu hd hf
    rw [View.spanAround_succ hne, hup']
    simp only [bind, Except.bind, hs, Bool.false_eq_true, if_false, hdown']
    exact if_pos hs'
  | beyond hyz hup hs hdown hs' _ ih =>
    rintro up down k fuel rfl rfl hu hd hf
    obtain ⟨up', rfl, hup'⟩ := stepUp hu hup
    obtain ⟨down', rfl, hdown'⟩ := stepDown hd hdown
    have hne : up = none → down ≠ none := by
      rintro rfl rfl
      exact hyz rfl rfl
    obtain ⟨fuel', rfl⟩ := fueled hne hu hd hf
    rw [View.spanAround_succ hne, hup']
    simp only [bind, Except.bind, hs, Bool.false_eq_true, if_false, hdown', hs']
    exact ih rfl rfl (Gone.up hu hup') (Gone.down hd hdown') (by omega)

theorem borrowedSpan_of_borrows {v : ν} (hv : B.IsNode v) {strategy : Recovery} {s : Span}
    (h : B.copy.Borrows strategy (B.place v) s) : B.view.borrowedSpan strategy v = .ok s := by
  cases h with
  | fail => rfl
  | parent h => exact spanAbove_of_ahead hv h
  | child h => exact spanBelow_of_ahead hv h
  | parentFirst h hs =>
    rw [View.borrowedSpan, spanAbove_of_ahead hv h]
    exact if_pos hs
  | parentThenChild h hs ht =>
    simp only [View.borrowedSpan, spanAbove_of_ahead hv h, bind, Except.bind, hs, Bool.false_eq_true, if_false]
    exact spanBelow_of_ahead hv ht
  | childFirst h hs =>
    rw [View.borrowedSpan, spanBelow_of_ahead hv h]
    exact if_pos hs
  | childThenParent h hs ht =>
    simp only [View.borrowedSpan, spanBelow_of_ahead hv h, bind, Except.bind, hs, Bool.false_eq_true, if_false]
    exact spanAbove_of_ahead hv ht
  | alternate h =>
    refine spanAround_of_around v (k := 0) h rfl rfl ?_ ?_ (by simp [View.reach])
    · rintro _ ⟨⟩
      exact .first hv
    · rintro _ ⟨⟩
      exact .first hv

/-! ## Walks through a subtree -/

variable (B) in
/-- A walk in pre-order from `start`: the nodes it has seen, and those on top of subtrees it has yet to
go through. -/
structure Sweep (start : ν) (seen stack : List ν) : Prop where
  nodup : seen.Nodup
  apart : stack.Pairwise fun x y => ∀ z, B.view.host.Below x z → ¬ B.view.host.Below y z
  fresh : ∀ x ∈ stack, ∀ z ∈ seen, ¬ B.view.host.Below x z
  seen_inBoth : ∀ x ∈ seen, x = start ∨ B.InBoth x
  stack_inBoth : ∀ x ∈ stack, x = start ∨ B.InBoth x

theorem Sweep.first {start : ν} : B.Sweep start [] [start] :=
  ⟨by simp, by simp, by simp, by simp, by simp⟩

section
variable {start v : ν} {seen stack : List ν} (h : B.Sweep start seen (v :: stack))
include h

theorem Sweep.notMem : v ∉ seen :=
  fun hm => h.fresh v (by simp) v hm .refl

theorem Sweep.skip : B.Sweep start (v :: seen) stack where
  nodup := List.nodup_cons.2 ⟨h.notMem, h.nodup⟩
  apart := (List.pairwise_cons.1 h.apart).2
  fresh x hx z hz := by
    rcases List.mem_cons.1 hz with rfl | hz
    · exact (List.pairwise_cons.1 h.apart).1 x hx z .refl
    · exact h.fresh x (by simp [hx]) z hz
  seen_inBoth x hx := by
    rcases List.mem_cons.1 hx with rfl | hx
    · exact h.stack_inBoth x (by simp)
    · exact h.seen_inBoth x hx
  stack_inBoth x hx := h.stack_inBoth x (by simp [hx])

theorem Sweep.descend (hs : B.IsNode start) {cs : List ν}
    (hcs : ∀ i c, cs[i]? = some c → B.view.host.Lists v i c) : B.Sweep start (v :: seen) (cs ++ stack) := by
  have hv : B.IsNode v := by
    rcases h.stack_inBoth v (by simp) with rfl | hv
    · exact hs
    · exact hv.isNode
  have child : ∀ c ∈ cs, ∃ i, B.view.host.Lists v i c := by
    intro c hc
    obtain ⟨i, hi⟩ := List.mem_iff_getElem?.1 hc
    exact ⟨i, hcs i c hi⟩
  have hskip := h.skip
  refine ⟨hskip.nodup, ?_, ?_, hskip.seen_inBoth, ?_⟩
  · refine List.pairwise_append.2 ⟨?_, hskip.apart, ?_⟩
    · rw [List.pairwise_iff_getElem]
      intro i j hi hj hij z hz
      exact B.orderly.siblings_apart B.closed hv (hcs i _ (List.getElem?_eq_getElem hi))
        (hcs j _ (List.getElem?_eq_getElem hj)) (Nat.ne_of_lt hij) z hz
    · intro x hx y hy z hz
      obtain ⟨i, hi⟩ := child x hx
      exact (List.pairwise_cons.1 h.apart).1 y hy z (.head ⟨i, hi⟩ hz)
  · intro x hx z hz
    rcases List.mem_append.1 hx with hx | hx
    · obtain ⟨i, hi⟩ := child x hx
      rcases List.mem_cons.1 hz with rfl | hz
      · exact fun hxz => B.orderly.children z hv (TransGen.head' ⟨i, hi⟩ hxz)
      · exact fun hxz => h.fresh v (by simp) z hz (.head ⟨i, hi⟩ hxz)
    · exact hskip.fresh x hx z hz
  · intro x hx
    rcases List.mem_append.1 hx with hx | hx
    · obtain ⟨i, hi⟩ := child x hx
      exact .inr (inBoth_child hv hi)
    · exact hskip.stack_inBoth x hx

end

theorem Sweep.length_le {start : ν} {seen stack : List ν} (h : B.Sweep start seen stack) :
    seen.length ≤ B.view.host.size + 1 ∧ seen.length ≤ B.copy.host.size + 1 := by
  classical
  have hrest := length_le_sizes (B := B) (h.nodup.erase start) fun x hx =>
    (h.seen_inBoth x (List.mem_of_mem_erase hx)).resolve_left ((h.nodup.mem_erase_iff).1 hx).1
  have hlen : seen.length ≤ (seen.erase start).length + 1 := by
    rw [List.length_erase]
    split <;> omega
  omega

end Rebuild

end Waymark
