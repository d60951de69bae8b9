import Waymark.Proofs.Snapshot.History
import Waymark.Proofs.View.Refine.Follow

/-!
# Snapshots of a tree and of a rebuilt one agree

Neither the numbering of nodes and types nor what was asked before shows in the results of requests:
both sides tell what the view says.
-/

namespace Waymark

open Op Snapshot

variable {ν μ : Type}

inductive Agree {α β : Type} (R : α → β → Prop) : Except Fault α → Except Fault β → Prop where
  | ok {a : α} {b : β} (h : R a b) : Agree R (.ok a) (.ok b)
  | error (e : Fault) : Agree R (.error e) (.error e)

theorem Agree.eq {α : Type} {x y : Except Fault α} (h : Agree (· = ·) x y) : x = y := by
  cases h with
  | ok h => rw [h]
  | error e => rfl

theorem Agree.exists_ok {α β : Type} {R : α → β → Prop} {x : Except Fault α} {y : Except Fault β} {b : β}
    (h : Agree R x y) (hy : y = .ok b) : ∃ a, x = .ok a ∧ R a b := by
  subst hy
  cases h with
  | ok h => exact ⟨_, rfl, h⟩

theorem exists_of_map_eq_ok {ε α β : Type} {x : Except ε α} {f : α → β} {b : β} (h : x.map f = .ok b) :
    ∃ a, x = .ok a ∧ f a = b := by
  cases x with
  | error e => cases h
  | ok a => exact ⟨a, rfl, Except.ok.inj h⟩

/-- Two sides that agree with a third one. -/
theorem Agree.meet {α β γ : Type} {R : α → γ → Prop} {R' : β → γ → Prop} {S : α → β → Prop}
    {x : Except Fault α} {y : Except Fault β} {r : Except Fault γ} (h : Agree R x r) (h' : Agree R' y r)
    (hS : ∀ a b c, R a c → R' b c → S a b) : Agree S x y := by
  cases h with
  | error e =>
    cases h'
    exact .error e
  | ok hx =>
    cases h' with
    | ok hy => exact .ok (hS _ _ _ hx hy)

namespace Rebuild

variable (B : Rebuild ν μ)

/-! ## Results -/

def SameNode (n : Node ν) (m : Node μ) : Prop := B.IsNode n.host ∧ m.host = B.place n.host

structure SameResolved (r : Resolved ν) (r' : Resolved μ) : Prop where
  node : B.SameNode r.node r'.node
  span : r.span = r'.span
  locator : r.locator = r'.locator

structure SameListedNode (e : ListedNode ν) (e' : ListedNode μ) : Prop where
  type : e.type = e'.type
  label : e.label = e'.label
  span : e.span = e'.span
  locator : e.locator = e'.locator
  node : B.SameNode e.node e'.node

structure SameNodeListing (l : NodeListing ν) (l' : NodeListing μ) : Prop where
  nodes : List.Forall₂ B.SameListedNode l.nodes l'.nodes
  diagnostics : l.diagnostics = l'.diagnostics

/-! ## Every history -/

variable {B}

theorem of_history [DecidableEq μ] {t : Snapshot μ} (h : t.History B.copy.host B.copy.root)
    (hc : t.config = B.copy.config) : t.Of B.copy B.Kept := by
  have hof := h.of_all
  rwa [hc] at hof

variable (B) in
def self : Rebuild ν ν := refl B.view B.IsNode B.closed B.orderly B.isNode_root

/-- What the operation ends with is what the view says. -/
theorem Fits.agree {α γ : Type} {t : Snapshot μ} (ht : t.Of B.copy B.Kept) {op : Op μ α}
    {r : Except Fault γ} {R : Snapshot μ → α → γ → Prop} (h : B.Fits t op r R) :
    Agree (R (op.exec B.copy.host t).2) (op.exec B.copy.host t).1 r := by
  obtain ⟨-, -, hends⟩ := h t (le_refl t) ht
  revert hends
  generalize op.exec B.copy.host t = run
  obtain ⟨_ | a, x⟩ := run
  · rintro rfl
    exact .error _
  · rintro ⟨c, rfl, hc⟩
    exact .ok hc

theorem Fits.after {α γ : Type} {t : Snapshot μ} (ht : t.Of B.copy B.Kept) {op : Op μ α}
    {r : Except Fault γ} {R : Snapshot μ → α → γ → Prop} (h : B.Fits t op r R) :
    (op.exec B.copy.host t).2.Of B.copy B.Kept :=
  (h t (le_refl t) ht).2.1

theorem agree_of_fits {α β γ : Type} {s : Snapshot ν} {t : Snapshot μ} (hs : s.Of B.view B.self.Kept)
    (ht : t.Of B.copy B.Kept) {op : Op ν α} {op' : Op μ β} {r : Except Fault γ}
    {R : Snapshot ν → α → γ → Prop} {R' : Snapshot μ → β → γ → Prop} {S : α → β → Prop}
    (h : B.self.Fits s op r R) (h' : B.Fits t op' r R')
    (hS : ∀ x y a b c, R x a c → R' y b c → S a b) :
    Agree S (op.exec B.view.host s).1 (op'.exec B.copy.host t).1 := by
  have hleft : Agree (R (op.exec B.view.host s).2) (op.exec B.view.host s).1 r := h.agree hs
  exact hleft.meet (h'.agree ht) fun a b c => hS _ _ a b c

/-! ## Through the view -/

theorem sameNode_of_stands {s : Snapshot ν} {t : Snapshot μ} {n : Node ν} {m : Node μ} {v : ν}
    (hn : B.self.Stands s n v) (hm : B.Stands t m v) : B.SameNode n m := by
  have hv : n.host = v := hn.host
  rw [SameNode, hv]
  exact ⟨hm.2, hm.host⟩

theorem sameNode_of_rel {s : Snapshot ν} {t : Snapshot μ} {o : Option (Node ν)} {o' : Option (Node μ)}
    {p : Option ν} (h : Option.Rel (B.self.Stands s) o p) (h' : Option.Rel (B.Stands t) o' p) :
    Option.Rel B.SameNode o o' := by
  cases h with
  | none =>
    cases h'
    exact .none
  | some h =>
    cases h' with
    | some h' => exact .some (sameNode_of_stands h h')

theorem sameResolved_of_rel {s : Snapshot ν} {t : Snapshot μ} {o : Option (Resolved ν)}
    {o' : Option (Resolved μ)} {p : Option (View.Resolution ν)} (h : Option.Rel (B.self.SameResolution s) o p)
    (h' : Option.Rel (B.SameResolution t) o' p) : Option.Rel B.SameResolved o o' := by
  cases h with
  | none =>
    cases h'
    exact .none
  | some h =>
    cases h' with
    | some h' =>
      exact .some ⟨sameNode_of_stands h.node h'.node, h.span.trans h'.span.symm,
        h.locator.trans h'.locator.symm⟩

theorem sameListedNodes_of_forall₂ {s : Snapshot ν} {t : Snapshot μ} : ∀ {es : List (ListedNode ν)}
    {es' : List (ListedNode μ)} {fs : List (View.Entry ν)}, List.Forall₂ (B.self.SameEntry s) es fs →
    List.Forall₂ (B.SameEntry t) es' fs → List.Forall₂ B.SameListedNode es es'
  | _, _, _, .nil, .nil => .nil
  | _, _, _, .cons h hs, .cons h' hs' =>
    .cons ⟨h.type.trans h'.type.symm, h.label.trans h'.label.symm, h.span.trans h'.span.symm,
      h.locator.trans h'.locator.symm, sameNode_of_stands h.node h'.node⟩
      (sameListedNodes_of_forall₂ hs hs')

/-- Requests on snapshots of a tree and of a rebuilt one have the same results, up to the handles and the
numbers of nodes, whatever the two snapshots were asked before. A change of the position convention or of the
identification style is no part of a `History`: after it, the results may differ. -/
theorem requests_agree [DecidableEq ν] [DecidableEq μ] (B : Rebuild ν μ) (s : Snapshot ν)
    (t : Snapshot μ) (hs : s.History B.view.host B.view.root) (ht : t.History B.copy.host B.copy.root)
    (hsc : s.config = B.view.config) (htc : t.config = B.copy.config) :
    (∀ n m, s.Knows n → t.Knows m → B.SameNode n m →
      ((locate n).exec B.view.host s).1 = ((locate m).exec B.copy.host t).1) ∧
    (∀ steps, Agree (Option.Rel B.SameNode) ((resolveSteps steps).exec B.view.host s).1
      ((resolveSteps steps).exec B.copy.host t).1) ∧
    (∀ l, Agree (Option.Rel B.SameResolved) ((resolve l).exec B.view.host s).1
      ((resolve l).exec B.copy.host t).1) ∧
    (∀ p, Agree B.SameNodeListing ((nodesAt p).exec B.view.host s).1
      ((nodesAt p).exec B.copy.host t).1) ∧
    ∀ l levels, ((subtree l levels).exec B.view.host s).1 = ((subtree l levels).exec B.copy.host t).1 := by
  have hs' : s.Of B.view B.self.Kept := of_history (B := B.self) hs hsc
  have ht' : t.Of B.copy B.Kept := of_history ht htc
  refine ⟨fun n m hn hm hnm => ?_, fun steps => ?_, fun l => ?_, fun p => ?_, fun l levels => ?_⟩
  · have hstands : B.self.Stands s n n.host := ⟨⟨hn, rfl⟩, hnm.1⟩
    have hstands' : B.Stands t m n.host := ⟨⟨hm, hnm.2⟩, hnm.1⟩
    refine Agree.eq (agree_of_fits hs' ht' (fits_locate hstands) (fits_locate hstands') ?_)
    rintro _ _ a b c rfl rfl
    rfl
  · exact agree_of_fits hs' ht' (fits_resolveSteps steps) (fits_resolveSteps steps)
      fun _ _ _ _ _ h h' => sameNode_of_rel h h'
  · exact agree_of_fits hs' ht' (fits_resolve l) (fits_resolve l)
      fun _ _ _ _ _ h h' => sameResolved_of_rel h h'
  · refine agree_of_fits hs' ht' (fits_nodesAt p) (fits_nodesAt p) fun _ _ a b c h h' => ?_
    exact ⟨sameListedNodes_of_forall₂ h.nodes h'.nodes, h.diagnostics.trans h'.diagnostics.symm⟩
  · refine Agree.eq (agree_of_fits hs' ht' (fits_subtree l levels) (fits_subtree l levels) ?_)
    rintro _ _ a b c rfl rfl
    rfl

/-! ## Two leaves in one place, and the same with numbers for handles -/

def numberedTwins : Host Nat where
  size := 3
  childCount n := .ok (if n = 7 then 2 else 0)
  child _ i := .ok (if i = 0 then 3 else 4)
  parent n := .ok (if n = 7 then none else some 7)
  typeName n := if n = 7 then "Root" else "Leaf"
  packedSpan n := some (if n = 7 then ⟨1, 9⟩ else ⟨2, 3⟩)
  label n := if n = 7 then none else some (if n = 3 then "a" else "b")
  bounded := by
    refine ⟨[3, 4, 7], by simp, fun n h => ?_⟩
    cases h with
    | child h =>
      rw [Except.ok.injEq] at h
      split at h <;> simp [← h]
    | parent h =>
      rw [Except.ok.injEq] at h
      split at h
      · cases h
      · simp [← Option.some.inj h]
    | argument h => simp at h
    | result h => simp at h

def numberOf : Option Bool → Nat
  | none => 7
  | some true => 3
  | some false => 4

def numbering : Rebuild (Option Bool) Nat where
  view := ⟨twins, { identify := .label }, none⟩
  copy := ⟨numberedTwins, { identify := .label }, 7⟩
  IsNode _ := True
  place := numberOf
  closed := closed_twins
  orderly := orderly_twins
  config := rfl
  isNode_root := trivial
  root := rfl
  place_inj u v _ _ h := by rcases u with _ | _ | _ <;> rcases v with _ | _ | _ <;> simp_all [numberOf]
  childCount v _ := by rcases v with _ | _ | _ <;> rfl
  child v _ i _ _ _ := by
    show Except.ok (if i = 0 then 3 else 4) = Except.ok (numberOf (some (decide (i = 0))))
    by_cases hi : i = 0 <;> simp [hi, numberOf]
  parent v _ := by rcases v with _ | _ | _ <;> rfl
  typeName v _ := by rcases v with _ | _ | _ <;> rfl
  packedSpan v _ := by rcases v with _ | _ | _ <;> rfl
  lineColumns _ _ := rfl
  label v _ := by rcases v with _ | _ | _ <;> rfl
  visible _ _ := rfl
  external _ _ := rfl
  searchRoot := rfl
  supports _ _ := rfl
  origin _ _ _ _ := rfl
  invoke _ _ _ _ _ := rfl

/-- Reset from another root, then asked for a child that is not there. -/
def numberedAsked : Except Fault Unit × Snapshot Nat :=
  (Request.child 7 5).op.exec numberedTwins
    ((ofRoot { identify := .label } numberedTwins 3).reset numberedTwins 7)

def leavesAsked : Snapshot Nat :=
  ((Request.key 3).op.exec numberedTwins ((Request.rawSpan 4).op.exec numberedTwins numberedAsked.2).2).2

def leafLocator : Locator := { result := firstLeaf, steps := [.nearest firstLeaf] }

/-- What the numbers answer is what the other handles answer: the locator of the first leaf, where it leads,
what there is at its position, and its subtree. -/
theorem requests_agree_numbered :
    numberedAsked.1 = .error (.childOutOfRange 5 2) ∧
      ((locate ⟨1, some true⟩).exec twins labelled).1 = .ok (some leafLocator) ∧
      (∃ n, ((resolveSteps leafLocator.steps).exec twins labelled).1 = .ok (some n) ∧ n.host = some true) ∧
      (∃ r, ((resolve leafLocator).exec twins labelled).1 = .ok (some r) ∧
        r.node.host = some true ∧ r.locator = leafLocator) ∧
      (∃ listing, ((nodesAt 2).exec twins labelled).1 = .ok listing ∧
        listing.nodes.map (·.label) = [some "a", some "b", none]) ∧
      ((subtree leafLocator 1).exec twins labelled).1 =
        ((subtree leafLocator 1).exec numberedTwins leavesAsked).1 := by
  have hs : labelled.History twins none :=
    (History.fresh { identify := .label }).request (.node (some true))
  have ht : leavesAsked.History numberedTwins 7 :=
    (((History.reset _).request (.child 7 5)).request (.rawSpan 4)).request (.key 3)
  have leaf : labelled.handle? 1 = some (some true) := by cbv
  have leaf' : leavesAsked.handle? 2 = some 3 := by cbv
  have hlocator : ((locate ⟨2, 3⟩).exec numberedTwins leavesAsked).1 = .ok (some leafLocator) := by
    decide +kernel
  have hsteps : ((resolveSteps leafLocator.steps).exec numberedTwins leavesAsked).1 = .ok (some ⟨2, 3⟩) := by
    decide +kernel
  have hresolve : ((resolve leafLocator).exec numberedTwins leavesAsked).1.map
      (Option.map fun r => (r.node, r.locator)) = .ok (some (⟨2, 3⟩, leafLocator)) := by decide +kernel
  have hlisting : ((nodesAt 2).exec numberedTwins leavesAsked).1.map (fun l => l.nodes.map (·.label)) =
      .ok [some "a", some "b", none] := by cbv
  have first : ∀ n : Node (Option Bool), numbering.SameNode n ⟨2, 3⟩ → n.host = some true := by
    intro n h
    exact numbering.place_inj n.host (some true) trivial trivial h.2.symm
  obtain ⟨alocate, asteps, aresolve, alisting, asubtree⟩ := requests_agree numbering labelled leavesAsked hs ht
    (by cbv) (by cbv)
  refine ⟨by cbv, ?_, ?_, ?_, ?_, asubtree leafLocator 1⟩
  · exact (alocate ⟨1, some true⟩ ⟨2, 3⟩ leaf leaf' ⟨trivial, rfl⟩).trans hlocator
  · obtain ⟨o, ho, hrel⟩ := (asteps leafLocator.steps).exists_ok hsteps
    cases hrel with
    | some h => exact ⟨_, ho, first _ h⟩
  · obtain ⟨o', ho', hmap⟩ := exists_of_map_eq_ok hresolve
    obtain ⟨o, ho, hrel⟩ := (aresolve leafLocator).exists_ok ho'
    cases hrel with
    | none => cases hmap
    | some h =>
      obtain ⟨hnode, hloc⟩ := Prod.mk.inj (Option.some.inj hmap)
      exact ⟨_, ho, first _ (hnode ▸ h.node), h.locator.trans hloc⟩
  · obtain ⟨l', hl', hmap⟩ := exists_of_map_eq_ok hlisting
    obtain ⟨l, hl, hrel⟩ := (alisting 2).exists_ok hl'
    refine ⟨l, hl, ?_⟩
    rw [← hmap, ← List.forall₂_eq_eq_eq, List.forall₂_map_left_iff, List.forall₂_map_right_iff]
    exact hrel.nodes.imp fun _ _ h => h.label

end Rebuild

end Waymark
