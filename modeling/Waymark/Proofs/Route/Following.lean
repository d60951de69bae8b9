import Waymark.Listing.AtPosition
import Waymark.Listing.Subtree
import Waymark.Proofs.Route.Locating

/-!
# What following and listing keep and tell

The rest of the operations, judged in the same way. A listing at a position ends only if no way down that
stays at the position goes on for ever.
-/

namespace Waymark

variable {ν : Type}

def View.Opens (w : View ν) (p : Position) (v c : ν) : Prop :=
  w.isElsewhere p v = false ∧ w.host.IsChild v c

namespace Op

open Snapshot

variable [DecidableEq ν] {w : View ν} {K : Scope w.host} {E : Fault → Prop} {s₀ : Snapshot ν} {n : Node ν}

/-! ## Following -/

theorem keeps_invoke (hE : Excuses w.host K E) (n : Node ν) (name : String) (args : List (Value ν)) :
    Keeps w K E s₀ (invoke n name args) (fun s a => ∀ m ∈ a, s.Knows m) := by
  refine Meets.asked_bind silent_of (Meets.read_bind (Meets.answer_bind (fun result hr => ?_) fun m hm => ?_))
  · cases result with
    | some v =>
      refine Meets.bind (intern_tells (K.mentioned v (.result hr))).sure fun s m _ _ hm => ?_
      refine Meets.pure fun t ht _ => ?_
      rintro _ ⟨⟩
      exact hm.1.mono ht
    | none =>
      refine Meets.read_bind ?_
      cases w.host.missed with
      | none => exact Meets.pure fun _ _ _ => nofun
      | some text => exact Meets.typeName_bind (Keeps.note_bind (Meets.pure fun _ _ _ => nofun))
  · exact hE.failed m (.invoke hm)

mutual

theorem keeps_follow (hE : Excuses w.host K E) : ∀ (step : Step) {s₀ : Snapshot ν} {n : Node ν},
    s₀.Knows n → Keeps w K E s₀ (follow n step) (fun s a => ∀ m ∈ a, s.Knows m)
  | .child index, s₀, n, hn => by
    rw [follow]
    refine (keeps_childCount (hE.children _) hn).bind fun s count hs _ hcount => ?_
    by_cases hlt : index.toNat < count
    · rw [if_pos hlt]
      refine (keeps_child (hE.children _) (hn.mono hs) hcount hlt).bind fun t c _ _ hc => Meets.pure fun u hu _ => ?_
      rintro _ ⟨⟩
      exact hc.2.mono hu
    · rw [if_neg hlt]
      exact Meets.pure fun _ _ _ => nofun
  | .nearest f, s₀, n, hn => by
    rw [follow]
    refine (keeps_targetOf f).bind fun s target hs _ _ => ?_
    refine (keeps_bestMatch hE (hn.mono hs) target false none).bind fun t m _ _ hm => ?_
    exact Meets.pure fun u hu _ x hx => (hm x hx).mono hu
  | .derived ⟨name, args⟩, s₀, n, hn => by
    rw [follow]
    refine (keeps_decodeArgs hE args).bind fun s values _ _ _ => ?_
    cases values with
    | some values => exact keeps_invoke hE n name values
    | none => exact Meets.pure fun _ _ _ => nofun

theorem keeps_followAll (hE : Excuses w.host K E) : ∀ (steps : List Step) {s₀ : Snapshot ν} {n : Node ν},
    s₀.Knows n → Keeps w K E s₀ (followAll n steps) (fun s a => ∀ m ∈ a, s.Knows m)
  | [], s₀, n, hn => by
    rw [followAll]
    refine Meets.pure fun s hs _ => ?_
    rintro _ ⟨⟩
    exact hn.mono hs
  | step :: steps, s₀, n, hn => by
    rw [followAll]
    refine (keeps_follow hE step hn).bind fun s m _ _ hm => ?_
    cases m with
    | some m => exact keeps_followAll hE steps (hm m rfl)
    | none => exact Meets.typeName_bind (Keeps.note_bind (Meets.pure fun _ _ _ => nofun))

theorem keeps_decodeArg (hE : Excuses w.host K E) : ∀ (a : Arg) {s₀ : Snapshot ν},
    Keeps w K E s₀ (decodeArg a) (fun _ _ => True)
  | .string _, _ | .integer _, _ | .bool _, _ | .stream _, _ | .any, _ | .node none, _ => by
    rw [decodeArg]
    exact Meets.pure fun _ _ _ => trivial
  | .node (some ⟨_, steps⟩), _ => by
    rw [decodeArg]
    refine Meets.get_bind fun s _ hi => (keeps_followAll hE steps hi.sound.root).bind fun _ _ _ _ _ => ?_
    exact Meets.pure fun _ _ _ => trivial
  | .collection items, _ => by
    rw [decodeArg]
    exact (keeps_decodeArgs hE items).bind fun _ _ _ _ _ => Meets.pure fun _ _ _ => trivial

theorem keeps_decodeArgs (hE : Excuses w.host K E) : ∀ (as : List Arg) {s₀ : Snapshot ν},
    Keeps w K E s₀ (decodeArgs as) (fun _ _ => True)
  | [], _ => by
    rw [decodeArgs]
    exact Meets.pure fun _ _ _ => trivial
  | a :: as, _ => by
    rw [decodeArgs]
    refine (keeps_decodeArg hE a).bind fun s v _ _ _ => ?_
    cases v with
    | some v => exact (keeps_decodeArgs hE as).bind fun _ _ _ _ _ => Meets.pure fun _ _ _ => trivial
    | none => exact Meets.pure fun _ _ _ => trivial

end

section
variable (hE : Excuses w.host K E)
include hE

theorem keeps_resolveSteps (steps : List Step) :
    Keeps w K E s₀ (resolveSteps steps) (fun s a => ∀ m ∈ a, s.Knows m) :=
  Meets.get_bind fun _ _ hi => keeps_followAll hE steps hi.sound.root

theorem keeps_resolve (l : Locator) :
    Keeps w K E s₀ (resolve l) (fun s a => ∀ r ∈ a, s.Knows r.node) := by
  refine (keeps_resolveSteps hE l.steps).bind fun s m _ _ hm => ?_
  cases m with
  | none => exact Keeps.note_bind (Meets.pure fun _ _ _ => nofun)
  | some m =>
    have hk := hm m rfl
    refine (keeps_span hE hk).bind fun t span ht _ _ => ?_
    refine (keeps_locate hE (hk.mono ht)).bind fun u l' hu _ _ => ?_
    have hk' := (hk.mono ht).mono hu
    cases l' with
    | some l' =>
      refine Meets.pure fun x hx _ => ?_
      rintro _ ⟨⟩
      exact hk'.mono hx
    | none =>
      refine Meets.typeName_bind (Keeps.note_bind (Meets.pure fun x hx _ => ?_))
      rintro _ ⟨⟩
      exact hk'.mono hx

theorem keeps_resolveOrReport (l : Locator) :
    Keeps w K E s₀ (resolveOrReport l) (fun _ _ => True) := by
  refine (keeps_resolve hE l).bind fun s r _ _ _ => ?_
  cases r with
  | some r => exact Meets.pure fun _ _ _ => trivial
  | none => exact Meets.pure fun _ _ _ => trivial

/-! ## Listing at a position -/

theorem keeps_isHit (hn : s₀.Knows n) (p : Position) :
    Keeps w K E s₀ (isHit p n) (fun _ _ => True) := by
  refine (keeps_span hE hn).bind fun s span hs _ _ => ?_
  split
  · exact Meets.mono (isVisible_tells (hn.mono hs)).sure (fun _ _ _ _ _ => trivial) fun _ h => h
  · exact Meets.pure fun _ _ _ => trivial

/-- The hits are nodes of the snapshot, and below what was on the stack the walk came to an end. -/
theorem keeps_hitsFrom (p : Position) {start : ν} : ∀ (fuel : Nat) {s₀ : Snapshot ν}
    {seen ways : List (List Nat × Node ν)}, Sweeps w.host s₀ start seen ways → seen.length ≤ s₀.size →
    Enough K E (seen.length + fuel) →
    Keeps w K E s₀ (hitsFrom p fuel seen.length (stackOf ways)) (fun s hits =>
      (∀ x ∈ hits, s.Knows x.1) ∧ ∀ x ∈ ways, Acc (fun c v => w.Opens p v c) x.2.host)
  | fuel, s₀, seen, [], _, _, _ => by
    rw [stackOf, List.map_nil, hitsFrom]
    exact Meets.pure fun _ _ _ => ⟨by simp, by simp⟩
  | 0, _, _, _ :: _, _, hle, hk => Keeps.endless hk fun _ hs _ => Nat.le_trans hle (size_mono hs)
  | fuel + 1, s₀, seen, (path, n) :: ways, hw, _, hk => by
    have hn : s₀.Knows n := hw.knows (path, n) (by simp)
    have hk' : Enough K E (((path, n) :: seen).length + fuel) := hk.more (by simp; omega)
    refine Keeps.boundWalk_bind (fun s type hs hlt => hE.tangled type (.inr ((hw.mono hs).visit.meetsTwice hlt))) ?_
    intro s hs _ hle
    refine (keeps_isElsewhere (hn.mono hs) p).bind ?_
    rintro t _ ht - rfl
    have hst := le_trans hs ht
    by_cases hels : w.isElsewhere p n.host = true
    · rw [if_pos hels]
      refine (keeps_hitsFrom p fuel (hw.mono hst).pass (Nat.le_trans hle (size_mono ht)) hk').mono ?_
        fun _ h => h
      rintro u hits - - ⟨hhits, hacc⟩
      refine ⟨hhits, List.forall_mem_cons.2 ⟨Acc.intro _ fun c hc => ?_, hacc⟩⟩
      cases hels.symm.trans hc.1
    · rw [if_neg hels]
      refine (keeps_isHit hE (hn.mono hst) p).bind fun u hit hu _ _ => ?_
      refine keeps_descend (hE.children _) (hw.mono (le_trans hst hu)) fun x cs hx hcount hcs hw' => ?_
      refine (keeps_hitsFrom p fuel hw' (Nat.le_trans hle (size_mono (le_trans ht (le_trans hu hx)))) hk').bind ?_
      rintro y more hy - ⟨hmore, hacc⟩
      refine Meets.pure fun z hz _ => ⟨?_, List.forall_mem_cons.2 ⟨Acc.intro _ fun c hc => ?_, fun x' hx' => ?_⟩⟩
      · have hn' := hn.mono (le_trans hst (le_trans hu (le_trans hx (le_trans hy hz))))
        split
        · exact List.forall_mem_cons.2 ⟨hn', fun a ha => (hmore a ha).mono hz⟩
        · exact fun a ha => (hmore a ha).mono hz
      · obtain ⟨-, i, hi⟩ := hc
        have hlt : i < cs.length := by
          obtain ⟨count, hcount', hlt, -⟩ := hi
          cases hcount.symm.trans hcount'
          exact hlt
        have hget : cs[i]? = some cs[i] := List.getElem?_eq_getElem hlt
        rw [lists_unique hi (hcs i _ hget).1]
        exact hacc (i :: path, cs[i]) (List.mem_append_left _ (mem_waysTo.2 ⟨i, hget, rfl⟩))
      · exact hacc x' (List.mem_append_right _ hx')

theorem keeps_listed (hn : s₀.Knows n) : Keeps w K E s₀ (listed n) (fun _ _ => True) := by
  refine (keeps_span hE hn).bind fun s span hs _ _ => ?_
  refine (keeps_locate hE (hn.mono hs)).bind fun t l ht _ _ => ?_
  cases l with
  | some l =>
    refine Meets.typeName_bind (Meets.bind (label_tells (hn.mono (le_trans hs ht))).sure fun _ _ _ _ _ => ?_)
    exact Meets.pure fun _ _ _ => trivial
  | none => exact Meets.typeName_bind (Keeps.note_bind (Meets.pure fun _ _ _ => trivial))

theorem keeps_nodesWithin {k : Nat} (hk : Enough K E k) (p : Position) :
    Keeps w K E s₀ (nodesWithin k p) (fun _ _ => Acc (fun c v => w.Opens p v c) w.root) := by
  refine Meets.get_bind fun s _ hi => ?_
  refine (keeps_hitsFrom hE p k (.first hi.sound.root) (Nat.zero_le _) (hk.more (by simp))).bind ?_
  intro t hits ht _ ⟨hhits, hacc⟩
  refine Meets.bind (Q := fun _ _ => True) (Meets.mono (Keeps.mapM_mem (R := fun _ _ => True)
    (fun _ _ _ _ _ => trivial) _ fun h hh u hu => ?_) (fun _ _ _ _ _ => trivial) fun _ h => h) ?_
  · exact keeps_listed hE ((hhits h ((List.mergeSort_perm _ _).mem_iff.1 hh)).mono hu)
  · refine fun _ _ _ _ _ => Meets.pure fun _ _ _ => ?_
    rw [← hi.root]
    exact hacc ([], s.root) (by simp)

theorem keeps_nodesAt (p : Position) :
    Keeps w K E s₀ (nodesAt p) (fun _ _ => Acc (fun c v => w.Opens p v c) w.root) :=
  Keeps.reach_bind hE.enough fun _ hk => keeps_nodesWithin hE hk p

/-! ## Listing a subtree -/

theorem keeps_listEach {list : Node ν → Option Locator → Op ν (ListedTree × List Diagnostic)}
    (hl : ∀ (s : Snapshot ν) c l, s.Knows c → Keeps w K E s (list c l) (fun _ _ => True)) :
    ∀ (cs : List (Node ν)) {s₀ : Snapshot ν}, (∀ c ∈ cs, s₀.Knows c) →
      Keeps w K E s₀ (listEach list cs) (fun _ _ => True)
  | [], _, _ => Meets.pure fun _ _ _ => trivial
  | c :: cs, s₀, hcs => by
    have hc := hcs c (by simp)
    refine (keeps_locate hE hc).bind fun s l hs _ _ => (hl s c l (hc.mono hs)).bind fun t _ ht _ _ => ?_
    refine (keeps_listEach hl cs fun x hx => (hcs x (by simp [hx])).mono (le_trans hs ht)).bind ?_
    exact fun _ _ _ _ _ => Meets.pure fun _ _ _ => trivial

theorem keeps_listBelow : ∀ (levels : Nat) {s₀ : Snapshot ν} {n : Node ν} (l : Option Locator),
    s₀.Knows n → Keeps w K E s₀ (listBelow levels n l) (fun _ _ => True) := by
  have finish : ∀ (t : Snapshot ν) n (g : String → Option String → ListedTree × List Diagnostic),
      t.Knows n → Keeps w K E t (do pure (g (← typeName n) (← label n))) (fun _ _ => True) := by
    intro t n g hn
    refine Meets.typeName_bind (Meets.bind (label_tells hn).sure fun _ _ _ _ _ => ?_)
    exact Meets.pure fun _ _ _ => trivial
  intro levels
  induction levels with
  | zero =>
    intro s₀ n l hn
    rw [listBelow]
    refine (keeps_span hE hn).bind fun s span hs _ _ => ?_
    refine (keeps_childCount (hE.children _) (hn.mono hs)).bind fun t count ht _ _ => ?_
    dsimp only
    refine Meets.bind (Q := fun _ _ => True) (Meets.pure fun _ _ _ => trivial) ?_
    rintro u ⟨below, more⟩ hu - -
    exact finish u n _ (hn.mono (le_trans hs (le_trans ht hu)))
  | succ levels ih =>
    intro s₀ n l hn
    rw [listBelow]
    refine (keeps_span hE hn).bind fun s span hs _ _ => ?_
    refine (keeps_childCount (hE.children _) (hn.mono hs)).bind fun t count ht _ _ => ?_
    have hn' := hn.mono (le_trans hs ht)
    refine (keeps_children (hE.children _) hn').bind fun u cs hu _ hcs => ?_
    refine (keeps_listEach hE (fun s c l hc => ih l hc) cs fun c hc => (hcs c hc).2).bind ?_
    rintro x ⟨trees, more⟩ hx - -
    refine Meets.bind (Q := fun _ _ => True) (Meets.pure fun _ _ _ => trivial) ?_
    rintro y ⟨below, more⟩ hy - -
    exact finish y n _ (hn'.mono (le_trans hu (le_trans hx hy)))

theorem keeps_subtree (l : Locator) (levels : Nat) :
    Keeps w K E s₀ (subtree l levels) (fun _ _ => True) := by
  refine (keeps_resolve hE l).bind fun s r _ _ hr => ?_
  cases r with
  | none => exact Meets.pure fun _ _ _ => trivial
  | some r =>
    refine (keeps_listBelow hE levels _ (hr r rfl)).bind fun _ _ _ _ _ => ?_
    exact Meets.pure fun _ _ _ => trivial

end

end Op

end Waymark
