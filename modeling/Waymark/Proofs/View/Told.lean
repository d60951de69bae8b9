import Waymark.Proofs.Snapshot.BestMatch
import Waymark.Proofs.View.Agreement

/-!
# Locating that does not fail

On a host that tells all about its nodes, and where no walk comes back to where it was, no span and no
search fails. If moreover each node but the root is entered from another one, every node has a route, and
so it has a locator. A node that is entered from nowhere has none.
-/

namespace Waymark

open Relation Op Snapshot

variable {ν : Type}

def Gives {α : Type} (r : Except Fault α) (P : α → Prop) : Prop := ∃ a, r = .ok a ∧ P a

namespace Gives

variable {α β : Type} {r : Except Fault α} {f : α → Except Fault β} {P P' : α → Prop} {Q : β → Prop}

theorem pure {a : α} (h : P a) : Gives (Pure.pure a) P := ⟨a, rfl, h⟩

theorem mono (h : Gives r P) (hP : ∀ a, P a → P' a) : Gives r P' := by
  obtain ⟨a, ha, h⟩ := h
  exact ⟨a, ha, hP a h⟩

theorem bind (h : Gives r P) (hf : ∀ a, P a → Gives (f a) Q) : Gives (r >>= f) Q := by
  obtain ⟨a, rfl, ha⟩ := h
  exact hf a ha

theorem mapM {γ : Type} {g : γ → Except Fault α} : ∀ {cs : List γ}, (∀ c ∈ cs, Gives (g c) P) →
    Gives (cs.mapM g) (fun as => ∀ a ∈ as, P a)
  | [], _ => pure (by simp)
  | c :: cs, h => by
    rw [List.mapM_cons]
    refine (h c (by simp)).bind fun a ha => ?_
    refine (mapM fun x hx => h x (by simp [hx])).bind fun as has => pure ?_
    exact List.forall_mem_cons.2 ⟨ha, has⟩

end Gives

theorem Agree.gives {α β : Type} {R : α → β → Prop} {x : Except Fault α} {y : Except Fault β}
    (h : Agree R x y) {P : α → Prop} (hx : Gives x P) : Gives y fun b => ∃ a, P a ∧ R a b := by
  obtain ⟨a, rfl, ha⟩ := hx
  cases h with
  | ok h => exact ⟨_, rfl, a, ha, h⟩

namespace Host

variable {host : Host ν} {N : ν → Prop}

/-- The nodes in `N` form trees that are told in full, and no call needs what needs the call. -/
structure RootedForest (host : Host ν) (root : ν) (N : ν → Prop) : Prop where
  grown : host.Grown N
  closed : host.Closed N
  isNode_root : N root
  arguments : ∀ v, N v → Acc (fun m u => host.Needs u m) v

/-- The nodes in `M` are entered from each other, up to the root, and calls have no other arguments. -/
structure Entered (host : Host ν) (root : ν) (M : ν → Prop) : Prop where
  top : ∀ v, M v → host.parent v = .ok none → v = root
  enters : ∀ v p, M v → host.HasParent v p → ∃ u o, host.Enters v u o
  source : ∀ v u o, M v → host.Enters v u o → M u
  arguments : ∀ v u o, M v → host.Enters v u (some o) → ∀ m ∈ Value.nodesList o.args, M m

end Host

namespace View

variable {w : View ν} {N : ν → Prop}

def ofForest (ht : w.host.RootedForest w.root N) : Rebuild ν ν :=
  Rebuild.refl w N ht.closed (ht.grown.orderly ht.arguments) ht.isNode_root

/-! ## Nodes, spans and searches -/

section
variable (hg : w.host.Grown N) {v : ν} (hv : N v)
include hg hv

theorem childCount_gives : Gives (w.childCount v) fun count => w.host.childCount v = .ok count := by
  obtain ⟨count, h⟩ := hg.childCount v hv
  exact ⟨count, told_eq_ok.2 h, h⟩

theorem child_gives {count i : Nat} (h : w.host.childCount v = .ok count) (hi : i < count) :
    Gives (w.child v i) fun c => w.host.Lists v i c := by
  obtain ⟨c, hc⟩ := hg.child v count i hv h hi
  have hl : w.host.Lists v i c := ⟨count, h, hi, hc⟩
  exact ⟨c, child_eq_ok.2 hl, hl⟩

theorem parent_gives : Gives (w.parent v) fun p => w.host.parent v = .ok p := by
  obtain ⟨p, h⟩ := hg.parent v hv
  exact ⟨p, told_eq_ok.2 h, h⟩

theorem children_gives : Gives (w.children v) fun cs => ∀ c ∈ cs, N c := by
  refine (childCount_gives hg hv).bind fun count hcount => Gives.mapM fun i hi => ?_
  refine (child_gives hg hv hcount (List.mem_range.1 hi)).mono fun c hc => ?_
  exact hg.down v i c hv hc

end

variable [DecidableEq ν]

variable (w) in
/-- There is a snapshot that knows both nodes. -/
theorem exists_names (a v : ν) : ∃ (s : Snapshot ν) (n m : Node ν), s.Of w (.all w.host) ∧ s.Names n a ∧
    s.Names m v := by
  have hof : (ofRoot w.config w.host w.root).Of w (.all w.host) := of_ofRoot w.config
  have hmeets : Keeps w (.all w.host) (fun _ => False) (ofRoot w.config w.host w.root)
      (do return (← intern a, ← intern v)) (fun s x => s.Names x.1 a ∧ s.Names x.2 v) := by
    refine Meets.bind (intern_tells trivial).sure fun s n _ _ hn => ?_
    refine Meets.bind (intern_tells trivial).sure fun t m hst _ hm => ?_
    exact Meets.pure fun u htu _ => ⟨(hn.mono hst).mono htu, hm.mono htu⟩
  obtain ⟨-, hof', hends⟩ := hmeets _ (le_refl _) hof
  revert hof' hends
  generalize Op.exec _ _ _ = run
  obtain ⟨_ | x, t⟩ := run
  · exact fun _ h => h.elim
  · exact fun hof' h => ⟨t, x.1, x.2, hof', h⟩

section
variable (ht : w.host.RootedForest w.root N)
include ht

omit [DecidableEq ν] in
/-- What does not fail in a snapshot does not fail in the view. -/
theorem gives_of_keeps {α γ : Type} {s : Snapshot ν} (hs : s.Of w (.all w.host)) {op : Op ν α}
    {r : Except Fault γ} {Q : Snapshot ν → α → Prop} {R : Snapshot ν → α → γ → Prop}
    (hk : Keeps w (s.scope w.host) (fun _ => False) s op Q) (hf : (ofForest ht).Fits s op r R) :
    Gives r fun _ => True :=
  (hf.agree (B := ofForest ht) hs).gives (Keeps.ends hs hk) |>.mono fun _ _ => trivial

theorem span_gives {v : ν} (hv : N v) : Gives (w.span v) fun _ => True := by
  obtain ⟨s, n, -, hs, hn, -⟩ := exists_names w v v
  obtain ⟨hn, rfl⟩ := hn
  exact gives_of_keeps ht hs (span_meets (ht.grown.chainsEnd.excuses s) hn hv hv)
    (Rebuild.fits_span (B := ofForest ht) ⟨⟨hn, rfl⟩, hv⟩)

theorem isFoundFrom_gives {a v : ν} (ha : N a) (hv : N v) (depth : Nat) :
    Gives (w.isFoundFrom a v depth) fun _ => True := by
  obtain ⟨s, n, m, hs, hn, hm⟩ := exists_names w a v
  have hS := ht.grown.searchExcuses s ha
  refine gives_of_keeps (Q := fun _ _ => True) ht hs ?_
    (Rebuild.fits_isFoundFrom (B := ofForest ht) ⟨hn, ha⟩ ⟨hm, hv⟩ depth)
  obtain ⟨hm, rfl⟩ := hm
  refine (targetAt_meets hS.toSpanExcuses hm hv hv depth).bind fun t target hst _ _ => ?_
  unfold Op.uniqueMatch
  simp only [bind_assoc]
  refine (bestMatch_meets hS (hn.mono hst) target true none).bind fun _ _ _ _ _ => ?_
  exact Meets.pure fun _ _ _ => trivial

theorem fingerprint_gives {v : ν} (hv : N v) (depth : Nat) :
    Gives (w.fingerprint v depth) fun _ => True :=
  (span_gives ht hv).bind fun _ _ => .pure trivial

/-! ## Steps -/

section
variable {hops : List (Hop ν)} (hops_mem : ∀ h ∈ hops, N h.node)
include hops_mem

omit [DecidableEq ν] in
theorem startOf_mem (k : Nat) : N (w.startOf hops k) := by
  cases k with
  | zero => exact ht.isNode_root
  | succ k =>
    rw [startOf]
    cases hk : hops[k]? with
    | none => exact ht.isNode_root
    | some h => exact hops_mem h (List.mem_of_getElem? hk)

theorem shortcutFrom_gives {a : ν} (ha : N a) (start : Nat) : ∀ left : Nat,
    Gives (w.shortcutFrom hops a start left) fun _ => True
  | 0 => .pure trivial
  | left + 1 => by
    have rest := shortcutFrom_gives ha start left
    rw [shortcutFrom]
    cases hk : hops[start + left + 1]? with
    | none => exact rest
    | some h =>
      dsimp only
      split
      · refine (isFoundFrom_gives ht ha (hops_mem h (List.mem_of_getElem? hk)) _).bind fun b _ => ?_
        split
        · exact .pure trivial
        · exact rest
      · exact rest

theorem farthest_gives {a : ν} (ha : N a) (current : Nat) : ∀ left : Nat,
    Gives (w.farthest hops a current left) fun _ => True
  | 0 | 1 => .pure trivial
  | left + 2 => by
    have rest := farthest_gives ha current (left + 1)
    rw [farthest]
    cases hk : hops[current + left + 2]? with
    | none => exact rest
    | some h =>
      refine (isFoundFrom_gives ht ha (hops_mem h (List.mem_of_getElem? hk)) _).bind fun b _ => ?_
      split
      · exact .pure trivial
      · exact rest

theorem shortcutsAlong_gives (last : Nat) : ∀ fuel current : Nat,
    Gives (w.shortcutsAlong hops last fuel current) fun _ => True
  | 0, _ => .pure trivial
  | fuel + 1, current => by
    rw [shortcutsAlong]
    split
    · exact .pure trivial
    refine (farthest_gives ht hops_mem (startOf_mem ht hops_mem _) _ _).bind fun next _ => ?_
    have rest := shortcutsAlong_gives last fuel next
    split
    · exact rest.bind fun _ _ => .pure trivial
    · exact rest

theorem shortcuts_gives : Gives (w.shortcuts hops) fun _ => True := by
  refine (Gives.mapM (P := fun _ => True) fun r _ => ?_).bind fun _ _ => .pure trivial
  rw [shortcutsIn, shortcutsFrom]
  split
  · exact .pure trivial
  refine (shortcutFrom_gives ht hops_mem (startOf_mem ht hops_mem _) _ _).bind fun top _ => ?_
  refine (Gives.mapM (P := fun _ => True) fun x _ => ?_).bind fun _ _ => .pure trivial
  exact shortcutsAlong_gives ht hops_mem _ _ _

omit hops_mem in
theorem stepsFrom_gives (cuts : List Shortcut) : ∀ (hs : List (Hop ν)) (k anchor : Nat),
    (∀ h ∈ hs, N h.node) → Gives (w.stepsFrom cuts hs k anchor) fun _ => True
  | [], _, _, _ => .pure trivial
  | h :: hs, k, anchor, hmem => by
    have rest : ∀ k anchor, Gives (w.stepsFrom cuts hs k anchor) fun _ => True := fun k anchor =>
      stepsFrom_gives cuts hs k anchor fun x hx => hmem x (by simp [hx])
    rw [stepsFrom]
    split
    · exact rest _ _
    · have cons : ∀ step, Gives (do return step :: (← w.stepsFrom cuts hs (k + 1) (k + 1))) fun _ => True :=
        fun step => (rest _ _).bind fun _ _ => .pure trivial
      dsimp only
      split
      · rename_i v index
        refine (fingerprint_gives ht (hmem (.structural v index true) (by simp)) _).bind fun f _ => cons _
      · exact cons _
      · exact cons _

theorem shorten_gives : Gives (w.shorten hops) fun _ => True :=
  (shortcuts_gives ht hops_mem).bind fun cuts _ => stepsFrom_gives ht cuts hops 0 0 hops_mem

end

/-! ## Hops -/

theorem hasTwin_gives (v : ν) (s : Span) : ∀ us : List ν, (∀ u ∈ us, N u) →
    Gives (w.hasTwin v s us) fun _ => True
  | [], _ => .pure trivial
  | u :: us, hus => by
    have rest := hasTwin_gives v s us fun x hx => hus x (by simp [hx])
    rw [hasTwin]
    split
    · exact rest
    split
    · refine (span_gives ht (hus u (by simp))).bind fun z _ => ?_
      split
      · exact .pure trivial
      · exact rest
    · exact rest

theorem isFindable_gives {p v : ν} (hp : N p) (hv : N v) : Gives (w.isFindable p v) fun _ => True := by
  refine (span_gives ht hv).bind fun s _ => ?_
  split
  · exact .pure trivial
  split
  · exact .pure trivial
  refine (children_gives ht.grown hp).bind fun us hus => ?_
  exact (hasTwin_gives ht v s us hus).bind fun _ _ => .pure trivial

end

theorem indexFrom_gives (hg : w.host.Grown N) {p v : ν} (hp : N p) {count : Nat}
    (hcount : w.host.childCount p = .ok count) : ∀ left i : Nat, i + left ≤ count →
    Gives (w.indexFrom p v left i) fun r =>
      (∀ j ∈ r, w.host.Lists p j v) ∧ (r = none → ∀ j, i ≤ j → j < i + left → ¬ w.host.Lists p j v)
  | 0, i, _ => .pure ⟨by simp, fun _ j _ _ => by omega⟩
  | left + 1, i, hle => by
    refine (child_gives hg hp hcount (by omega)).bind fun c hc => ?_
    split
    · rename_i hcv
      refine .pure ⟨?_, fun h => absurd h (Option.some_ne_none _)⟩
      rintro _ ⟨⟩
      exact hcv ▸ hc
    · rename_i hcv
      refine (indexFrom_gives hg hp hcount left (i + 1) (by omega)).mono fun r hr => ⟨hr.1, ?_⟩
      intro hnone j hj hlt hl
      rcases Nat.eq_or_lt_of_le hj with rfl | hj
      · exact hcv (lists_unique hc hl)
      · exact hr.2 hnone j hj (by omega) hl

section
omit [DecidableEq ν]
variable {locate : ν → Except Fault (Option Locator)}

mutual

/-- Nothing fails, and if all the nodes have locators, the argument is possible. -/
theorem encodeValue_gives {P : Prop} : ∀ {x : Value ν},
    (∀ m ∈ x.nodes, Gives (locate m) fun l => P → l.isSome) →
    Gives (encodeValue locate x) fun a => P → a.isSome
  | .string _, _ | .integer _, _ | .bool _, _ | .stream _, _ | .any, _ | .node none, _ => by
    rw [encodeValue]
    exact .pure fun _ => rfl
  | .node (some v), h => by
    rw [encodeValue]
    refine (h v (by simp [Value.nodes])).bind fun l hl => ?_
    cases l with
    | none => exact .pure fun hP => absurd (hl hP) (by simp)
    | some l => exact .pure fun _ => rfl
  | .collection items, h => by
    rw [encodeValue]
    have hitems : Gives (encodeValues locate items) fun as => P → as.isSome := encodeValues_gives h
    refine hitems.bind fun as has => .pure ?_
    rwa [Option.isSome_map]

theorem encodeValues_gives {P : Prop} : ∀ {xs : List (Value ν)},
    (∀ m ∈ Value.nodesList xs, Gives (locate m) fun l => P → l.isSome) →
    Gives (encodeValues locate xs) fun as => P → as.isSome
  | [], _ => by
    rw [encodeValues]
    exact .pure fun _ => rfl
  | x :: xs, h => by
    rw [encodeValues]
    refine (encodeValue_gives fun m hm => h m (List.mem_append_left _ hm)).bind fun a ha => ?_
    cases a with
    | none => exact .pure fun hP => absurd (ha hP) (by simp)
    | some a =>
      refine (encodeValues_gives fun m hm => h m (List.mem_append_right _ hm)).bind fun as has => .pure ?_
      rwa [Option.isSome_map]

end

theorem encodeCall_gives {P : Prop} {o : Origin ν}
    (h : ∀ m ∈ Value.nodesList o.args, Gives (locate m) fun l => P → l.isSome) :
    Gives (encodeCall locate o) fun call => P → call.isSome := by
  refine (encodeValues_gives h).bind fun as has => .pure ?_
  rwa [Option.isSome_map]

end

section
variable (ht : w.host.RootedForest w.root N) {locate : ν → Except Fault (Option Locator)}
include ht

theorem hopTo_of_enters {p v u : ν} {o : Option (Origin ν)} (hv : N v) (hp : w.host.HasParent v p)
    (he : w.host.Enters v u o)
    (hl : ∀ c, o = some c → ∀ m ∈ Value.nodesList c.args, Gives (locate m) fun l => l.isSome) :
    Gives (w.hopTo locate p v) fun r => ∃ hop, r = some (hop, u) ∧ hop.node = v := by
  have hnp := ht.grown.up v p hv hp
  have derived : ∀ c, o = some c → Gives (do
      return (← encodeCall locate c).map fun call => (Hop.derived v call, u)) fun r =>
        ∃ hop, r = some (hop, u) ∧ hop.node = v := by
    intro c hc
    have hcall : Gives (encodeCall locate c) fun call => True → call.isSome :=
      encodeCall_gives fun m hm => (hl c hc m hm).mono fun _ h _ => h
    refine hcall.bind fun call hcall => .pure ?_
    obtain ⟨call, rfl⟩ := Option.isSome_iff_exists.1 (hcall trivial)
    exact ⟨_, rfl, rfl⟩
  unfold hopTo
  cases he with
  | call hp' ho =>
    obtain rfl := hp.unique hp'
    rw [originOf_eq_ok.2 ho]
    exact derived _ rfl
  | proxy hp' ho hzero hg ho' =>
    obtain rfl := hp.unique hp'
    have hcount : w.childCount p = .ok 0 := told_eq_ok.2 hzero
    rw [originOf_eq_ok.2 ho]
    show Gives (w.childCount p >>= _) _
    rw [hcount]
    show Gives (w.parent p >>= _) _
    rw [parent_eq_ok.2 hg]
    show Gives (w.originOf u v >>= _) _
    rw [originOf_eq_ok.2 ho']
    exact derived _ rfl
  | child hp' ho hchild =>
    obtain rfl := hp.unique hp'
    obtain ⟨j, hj⟩ := hchild
    obtain ⟨count, hzero, hlt, -⟩ := id hj
    have hcount : w.childCount p = .ok count := told_eq_ok.2 hzero
    rw [originOf_eq_ok.2 ho]
    show Gives (w.childCount p >>= _) _
    rw [hcount]
    show Gives (if count = 0 then _ else _) _
    rw [if_neg (by omega)]
    refine (indexFrom_gives ht.grown hnp hzero count 0 (by omega)).bind fun r hr => ?_
    cases r with
    | none => exact absurd hj (hr.2 rfl j (Nat.zero_le j) (by omega))
    | some i => exact (isFindable_gives ht hnp hv).bind fun findable _ => .pure ⟨_, rfl, rfl⟩

theorem hopTo_of_not_enters {p v : ν} (hv : N v) (hp : w.host.HasParent v p)
    (horigin : ∀ q, ∃ o, w.host.origin q v = .ok o) (hno : ∀ u o, ¬ w.host.Enters v u o) :
    w.hopTo locate p v = .ok none := by
  have hnp := ht.grown.up v p hv hp
  have hnone : ∀ q, (∀ o, w.host.origin q v ≠ .ok (some o)) → w.host.origin q v = .ok none := by
    intro q hq
    obtain ⟨_ | o, ho⟩ := horigin q
    · exact ho
    · exact absurd ho (hq o)
  have ho := hnone p fun o ho => hno p (some o) (.call hp ho)
  obtain ⟨count, hcount, hcount'⟩ := childCount_gives ht.grown hnp
  unfold hopTo
  rw [originOf_eq_ok.2 ho]
  show (w.childCount p >>= _) = _
  rw [hcount]
  show (if count = 0 then _ else _) = _
  split
  · rename_i hzero
    subst hzero
    obtain ⟨g, hg, hg'⟩ := parent_gives ht.grown hnp
    rw [hg]
    cases g with
    | none => rfl
    | some g =>
      have ho' := hnone g fun o ho' => hno g (some o) (.proxy hp ho hcount' hg' ho')
      show (w.originOf g v >>= _) = _
      rw [originOf_eq_ok.2 ho']
      rfl
  · obtain ⟨r, hr, hlists, -⟩ := indexFrom_gives (v := v) ht.grown hnp hcount' count 0 (by omega)
    show (w.indexFrom p v count 0 >>= _) = _
    rw [hr]
    cases r with
    | none => rfl
    | some i => exact absurd (.child hp ho ⟨i, hlists i rfl⟩) (hno p none)

end

/-! ## Routes and locators -/

section
variable (ht : w.host.RootedForest w.root N) {I : ν → Prop} (hI : ∀ v, I v → N v)
include ht hI

/-- A climb ends, since it comes to no node twice. What its steps keep holds at the top. -/
theorem climb_through {locate : ν → Except Fault (Option Locator)} {start : ν}
    {Q : Option (ν × List (Hop ν)) → Prop}
    (htop : ∀ v below, I v → w.host.parent v = .ok none → (∀ h ∈ below, N h.node) → Q (some (v, below)))
    (hstep : ∀ v p, ReflTransGen w.host.EntersFrom start v → I v → w.host.HasParent v p →
      Gives (w.hopTo locate p v) fun r => (r = none → Q none) ∧
        ∀ hop u, r = some (hop, u) → hop.node = v ∧ w.host.EntersFrom v u ∧ I u) : ∀ (fuel : Nat) {v : ν}
    {seen : List ν} {below : List (Hop ν)}, (ofForest ht).Trail w.host.EntersFrom start seen v → I v →
    w.host.size < seen.length + fuel → (∀ h ∈ below, N h.node) → Gives (w.climb locate fuel v below) Q
  | 0, v, seen, below, htrail, _, hlt, _ => by
    have := htrail.length_le.1
    exact absurd hlt (Nat.not_lt_of_le this)
  | fuel + 1, v, seen, below, htrail, hv, hlt, hbelow => by
    refine (parent_gives ht.grown (hI v hv)).bind fun p hp => ?_
    cases p with
    | none => exact .pure (htop v below hv hp hbelow)
    | some p =>
      refine (hstep v p (htrail.leads start (by simp)) hv hp).bind fun r hr => ?_
      cases r with
      | none => exact .pure (hr.1 rfl)
      | some x =>
        obtain ⟨hop, u⟩ := x
        obtain ⟨hnode, ⟨o, henter⟩, hu⟩ := hr.2 hop u rfl
        have hboth := Rebuild.inBoth_enters (B := ofForest ht) (hI v hv) henter
        have hnext := htrail.next ⟨o, henter⟩ hboth (Rebuild.not_enters_circle hboth.isNode)
        refine climb_through htop hstep fuel hnext hu ?_ ?_
        · simp only [List.length_cons]
          omega
        · exact List.forall_mem_cons.2 ⟨hnode ▸ hI v hv, hbelow⟩

/-- Arguments are located in the same way, and there is an end to it. -/
theorem locateWithin_through {Q : Option Locator → Prop} (hneeds : ∀ v m, I v → w.host.Needs v m → I m)
    (hstep : ∀ locate v, I v → (∀ m, w.host.Needs v m → Gives (locate m) Q) →
      Gives (w.locateWith locate v) Q) : ∀ (fuel : Nat) {start v : ν} {seen : List ν},
    (ofForest ht).Trail w.host.Needs start seen v → I v → w.host.size < seen.length + fuel →
    Gives (w.locateWithin fuel v) Q
  | 0, start, v, seen, htrail, _, hlt => absurd hlt (Nat.not_lt_of_le htrail.length_le.1)
  | fuel + 1, start, v, seen, htrail, hv, hlt => by
    refine hstep _ v hv fun m hm => ?_
    have hboth := Rebuild.inBoth_needs (B := ofForest ht) (hI v hv) hm
    have hnext := htrail.next hm hboth (Rebuild.not_needs_circle hboth.isNode)
    refine locateWithin_through hneeds hstep fuel hnext (hneeds v m hv hm) ?_
    simp only [List.length_cons]
    omega

end

section
variable {M : ν → Prop} (ht : w.host.RootedForest w.root N) (he : w.host.Entered w.root M) (hM : ∀ v, M v → N v)
include ht he hM

/-- A climb through nodes that are entered ends at the root. -/
theorem climb_gives {locate : ν → Except Fault (Option Locator)} {v : ν} (hv : M v)
    (hl : ∀ m, w.host.Needs v m → Gives (locate m) fun l => l.isSome) :
    Gives (w.climb locate w.reach v []) fun r => ∃ hops, r = some (w.root, hops) ∧ ∀ h ∈ hops, N h.node := by
  refine climb_through ht hM ?_ ?_ w.reach .nil hv (by simp [reach]) (by simp)
  · intro x below hx htop hbelow
    obtain rfl := he.top x hx htop
    exact ⟨below, rfl, hbelow⟩
  · intro x p hvx hx hp
    obtain ⟨u, o, henter⟩ := he.enters x p hx hp
    refine (hopTo_of_enters ht (hM x hx) hp henter fun c hc m hm => hl m ?_).mono ?_
    · subst hc
      exact ⟨x, u, c, hvx, henter, hm⟩
    · rintro _ ⟨hop, rfl, hnode⟩
      refine ⟨fun h => absurd h (Option.some_ne_none _), ?_⟩
      rintro _ _ ⟨⟩
      exact ⟨hnode, ⟨o, henter⟩, he.source x u o hx henter⟩

theorem locateWith_gives {locate : ν → Except Fault (Option Locator)} {v : ν} (hv : M v)
    (hl : ∀ m, w.host.Needs v m → Gives (locate m) fun l => l.isSome) :
    Gives (w.locateWith locate v) fun l => l.isSome := by
  have hroute : Gives (w.route locate v) fun r => ∃ hops, r = some hops ∧ ∀ h ∈ hops, N h.node := by
    refine (climb_gives ht he hM hv hl).bind ?_
    rintro _ ⟨hops, rfl, hmem⟩
    exact .pure ⟨hops, if_pos rfl, hmem⟩
  refine hroute.bind ?_
  rintro _ ⟨hops, rfl, hmem⟩
  refine (fingerprint_gives ht (hM v hv) _).bind fun result _ => ?_
  exact (shorten_gives ht hmem).bind fun steps _ => .pure rfl

omit [DecidableEq ν] ht hM in
theorem mem_of_needs {v m : ν} (hv : M v) (h : w.host.Needs v m) : M m := by
  obtain ⟨u, x, o, hu, hx, hm⟩ := h
  refine he.arguments u x o ?_ hx m hm
  clear hx
  induction hu with
  | refl => exact hv
  | tail _ h ih => exact he.source _ _ _ ih h.choose_spec

theorem locate_of_entered {v : ν} (hv : M v) : ∃ l, w.locate v = .ok (some l) := by
  obtain ⟨l, hl, hsome⟩ := locateWithin_through ht hM (fun v m => mem_of_needs he)
    (fun locate v => locateWith_gives ht he hM) w.reach .nil hv (by simp [reach])
  obtain ⟨l, rfl⟩ := Option.isSome_iff_exists.1 hsome
  exact ⟨l, hl⟩

end

theorem locate_of_not_enters (ht : w.host.RootedForest w.root N) {v p : ν} (hv : N v) (hp : w.host.HasParent v p)
    (horigin : ∀ q, ∃ o, w.host.origin q v = .ok o) (hno : ∀ u o, ¬ w.host.Enters v u o) :
    w.locate v = .ok none := by
  show (w.climb _ (w.host.size + 1) v [] >>= _) >>= _ = _
  rw [climb, parent_eq_ok.2 hp]
  show ((w.hopTo _ p v >>= _) >>= _) >>= _ = _
  rw [hopTo_of_not_enters ht hv hp horigin hno]
  rfl

/-! ## With or without a locator -/

section
variable (ht : w.host.RootedForest w.root N) (ho : ∀ p v, N p → N v → ∃ o, w.host.origin p v = .ok o)
include ht ho

theorem hopTo_ends {locate : ν → Except Fault (Option Locator)} {p v : ν} (hv : N v)
    (hp : w.host.HasParent v p)
    (hl : ∀ u c, w.host.Enters v u (some c) → ∀ m ∈ Value.nodesList c.args, Gives (locate m) fun _ => True) :
    Gives (w.hopTo locate p v) fun _ => True := by
  have hnp := ht.grown.up v p hv hp
  have derived : ∀ u c, w.host.Enters v u (some c) → Gives (do
      return (← encodeCall locate c).map fun call => (Hop.derived v call, u)) fun _ => True := by
    intro u c hc
    have hcall : Gives (encodeCall locate c) fun call => False → call.isSome :=
      encodeCall_gives fun m hm => (hl u c hc m hm).mono fun _ _ h => h.elim
    exact hcall.bind fun _ _ => .pure trivial
  obtain ⟨o, hpv⟩ := ho p v hnp hv
  unfold hopTo
  rw [originOf_eq_ok.2 hpv]
  cases o with
  | some c => exact derived p c (.call hp hpv)
  | none =>
    refine (childCount_gives ht.grown hnp).bind fun count hcount => ?_
    split
    · rename_i hzero
      subst hzero
      refine (parent_gives ht.grown hnp).bind fun g hg => ?_
      cases g with
      | none => exact .pure trivial
      | some g =>
        obtain ⟨o, hgv⟩ := ho g v (ht.grown.up p g hnp hg) hv
        show Gives (w.originOf g v >>= _) _
        rw [originOf_eq_ok.2 hgv]
        cases o with
        | some c => exact derived g c (.proxy hp hpv hcount hg hgv)
        | none => exact .pure trivial
    · refine (childCount_gives ht.grown hnp).bind fun count' hcount' => ?_
      refine (indexFrom_gives ht.grown hnp hcount' count' 0 (by omega)).bind fun r _ => ?_
      cases r with
      | none => exact .pure trivial
      | some i => exact (isFindable_gives ht hnp hv).bind fun _ _ => .pure trivial

theorem locateWith_ends {locate : ν → Except Fault (Option Locator)} {v : ν} (hv : N v)
    (hl : ∀ m, w.host.Needs v m → Gives (locate m) fun _ => True) :
    Gives (w.locateWith locate v) fun _ => True := by
  have hclimb : Gives (w.climb locate w.reach v []) fun r => ∀ x ∈ r, ∀ h ∈ x.2, N h.node := by
    refine climb_through ht (fun _ h => h) ?_ ?_ w.reach .nil hv (by simp [reach]) (by simp)
    · intro x below _ _ hbelow y hy
      cases hy
      exact hbelow
    · intro x p hvx hx hp
      obtain ⟨r, hr, -⟩ : Gives (w.hopTo locate p x) fun _ => True :=
        hopTo_ends ht ho hx hp fun u c hc m hm => hl m ⟨x, u, c, hvx, hc, hm⟩
      refine ⟨r, hr, by simp, fun hop u hhop => ?_⟩
      subst hhop
      obtain ⟨o, henter, hnode⟩ : ∃ o, w.host.Enters x u o ∧ hop.node = x := by
        rcases hopTo_eq_ok hp hr with ⟨c, call, he, -, rfl⟩ | ⟨i, findable, rfl, he, -, -, rfl⟩
        · exact ⟨_, he, rfl⟩
        · exact ⟨_, he, rfl⟩
      exact ⟨hnode, ⟨o, henter⟩, (Rebuild.inBoth_enters (B := ofForest ht) hx henter).isNode⟩
  have hroute : Gives (w.route locate v) fun r => ∀ hops ∈ r, ∀ h ∈ hops, N h.node := by
    refine hclimb.bind fun r hr => ?_
    cases r with
    | none => exact .pure (by simp)
    | some x =>
      refine .pure ?_
      split
      · rintro _ ⟨⟩
        exact hr x rfl
      · simp
  refine hroute.bind fun r hr => ?_
  cases r with
  | none => exact .pure trivial
  | some hops =>
    refine (fingerprint_gives ht hv _).bind fun result _ => ?_
    exact (shorten_gives ht (hr hops rfl)).bind fun steps _ => .pure trivial

/-- Where the host tells of any two nodes whether a call leads from one to the other, it is said of every
node whether it has a locator. -/
theorem locate_ends {v : ν} (hv : N v) : ∃ l, w.locate v = .ok l := by
  obtain ⟨l, hl, -⟩ := locateWithin_through ht (fun _ h => h)
    (fun v m hv hm => (Rebuild.inBoth_needs (B := ofForest ht) hv hm).isNode)
    (fun locate v => locateWith_ends ht ho) w.reach .nil hv (by simp [reach])
  exact ⟨l, hl⟩

end

end View

/-- On a rooted forest a node has the locator that the view says, whatever was asked before. -/
theorem Snapshot.History.locate_eq [DecidableEq ν] {host : Host ν} {root : ν} {N : ν → Prop}
    (ht : host.RootedForest root N) {s : Snapshot ν} (h : s.History host root) {n : Node ν} (hn : s.Knows n)
    (hv : N n.host) :
    ((locate n).exec host s).1 = View.locate ⟨host, s.config, root⟩ n.host := by
  let B := View.ofForest (w := ⟨host, s.config, root⟩) ht
  have hs : s.Of B.copy B.Kept := Rebuild.of_history h rfl
  exact ((Rebuild.fits_locate (B := B) ⟨⟨hn, rfl⟩, hv⟩).agree hs).eq

end Waymark
