import Waymark.Proofs.View.Refine.Locate

/-!
# Following and listing tell what the view says

Where steps lead, what a locator resolves to and what is listed on the copy of a rebuilt tree is what
the view says, with the copy's handles.
-/

namespace Waymark.Rebuild

open Relation Op Snapshot

variable {ν μ : Type} {B : Rebuild ν μ} [DecidableEq μ]

/-! ## Calls -/

theorem fits_invoke {s₀ : Snapshot μ} {n : Node μ} {v : ν} (hn : B.Stands s₀ n v) (name : String)
    {args : List (Value ν)} (ha : ∀ m ∈ Value.nodesList args, B.IsNode m) :
    B.Fits s₀ (Op.invoke n name (Value.mapList B.place args)) (B.view.invoke v name args)
      (fun s a b => Option.Rel (B.Stands s) a b) := by
  refine Meets.asked_bind silent_of (Meets.read_bind ?_)
  rw [hn.host, B.invoke v name args hn.2 ha, View.invoke]
  cases hr : B.view.host.invoke v name args with
  | error m => exact Tells.throw
  | ok result =>
    refine Meets.answer_bind ?_ nofun
    rintro _ ⟨⟩
    cases result with
    | some u =>
      have hu := B.closed.invoke v name args u hn.2 ha hr
      refine Fits.sure_bind (r := .ok (some u)) (fits_intern hu) fun s m _ _ hm => ?_
      exact Fits.pure fun t ht _ => .some (hm.mono ht)
    | none =>
      refine Fits.read_bind (r := .ok none) ?_
      dsimp only
      cases B.copy.host.missed with
      | none => exact Fits.pure fun _ _ _ => .none
      | some text =>
        exact Fits.typeName_bind hn (Fits.note_bind (Fits.pure fun _ _ _ => .none))

variable (B) in
def SameValue (a : Value μ) (b : Value ν) : Prop := a = b.map B.place ∧ ∀ m ∈ b.nodes, B.IsNode m

variable (B) in
def SameValues (as : List (Value μ)) (bs : List (Value ν)) : Prop :=
  as = Value.mapList B.place bs ∧ ∀ m ∈ Value.nodesList bs, B.IsNode m

variable [DecidableEq ν]

mutual

theorem fits_follow : ∀ (step : Step) {s₀ : Snapshot μ} {n : Node μ} {v : ν}, B.Stands s₀ n v →
    B.Fits s₀ (follow n step) (B.view.follow v step) (fun s a b => Option.Rel (B.Stands s) a b)
  | .child index, s₀, n, v, hn => by
    rw [follow, View.follow]
    refine (fits_childCount hn).bind ?_
    rintro s count _ hs - rfl
    refine Fits.ite (fun _ => ?_) fun _ => Fits.pure fun _ _ _ => .none
    refine (fits_child (hn.mono hs) _).bind fun t c u _ _ hcu => ?_
    exact Fits.pure fun x hx _ => .some (hcu.mono hx)
  | .nearest f, s₀, n, v, hn => by
    rw [follow, View.follow]
    refine (fits_targetOf f).sure_bind fun s t hs _ ht => ?_
    refine (fits_bestMatch (hn.mono hs) ht false .none).bind fun u m m' _ _ hm => ?_
    exact Fits.pure fun x hx _ => rel_mono hm.node? hx
  | .derived ⟨name, args⟩, s₀, n, v, hn => by
    rw [follow, View.follow]
    refine (fits_decodeArgs args).bind fun s vs us hs _ hvs => ?_
    cases hvs with
    | none => exact Fits.pure fun _ _ _ => .none
    | @some vs us hvs =>
      obtain ⟨rfl, hnodes⟩ := hvs
      exact fits_invoke (hn.mono hs) name hnodes

theorem fits_followAll : ∀ (steps : List Step) {s₀ : Snapshot μ} {n : Node μ} {v : ν}, B.Stands s₀ n v →
    B.Fits s₀ (followAll n steps) (B.view.followAll v steps) (fun s a b => Option.Rel (B.Stands s) a b)
  | [], s₀, n, v, hn => by
    rw [followAll, View.followAll]
    exact Fits.pure fun s hs _ => .some (hn.mono hs)
  | step :: steps, s₀, n, v, hn => by
    rw [followAll, View.followAll]
    refine (fits_follow step hn).bind fun s m u hs _ hmu => ?_
    cases hmu with
    | none => exact Fits.typeName_bind (hn.mono hs) (Fits.note_bind (Fits.pure fun _ _ _ => .none))
    | some hmu => exact fits_followAll steps hmu

theorem fits_decodeArg : ∀ (a : Arg) {s₀ : Snapshot μ},
    B.Fits s₀ (decodeArg a) (B.view.decodeArg a) (fun _ x y => Option.Rel B.SameValue x y)
  | .string _, _ | .integer _, _ | .bool _, _ | .stream _, _ | .any, _ | .node none, _ => by
    rw [decodeArg, View.decodeArg]
    exact Fits.pure fun _ _ _ => .some ⟨rfl, by simp [Value.nodes]⟩
  | .node (some ⟨_, steps⟩), _ => by
    rw [decodeArg, View.decodeArg]
    refine Fits.get_bind fun s _ hi => ?_
    refine (fits_followAll steps (stands_root hi)).bind fun t m u _ _ hmu => ?_
    refine Fits.pure fun x _ _ => ?_
    cases hmu with
    | none => exact .none
    | some hmu =>
      refine .some ⟨?_, ?_⟩
      · exact congrArg (Value.node ∘ some) hmu.host
      · simpa [Value.nodes] using hmu.2
  | .collection items, _ => by
    rw [decodeArg, View.decodeArg]
    refine (fits_decodeArgs items).bind fun t vs us _ _ hvs => Fits.pure fun x _ _ => ?_
    cases hvs with
    | none => exact .none
    | some hvs =>
      refine .some ⟨?_, ?_⟩
      · rw [Value.map, hvs.1]
      · simpa [Value.nodes] using hvs.2

theorem fits_decodeArgs : ∀ (as : List Arg) {s₀ : Snapshot μ},
    B.Fits s₀ (decodeArgs as) (B.view.decodeArgs as) (fun _ x y => Option.Rel B.SameValues x y)
  | [], _ => by
    rw [decodeArgs, View.decodeArgs]
    exact Fits.pure fun _ _ _ => .some ⟨rfl, by simp [Value.nodesList]⟩
  | a :: as, _ => by
    rw [decodeArgs, View.decodeArgs]
    refine (fits_decodeArg a).bind fun s x y _ _ hxy => ?_
    cases hxy with
    | none => exact Fits.pure fun _ _ _ => .none
    | some hxy =>
      refine (fits_decodeArgs as).bind fun t vs us _ _ hvs => Fits.pure fun _ _ _ => ?_
      cases hvs with
      | none => exact .none
      | some hvs =>
        refine .some ⟨?_, fun m hm => ?_⟩
        · rw [Value.mapList, hxy.1, hvs.1]
        · rw [Value.nodesList, List.mem_append] at hm
          exact hm.elim (hxy.2 m) (hvs.2 m)

end

theorem fits_resolveSteps {s₀ : Snapshot μ} (steps : List Step) :
    B.Fits s₀ (resolveSteps steps) (B.view.resolveSteps steps)
      (fun s a b => Option.Rel (B.Stands s) a b) :=
  Fits.get_bind fun _ _ hi => fits_followAll steps (stands_root hi)

variable (B) in
structure SameResolution (s : Snapshot μ) (r : Resolved μ) (r' : View.Resolution ν) : Prop where
  node : B.Stands s r.node r'.node
  span : r.span = r'.span
  locator : r.locator = r'.locator

theorem fits_resolve {s₀ : Snapshot μ} (l : Locator) :
    B.Fits s₀ (resolve l) (B.view.resolve l) (fun s a b => Option.Rel (B.SameResolution s) a b) := by
  refine (fits_resolveSteps l.steps).bind fun s m u _ _ hmu => ?_
  cases hmu with
  | none => exact Fits.note_bind (Fits.pure fun _ _ _ => .none)
  | some hmu =>
    refine (fits_span hmu).bind ?_
    rintro t span _ ht - rfl
    refine (fits_locate (hmu.mono ht)).bind ?_
    rintro x l' _ hx - rfl
    have htx := le_trans ht hx
    cases l' with
    | some l' => exact Fits.pure fun y hy _ => .some ⟨hmu.mono (le_trans htx hy), rfl, rfl⟩
    | none =>
      refine Fits.typeName_bind (hmu.mono htx) (Fits.note_bind (Fits.pure fun y hy _ => ?_))
      exact .some ⟨hmu.mono (le_trans htx hy), rfl, rfl⟩

/-! ## Listing -/

omit [DecidableEq μ] [DecidableEq ν] in
theorem fits_isElsewhere {s₀ : Snapshot μ} {n : Node μ} {v : ν} (hn : B.Stands s₀ n v) (p : Position) :
    B.Fits s₀ (isElsewhere p n) (.ok (B.view.isElsewhere p v)) (fun _ a b => a = b) := by
  refine (fits_rawSpan hn).sure_bind ?_
  rintro s _ hs - rfl
  unfold View.isElsewhere
  split
  · rename_i h
    refine (fits_isExternal (hn.mono hs)).sure_bind ?_
    rintro t _ _ - rfl
    rw [h]
    exact Fits.pure fun _ _ _ => rfl
  · rename_i h
    rw [eq_false_of_ne_true h]
    exact Fits.pure fun _ _ _ => rfl

omit [DecidableEq ν] in
theorem fits_isHit {s₀ : Snapshot μ} {n : Node μ} {v : ν} (hn : B.Stands s₀ n v) (p : Position) :
    B.Fits s₀ (isHit p n) (B.view.isHit p v) (fun _ a b => a = b) := by
  refine (fits_span hn).bind ?_
  rintro s span _ hs - rfl
  by_cases h : span.contains p = true
  · rw [if_pos h, h, Bool.true_and]
    exact fits_isVisible (hn.mono hs)
  · rw [if_neg h, eq_false_of_ne_true h]
    exact Fits.pure fun _ _ _ => rfl

omit [DecidableEq ν] in
theorem fits_hitsFrom {p : Position} {start : ν} (hstart : B.IsNode start) : ∀ (fuel fuel' : Nat)
    {s₀ : Snapshot μ} {stack : List (Node μ × Nat)} {stack' : List (ν × Nat)} (seen : List ν),
    List.Forall₂ (B.StandsWith s₀) stack stack' →
    B.Sweep start seen (stack'.map Prod.fst) → B.HasAll s₀ seen →
    B.copy.host.size < seen.length + fuel → B.view.host.size < seen.length + fuel' →
    B.Fits s₀ (hitsFrom p fuel seen.length stack) (B.view.hitsFrom p fuel' stack')
      (fun s a b => List.Forall₂ (B.StandsWith s) a b)
  | fuel, fuel', s₀, _, _, seen, .nil, _, _, _, _ => by
    rw [hitsFrom, View.hitsFrom]
    exact Fits.pure fun _ _ _ => .nil
  | 0, _, _, _, (v, d) :: _, seen, .cons _ _, hsweep, _, hf, _ => by
    have := hsweep.skip.length_le
    simp only [List.length_cons] at this
    omega
  | _ + 1, 0, _, _, (v, d) :: _, seen, .cons _ _, hsweep, _, _, hf => by
    have := hsweep.skip.length_le
    simp only [List.length_cons] at this
    omega
  | fuel + 1, fuel' + 1, s₀, (n, depth) :: stack, (v, depth') :: stack', seen, .cons hn hst, hsweep, hall,
      hf, hf' => by
    obtain ⟨hn, rfl⟩ := hn
    have hall' : B.HasAll s₀ (v :: seen) := .cons hn.has hall
    have hlt : B.copy.host.size < (v :: seen).length + fuel := by simp; omega
    have hlt' : B.view.host.size < (v :: seen).length + fuel' := by simp; omega
    refine Fits.boundWalk_bind (fun x hx => ?_) ?_
    · have := length_le_of_has hsweep.skip.nodup (hall'.mono hx)
      simpa using this
    rw [View.hitsFrom]
    refine (fits_isElsewhere hn p).sure_bind ?_
    rintro s _ hs - rfl
    refine Fits.ite (fun _ => ?_) fun _ => ?_
    · exact fits_hitsFrom hstart fuel fuel' (v :: seen) (stack_mono hst hs) hsweep.skip (hall'.mono hs) hlt hlt'
    refine (fits_isHit (hn.mono hs) p).bind ?_
    rintro t hit _ ht - rfl
    refine (fits_childCount (hn.mono (le_trans hs ht))).bind ?_
    rintro u count _ hu - rfl
    have hsu := le_trans hs (le_trans ht hu)
    refine (fits_pushChildren (depth + 1) count (hn.mono hsu) (stack_mono hst hsu)).bind ?_
    intro x st st' hx hst' hsame
    obtain ⟨cs, rfl, -, hcs⟩ := View.pushChildren_eq_ok hst'
    have hd := hsweep.descend hstart hcs
    refine Fits.bind (fits_hitsFrom hstart fuel fuel' (v :: seen) hsame (by simpa [Function.comp_def] using hd)
      (hall'.mono (le_trans hsu hx)) hlt hlt') ?_
    intro y more more' hy _ hmore
    refine Fits.pure fun z hz _ => ?_
    split
    · exact .cons ⟨hn.mono (le_trans hsu (le_trans hx (le_trans hy hz))), rfl⟩ (stack_mono hmore hz)
    · exact stack_mono hmore hz

variable (B) in
structure SameEntry (s : Snapshot μ) (e : ListedNode μ) (e' : View.Entry ν) : Prop where
  type : e.type = e'.type
  label : e.label = e'.label
  span : e.span = e'.span
  locator : e.locator = e'.locator
  node : B.Stands s e.node e'.node

variable (B) in
inductive SameListed (s : Snapshot μ) : ListedNode μ ⊕ Diagnostic → View.Entry ν ⊕ Diagnostic → Prop where
  | entry {e : ListedNode μ} {e' : View.Entry ν} (h : B.SameEntry s e e') : SameListed s (.inl e) (.inl e')
  | report (d : Diagnostic) : SameListed s (.inr d) (.inr d)

theorem fits_listed {s₀ : Snapshot μ} {n : Node μ} {v : ν} (hn : B.Stands s₀ n v) :
    B.Fits s₀ (listed n) (B.view.listed v) B.SameListed := by
  refine (fits_span hn).bind ?_
  rintro s span _ hs - rfl
  refine (fits_locate (hn.mono hs)).bind ?_
  rintro t l _ ht - rfl
  have hst := le_trans hs ht
  cases l with
  | some l =>
    refine Fits.typeName_bind (hn.mono hst) ((fits_label (hn.mono hst)).sure_bind ?_)
    rintro u _ hu - rfl
    exact Fits.pure fun x hx _ => .entry ⟨rfl, rfl, rfl, rfl, hn.mono (le_trans hst (le_trans hu hx))⟩
  | none =>
    exact Fits.typeName_bind (hn.mono hst) (Fits.note_bind (Fits.pure fun _ _ _ => .report _))

omit [DecidableEq μ] [DecidableEq ν] in
/-- Sorting looks at depths only. -/
theorem innermostFirst_mono {s : Snapshot μ} {hits : List (Node μ × Nat)} {hits' : List (ν × Nat)}
    (h : List.Forall₂ (B.StandsWith s) hits hits') :
    List.Forall₂ (B.StandsWith s) (innermostFirst hits) (innermostFirst hits') := by
  have hlen := h.length_eq
  have hl : (hits.zip hits').map Prod.fst = hits := List.map_fst_zip (Nat.le_of_eq hlen)
  have hr : (hits.zip hits').map Prod.snd = hits' := List.map_snd_zip (Nat.le_of_eq hlen.symm)
  have hz : ∀ x ∈ hits.zip hits', B.StandsWith s x.1 x.2 := fun x hx => List.forall₂_zip h hx
  generalize hits.zip hits' = both at hl hr hz
  subst hl hr
  let deeper : (Node μ × Nat) × (ν × Nat) → (Node μ × Nat) × (ν × Nat) → Bool :=
    fun a b => decide (b.1.2 ≤ a.1.2)
  have hfst : (both.mergeSort deeper).map Prod.fst = innermostFirst (both.map Prod.fst) :=
    List.map_mergeSort fun a _ b _ => rfl
  have hsnd : (both.mergeSort deeper).map Prod.snd = innermostFirst (both.map Prod.snd) := by
    refine List.map_mergeSort fun a ha b hb => ?_
    show decide (b.1.2 ≤ a.1.2) = decide (b.2.2 ≤ a.2.2)
    rw [(hz a ha).2, (hz b hb).2]
  rw [← hfst, ← hsnd, List.forall₂_map_left_iff, List.forall₂_map_right_iff, List.forall₂_same]
  exact fun x hx => hz x ((List.mergeSort_perm _ _).mem_iff.1 hx)

variable (B) in
structure SameListing (s : Snapshot μ) (l : NodeListing μ) (l' : View.Listing ν) : Prop where
  nodes : List.Forall₂ (B.SameEntry s) l.nodes l'.nodes
  diagnostics : l.diagnostics = l'.diagnostics

omit [DecidableEq μ] [DecidableEq ν] in
theorem SameEntry.mono {s t : Snapshot μ} {e : ListedNode μ} {e' : View.Entry ν} (h : B.SameEntry s e e')
    (hst : s ≤ t) : B.SameEntry t e e' :=
  { h with node := h.node.mono hst }

omit [DecidableEq μ] [DecidableEq ν] in
theorem SameListed.mono {s t : Snapshot μ} {x : ListedNode μ ⊕ Diagnostic} {y : View.Entry ν ⊕ Diagnostic}
    (h : B.SameListed s x y) (hst : s ≤ t) : B.SameListed t x y := by
  cases h with
  | entry h => exact .entry (h.mono hst)
  | report d => exact .report d

omit [DecidableEq μ] [DecidableEq ν] in
theorem SameListing.ofListed {s : Snapshot μ} : ∀ {xs : List (ListedNode μ ⊕ Diagnostic)}
    {ys : List (View.Entry ν ⊕ Diagnostic)}, List.Forall₂ (B.SameListed s) xs ys →
    B.SameListing s ⟨xs.filterMap Sum.getLeft?, xs.filterMap Sum.getRight?⟩
      ⟨ys.filterMap Sum.getLeft?, ys.filterMap Sum.getRight?⟩
  | _, _, .nil => ⟨.nil, rfl⟩
  | _, _, .cons (.entry h) hs => ⟨.cons h (ofListed hs).nodes, (ofListed hs).diagnostics⟩
  | _, _, .cons (.report d) hs => ⟨(ofListed hs).nodes, congrArg (d :: ·) (ofListed hs).diagnostics⟩

theorem fits_nodesAt {s₀ : Snapshot μ} (p : Position) :
    B.Fits s₀ (nodesAt p) (B.view.nodesAt p) B.SameListing := by
  refine Fits.reach_bind fun k hk => Fits.get_bind fun s _ hi => ?_
  have hroot := stands_root hi
  refine Fits.bind (fits_hitsFrom B.isNode_root k B.view.reach [] ?_ .first nofun ?_ ?_) ?_
  · exact .cons ⟨hroot, rfl⟩ .nil
  · simpa using hk
  · simp [View.reach]
  intro t hits hits' _ _ hhits
  refine Fits.bind (Tells.mapM (S := B.StandsWith) (R := B.SameListed) ?_ ?_ ?_ (innermostFirst_mono hhits)) ?_
  · exact fun s t a b hst h => ⟨h.1.mono hst, h.2⟩
  · exact fun s t a b hst h => h.mono hst
  · exact fun s a b h => fits_listed h.1
  intro u xs ys _ _ hxys
  exact Fits.pure fun x hx _ => .ofListed (hxys.imp fun a b h => h.mono hx)

theorem fits_listEach {list : Node μ → Option Locator → Op μ (ListedTree × List Diagnostic)}
    {list' : ν → Option Locator → Except Fault (ListedTree × List Diagnostic)}
    (hl : ∀ (s : Snapshot μ) c u l, B.Stands s c u → B.Fits s (list c l) (list' u l) (fun _ a b => a = b)) :
    ∀ {cs : List (Node μ)} {us : List ν} {s₀ : Snapshot μ}, List.Forall₂ (B.Stands s₀) cs us →
      B.Fits s₀ (listEach list cs) (B.view.listEach list' us) (fun _ a b => a = b)
  | _, _, _, .nil => Fits.pure fun _ _ _ => rfl
  | _, _, _, .cons hc hcs => by
    refine (fits_locate hc).bind ?_
    rintro s l _ hs - rfl
    refine (hl s _ _ l (hc.mono hs)).bind ?_
    rintro t ⟨tree, ds⟩ _ ht - rfl
    refine (fits_listEach hl (hcs.imp fun _ _ h => h.mono (le_trans hs ht))).bind ?_
    rintro u ⟨trees, es⟩ _ _ - rfl
    exact Fits.pure fun _ _ _ => rfl

theorem fits_listBelow : ∀ (levels : Nat) {s₀ : Snapshot μ} {n : Node μ} {v : ν} (l : Option Locator),
    B.Stands s₀ n v →
    B.Fits s₀ (listBelow levels n l) (B.view.listBelow levels v l) (fun _ a b => a = b) := by
  have finish : ∀ (t : Snapshot μ) n v (g : String → Option String → ListedTree × List Diagnostic),
      B.Stands t n v → B.Fits t (do pure (g (← Op.typeName n) (← Op.label n)))
        (.ok (g (B.view.host.typeName v) (B.view.host.shownLabel v))) (fun _ a b => a = b) := by
    intro t n v g hn
    refine Fits.typeName_bind hn ((fits_label hn).sure_bind ?_)
    rintro u _ _ - rfl
    exact Fits.pure fun _ _ _ => rfl
  intro levels
  induction levels with
  | zero =>
    intro s₀ n v l hn
    rw [listBelow, View.listBelow]
    refine (fits_span hn).bind ?_
    rintro s span _ hs - rfl
    refine (fits_childCount (hn.mono hs)).bind ?_
    rintro t count _ ht - rfl
    dsimp only
    refine Fits.bind (R := fun _ a b => a = b) (Fits.pure fun _ _ _ => rfl) ?_
    rintro u ⟨below, more⟩ _ hu - rfl
    exact finish u n v _ (hn.mono (le_trans hs (le_trans ht hu)))
  | succ levels ih =>
    intro s₀ n v l hn
    rw [listBelow, View.listBelow]
    refine (fits_span hn).bind ?_
    rintro s span _ hs - rfl
    refine (fits_childCount (hn.mono hs)).bind ?_
    rintro t count _ ht - rfl
    have hn' := hn.mono (le_trans hs ht)
    refine (fits_children hn').bind fun u cs us hu _ hcs => ?_
    refine (fits_listEach (fun s c u l hc => ih l hc) hcs).bind ?_
    rintro x ⟨trees, more⟩ _ hx - rfl
    refine Fits.bind (R := fun _ a b => a = b) (Fits.pure fun _ _ _ => rfl) ?_
    rintro y ⟨below, more⟩ _ hy - rfl
    exact finish y n v _ (hn'.mono (le_trans hu (le_trans hx hy)))

theorem fits_subtree {s₀ : Snapshot μ} (l : Locator) (levels : Nat) :
    B.Fits s₀ (subtree l levels) (B.view.subtree l levels) (fun _ a b => a = b) := by
  refine (fits_resolve l).bind fun s r r' _ _ hr => ?_
  cases hr with
  | none => exact Fits.pure fun _ _ _ => rfl
  | some hr =>
    dsimp only
    rw [hr.locator]
    refine (fits_listBelow levels _ hr.node).bind ?_
    rintro t ⟨tree, ds⟩ _ _ - rfl
    exact Fits.pure fun _ _ _ => rfl

end Waymark.Rebuild
