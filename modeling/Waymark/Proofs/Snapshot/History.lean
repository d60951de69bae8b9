import Waymark.Proofs.Route.Following

/-!
# Snapshots that have a history

The snapshots that can come about: a fresh or a reset one, and what any requests make of it, whether
they succeed or fail. Between requests the recovery strategy may change; the position convention and
the identification style stay. All these snapshots are sound, on any host.

If the style or the convention changes, the arena stays in order, but the keys and spans that were kept
under the old one are not dropped. Results then depend on what was asked before the change.
-/

namespace Waymark

open Relation Op

variable {ν : Type}

/-- What a snapshot can be asked. Nodes are given by their handles. -/
inductive Request (ν : Type) where
  | node (v : ν)
  | childCount (v : ν)
  | child (v : ν) (index : Nat)
  | children (v : ν)
  | parent (v : ν)
  | typeTag (v : ν)
  | key (v : ν)
  | label (v : ν)
  | isExternal (v : ν)
  | isVisible (v : ν)
  | rawSpan (v : ν)
  | spanWith (strategy : Recovery) (v : ν)
  | span (v : ν)
  | targetOf (f : Fingerprint)
  | targetAt (v : ν) (depth : Nat)
  | bestMatch (start : ν) (target : Target) (strict : Bool) (ignore : Option (Node ν))
  | uniqueMatch (start : ν) (target : Target) (ignore : Option (Node ν))
  | isAmbiguous (start : ν) (f : Fingerprint) (ignore : Option (Node ν))
  | locate (v : ν)
  | resolveSteps (steps : List Step)
  | resolve (l : Locator)
  | resolveOrReport (l : Locator)
  | nodesAt (p : Position)
  | subtree (l : Locator) (levels : Nat)

namespace Request

variable [DecidableEq ν]

def on {α : Type} (v : ν) (f : Node ν → Op ν α) : Op ν Unit := do
  let _ ← f (← intern v)

def done {α : Type} (op : Op ν α) : Op ν Unit := do
  let _ ← op

def op : Request ν → Op ν Unit
  | .node v => on v pure
  | .childCount v => on v Op.childCount
  | .child v index => on v fun n => Op.child n index
  | .children v => on v Op.children
  | .parent v => on v Op.parent
  | .typeTag v => on v Op.typeTag
  | .key v => on v Op.key
  | .label v => on v Op.label
  | .isExternal v => on v Op.isExternal
  | .isVisible v => on v Op.isVisible
  | .rawSpan v => on v Op.rawSpan
  | .spanWith strategy v => on v (Op.spanWith strategy)
  | .span v => on v Op.span
  | .targetOf f => done (Op.targetOf f)
  | .targetAt v depth => on v fun n => Op.targetAt n depth
  | .bestMatch v target strict ignore => on v fun n => Op.bestMatch n target strict ignore
  | .uniqueMatch v target ignore => on v fun n => Op.uniqueMatch n target ignore
  | .isAmbiguous v f ignore => on v fun n => Op.isAmbiguous n f ignore
  | .locate v => on v Op.locate
  | .resolveSteps steps => done (Op.resolveSteps steps)
  | .resolve l => done (Op.resolve l)
  | .resolveOrReport l => done (Op.resolveOrReport l)
  | .nodesAt p => done (Op.nodesAt p)
  | .subtree l levels => done (Op.subtree l levels)

section
variable {w : View ν} {s₀ : Snapshot ν} {α : Type}

theorem keeps_on {f : Node ν → Op ν α} (v : ν) {Q : Snapshot ν → Node ν → Snapshot ν → α → Prop}
    (h : ∀ (s : Snapshot ν) n, s.Knows n → Keeps w (.all w.host) (fun _ => True) s (f n) (Q s n)) :
    Keeps w (.all w.host) (fun _ => True) s₀ (on v f) (fun _ _ => True) := by
  refine Meets.bind (intern_tells (K := .all w.host) trivial).sure fun s n _ _ hn => ?_
  exact (h s n hn.1).bind fun _ _ _ _ _ => Meets.pure fun _ _ _ => trivial

omit [DecidableEq ν] in
theorem keeps_done {op : Op ν α} {Q : Snapshot ν → α → Prop}
    (h : Keeps w (.all w.host) (fun _ => True) s₀ op Q) :
    Keeps w (.all w.host) (fun _ => True) s₀ (done op) (fun _ _ => True) :=
  h.bind fun _ _ _ _ _ => Meets.pure fun _ _ _ => trivial

theorem keeps_op (q : Request ν) :
    Keeps w (.all w.host) (fun _ => True) s₀ q.op (fun _ _ => True) := by
  have hE := Excuses.all w.host
  cases q with
  | node v => exact keeps_on (Q := fun _ _ _ _ => True) v fun _ _ _ => Meets.pure fun _ _ _ => trivial
  | childCount v => exact keeps_on v fun _ _ hn => keeps_childCount (hE.children _) hn
  | child v index =>
    refine keeps_on (Q := fun _ _ _ _ => True) v fun _ _ hn => ?_
    exact Meets.mono (child_tells hn index) (fun _ _ _ _ _ => trivial) fun _ _ => trivial
  | children v => exact keeps_on v fun _ _ hn => keeps_children (hE.children _) hn
  | parent v => exact keeps_on v fun _ _ hn => keeps_parent (hE.spans.parent _ · trivial) (hE.spans.circle _ · trivial) hn
  | typeTag v => exact keeps_on v fun _ _ hn => (typeTag_tells hn).sure
  | key v => exact keeps_on v fun _ _ hn => (key_tells hn).sure
  | label v => exact keeps_on v fun _ _ hn => (label_tells hn).sure
  | isExternal v => exact keeps_on v fun _ _ hn => (isExternal_tells hn).sure
  | isVisible v => exact keeps_on v fun _ _ hn => (isVisible_tells hn).sure
  | rawSpan v => exact keeps_on v fun _ _ hn => (rawSpan_tells hn).sure
  | spanWith strategy v => exact keeps_on v fun _ _ hn => keeps_spanWith hE hn strategy
  | span v => exact keeps_on v fun _ _ hn => keeps_span hE hn
  | targetOf f => exact keeps_done (keeps_targetOf f)
  | targetAt v depth => exact keeps_on v fun _ _ hn => keeps_targetAt hE hn depth
  | bestMatch v target strict ignore =>
    exact keeps_on v fun _ _ hn => keeps_bestMatch hE hn target strict ignore
  | uniqueMatch v target ignore => exact keeps_on v fun _ _ hn => keeps_uniqueMatch hE hn target ignore
  | isAmbiguous v f ignore => exact keeps_on v fun _ _ hn => keeps_isAmbiguous hE hn f ignore
  | locate v => exact keeps_on v fun _ _ hn => keeps_locate hE hn
  | resolveSteps steps => exact keeps_done (keeps_resolveSteps hE steps)
  | resolve l => exact keeps_done (keeps_resolve hE l)
  | resolveOrReport l => exact keeps_done (keeps_resolveOrReport hE l)
  | nodesAt p => exact keeps_done (keeps_nodesAt hE p)
  | subtree l levels => exact keeps_done (keeps_subtree hE l levels)

end

end Request

namespace Snapshot

variable [DecidableEq ν]

/-- The snapshot can come about for this host and root. -/
inductive History (host : Host ν) (root : ν) : Snapshot ν → Prop where
  | fresh (config : Config) : History host root (ofRoot config host root)
  /-- What it was before, and of which host, does not matter. -/
  | reset (s : Snapshot ν) : History host root (s.reset host root)
  | request {s : Snapshot ν} (h : History host root s) (q : Request ν) :
    History host root (q.op.exec host s).2
  | recovery {s : Snapshot ν} (h : History host root s) (strategy : Recovery) :
    History host root { s with config := { s.config with recovery := strategy } }
  | journal {s : Snapshot ν} (h : History host root s) (j : Journal ν) :
    History host root { s with journal := j }

variable {host : Host ν} {root : ν} {s : Snapshot ν}

omit [DecidableEq ν] in
theorem of_ofRoot (config : Config) :
    (ofRoot config host root).Of ⟨host, config, root⟩ (.all host) where
  sound := sound_ofRoot config host root
  config := rfl
  root := rfl
  recovered i slot strategy span hi hr := by
    rw [(getElem?_ofRoot hi).2] at hr
    cases hr
  holds _ _ _ := trivial
  least := Nat.zero_le _

omit [DecidableEq ν] in
theorem Sound.recovery (hs : s.Sound host) (strategy : Recovery) :
    Sound host { s with config := { s.config with recovery := strategy } } where
  toArena := hs.configure _
  settled i slot hi :=
    have h := hs.settled i slot hi
    ⟨h.rawSpan, h.key⟩

omit [DecidableEq ν] in
theorem Of.recovery {config : Config} (h : s.Of ⟨host, config, root⟩ (.all host)) (strategy : Recovery) :
    Of ⟨host, { config with recovery := strategy }, root⟩ (.all host)
      { s with config := { s.config with recovery := strategy } } where
  sound := h.sound.recovery strategy
  config := by rw [h.config]
  root := h.root
  -- What a node borrows depends on the strategy that is kept with it, not on the one that is set.
  recovered i slot st span hi hr := (h.recovered i slot st span hi hr).recovery strategy
  holds := h.holds
  least := h.least

/-- One request, from a snapshot of a view. -/
theorem Of.request {w : View ν} (h : s.Of w (.all w.host)) (q : Request ν) :
    s ≤ (q.op.exec w.host s).2 ∧ (q.op.exec w.host s).2.Of w (.all w.host) := by
  obtain ⟨hle, hof, -⟩ := Request.keeps_op q s (le_refl s) h
  exact ⟨hle, hof⟩

theorem History.of_all (h : s.History host root) : s.Of ⟨host, s.config, root⟩ (.all host) := by
  induction h with
  | fresh config => exact of_ofRoot config
  | reset s => exact silent_of _ _ (of_ofRoot s.config)
  | request h q ih =>
    obtain ⟨hle, hof⟩ := ih.request q
    rwa [hle.config]
  | recovery h strategy ih => exact ih.recovery strategy
  | journal h j ih => exact silent_of _ _ ih

/-! ## The arena -/

/-- In every snapshot that can come about, handles and slots are inverse to each other, all that was
learned is what the host says, known parents do not go in a circle, and the walk that looks for circles
ends by itself with the right answer. -/
theorem History.sound_and_exact (host : Host ν) (root : ν) (s : Snapshot ν) (h : s.History host root) :
    s.Sound host ∧
      (∀ v n, s.find? v = some n ↔ s.Knows n ∧ n.host = v) ∧
      ∀ c p, s.Knows p →
        s.Leaves c (s.size + 1) p (s.leadsTo c (s.size + 1) p) ∧
        (s.leadsTo c (s.size + 1) p = true ↔ ReflTransGen s.Linked p c) := by
  have hs := h.of_all.sound
  refine ⟨hs, fun v n => hs.find?_eq_some_iff, fun c p hp => ?_⟩
  have hleaves := hs.leaves hp c
  exact ⟨hleaves, hleaves.iff⟩

/-- Two nodes, each the parent and the only child of the other. -/
def pair : Host Bool where
  size := 2
  childCount _ := .ok 1
  child v _ := .ok !v
  parent v := .ok (some !v)
  typeName _ := "Half"
  bounded := ⟨[true, false], by simp, fun v _ => by cases v <;> simp⟩

def pairAsked : Except Fault Unit × Snapshot Bool :=
  (Request.parent false).op.exec pair ((Request.parent true).op.exec pair (ofRoot {} pair true)).2

/-- The second question would close the circle and fails. Afterwards the one node leads to the other, and
not back. -/
theorem History.sound_and_exact_pair :
    pairAsked.1 = .error (.loop "Half") ∧ pairAsked.2.Sound pair ∧
      ReflTransGen pairAsked.2.Linked ⟨0, true⟩ ⟨1, false⟩ ∧
      ¬ ReflTransGen pairAsked.2.Linked ⟨1, false⟩ ⟨0, true⟩ := by
  have first : pairAsked.2.handle? 0 = some true := by cbv
  have second : pairAsked.2.handle? 1 = some false := by cbv
  have forth : pairAsked.2.leadsTo ⟨1, false⟩ (pairAsked.2.size + 1) ⟨0, true⟩ = true := by cbv
  have back : pairAsked.2.leadsTo ⟨0, true⟩ (pairAsked.2.size + 1) ⟨1, false⟩ = false := by cbv
  have h : pairAsked.2.History pair true :=
    ((History.fresh {}).request (.parent true)).request (.parent false)
  obtain ⟨hsound, -, hexact⟩ := History.sound_and_exact pair true pairAsked.2 h
  refine ⟨by cbv, hsound, (hexact _ ⟨0, true⟩ first).2.1 forth, fun hr => ?_⟩
  rw [(hexact _ ⟨1, false⟩ second).2.2 hr] at back
  cases back

/-! ## A change of style -/

/-- The snapshot can come about if any setting may change between requests. -/
inductive Past (host : Host ν) (root : ν) : Snapshot ν → Prop where
  | history {s : Snapshot ν} (h : s.History host root) : Past host root s
  | request {s : Snapshot ν} (h : Past host root s) (q : Request ν) : Past host root (q.op.exec host s).2
  | configure {s : Snapshot ν} (h : Past host root s) (config : Config) : Past host root { s with config }
  | journal {s : Snapshot ν} (h : Past host root s) (j : Journal ν) : Past host root { s with journal := j }

end Snapshot

/-- Two leaves of one type in one place, which have different labels. -/
def twins : Host (Option Bool) where
  size := 3
  childCount v := .ok (if v = none then 2 else 0)
  child _ i := .ok (some (i = 0))
  parent v := .ok (v.map fun _ => none)
  typeName v := if v = none then "Root" else "Leaf"
  packedSpan v := some (if v = none then ⟨1, 9⟩ else ⟨2, 3⟩)
  label v := v.map fun first => if first then "a" else "b"
  bounded := ⟨[none, some true, some false], by simp, fun v _ => by rcases v with _ | _ | _ <;> simp⟩

theorem lists_twins {p c : Option Bool} {i : Nat} (h : twins.Lists p i c) :
    p = none ∧ c = some (decide (i = 0)) ∧ i < 2 := by
  obtain ⟨count, hcount, hi, hc⟩ := h
  cases p with
  | none =>
    cases hcount
    cases hc
    exact ⟨rfl, rfl, hi⟩
  | some first =>
    cases hcount
    exact absurd hi (Nat.not_lt_zero i)

theorem hasParent_twins {v p : Option Bool} (h : twins.HasParent v p) : v ≠ none ∧ p = none := by
  cases v with
  | none => cases h
  | some first =>
    cases h
    exact ⟨nofun, rfl⟩

theorem closed_twins : twins.Closed fun _ => True := ⟨by simp, by simp, by simp, by simp⟩

theorem orderly_twins : twins.Orderly fun _ => True where
  once p q i j c _ _ hi hj := by
    obtain ⟨rfl, rfl, hi'⟩ := lists_twins hi
    obtain ⟨rfl, hij, hj'⟩ := lists_twins hj
    have hzero : i = 0 ↔ j = 0 := by simpa using hij
    exact ⟨rfl, by omega⟩
  children v _ := by
    refine not_circle_of_lt (fun v : Option Bool => if v = none then 1 else 0) ?_ v
    rintro p c ⟨i, hi⟩
    obtain ⟨rfl, rfl, -⟩ := lists_twins hi
    exact Nat.one_pos
  parents v _ := by
    refine not_circle_of_lt (fun v : Option Bool => if v = none then 0 else 1) (fun v p h => ?_) v
    obtain ⟨hv, rfl⟩ := hasParent_twins h
    simp [hv]
  arguments v _ := by
    refine ⟨v, ?_⟩
    rintro m ⟨u, x, o, -, hu, -⟩
    cases hu with
    | call _ ho => cases ho
    | proxy _ _ _ _ ho => cases ho

namespace Snapshot

/-- The keys of the leaves are asked for while types identify nodes. -/
def keyed : Snapshot (Option Bool) :=
  ((Request.key (some false)).op.exec twins
    ((Request.key (some true)).op.exec twins (ofRoot { identify := .type } twins none)).2).2

def restyled : Snapshot (Option Bool) := { keyed with config := { identify := .label } }

def labelled : Snapshot (Option Bool) :=
  ((Request.node (some true)).op.exec twins (ofRoot { identify := .label } twins none)).2

def firstLeaf : Fingerprint := { type := "Leaf", label := some "a", span := ⟨2, 3⟩, depth := 1 }

/-- On an orderly tree, two snapshots with the same settings have different locators for a node: to the one
that was asked for keys before the style was changed, the leaves look the same still. -/
theorem Past.locate_restyled :
    twins.Closed (fun _ => True) ∧ twins.Orderly (fun _ => True) ∧
      restyled.Past twins none ∧ labelled.History twins none ∧ restyled.config = labelled.config ∧
      restyled.Knows ⟨1, some true⟩ ∧ labelled.Knows ⟨1, some true⟩ ∧
      ((locate ⟨1, some true⟩).exec twins restyled).1 =
        .ok (some { result := firstLeaf, steps := [.child 0] }) ∧
      ((locate ⟨1, some true⟩).exec twins labelled).1 =
        .ok (some { result := firstLeaf, steps := [.nearest firstLeaf] }) := by
  have hkeyed : keyed.History twins none :=
    ((History.fresh { identify := .type }).request (.key (some true))).request (.key (some false))
  have hfirst : restyled.handle? 1 = some (some true) := by cbv
  have hfirst' : labelled.handle? 1 = some (some true) := by cbv
  refine ⟨closed_twins, orderly_twins, (Past.history hkeyed).configure _, ?_, by cbv, hfirst, hfirst', ?_, ?_⟩
  · exact (History.fresh { identify := .label }).request (.node (some true))
  · decide +kernel
  · decide +kernel

end Snapshot

end Waymark
