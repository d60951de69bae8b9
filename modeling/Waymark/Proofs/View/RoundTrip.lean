import Waymark.Proofs.Snapshot.Recovered
import Waymark.Proofs.View.Agreement
import Waymark.Proofs.View.Shortcuts

/-!
# Locators lead back

On a coherent tree with nested spans the locator of a node leads to that node, and each search on the way
singles out what it finds. A route is a chain of hops; the steps that are left of it take the same way
with fewer stops.
-/

namespace Waymark

open Relation

variable {ν : Type} [DecidableEq ν]

namespace View

variable (w : View ν)

/-! ## Ways -/

/-- The steps lead from the first node to the last one, and no search among them is ambiguous. -/
inductive ClearPath : ν → List Step → ν → Prop where
  | nil {a : ν} : ClearPath a [] a
  | cons {a b c : ν} {step : Step} {steps : List Step} (h : w.follow a step = .ok (some b))
    (hclear : ∀ f, step = .nearest f → w.isAmbiguous a f = .ok false) (ht : ClearPath b steps c) :
    ClearPath a (step :: steps) c

def Leads (N : ν → Prop) (u : ν) : Hop ν → Prop
  | .structural v index findable => N u ∧ w.host.Lists u index v ∧ w.isFindable u v = .ok findable
  | .derived v call => w.follow u (.derived call) = .ok (some v)

inductive Chain (N : ν → Prop) : ν → List (Hop ν) → ν → Prop where
  | nil {a : ν} : Chain N a [] a
  | cons {a b : ν} {h : Hop ν} {hs : List (Hop ν)} (hl : w.Leads N a h) (ht : Chain N h.node hs b) :
    Chain N a (h :: hs) b

variable {w}

theorem ClearPath.followAll {a b : ν} {steps : List Step} (h : w.ClearPath a steps b) :
    w.followAll a steps = .ok (some b) := by
  induction h with
  | nil => rfl
  | cons h _ _ ih =>
    rw [View.followAll, h]
    exact ih

theorem ClearPath.clear {a b : ν} {pre post : List Step} {f : Fingerprint}
    (h : w.ClearPath a (pre ++ .nearest f :: post) b) :
    ∃ u, w.followAll a pre = .ok (some u) ∧ w.isAmbiguous u f = .ok false := by
  induction pre generalizing a with
  | nil =>
    cases h with
    | cons _ hclear _ => exact ⟨a, rfl, hclear f rfl⟩
  | cons step pre ih =>
    cases h with
    | cons h _ ht =>
      obtain ⟨u, hu, hf⟩ := ih ht
      refine ⟨u, ?_, hf⟩
      rw [View.followAll, h]
      exact hu

omit [DecidableEq ν] in
theorem startOf_succ {hops : List (Hop ν)} {k : Nat} {h : Hop ν} (hk : hops[k]? = some h) :
    w.startOf hops (k + 1) = h.node := by
  rw [startOf, hk]
  rfl

/-! ## One step -/

section
variable {N : ν → Prop} (hc : w.host.Coherent w.root N) (hn : w.host.Nested w.config.positions N)
variable (hsp : w.Spares N) (hm : w.host.Measured N)

def Clears (w : View ν) (a : ν) (step : Step) (v : ν) : Prop :=
  w.follow a step = .ok (some v) ∧ ∀ f, step = .nearest f → w.isAmbiguous a f = .ok false

theorem clears_nearest {a v : ν} {t : Sought} {f : Fingerprint} {depth : Nat} (hd : depth < 2 ^ 32)
    (hf : w.fingerprint v depth = .ok f) (ht : w.soughtAt v depth = .ok t) (hs : w.Singles a t v) :
    w.Clears a (.nearest f) v := by
  obtain rfl := Except.ok.inj (ht.symm.trans (soughtAt_of_fingerprint hd hf))
  refine ⟨hs.follow, ?_⟩
  rintro _ ⟨⟩
  exact hs.not_ambiguous

include hm in
theorem clears_child {p v : ν} {i : Nat} (hp : N p) (hv : w.host.Lists p i v) :
    w.Clears p (.child i.toUInt64) v := by
  obtain ⟨count, hcount, hlt, -⟩ := id hv
  have hi : i.toUInt64.toNat = i := by
    have hwide := hm.wide p count hp hcount
    rw [Nat.toUInt64, UInt64.toNat_ofNat', Nat.mod_eq_of_lt (by omega)]
  have hcount' : w.childCount p = .ok count := told_eq_ok.2 hcount
  refine ⟨?_, nofun⟩
  rw [follow, hcount', hi]
  show (if i < count then _ else _) = _
  rw [if_pos hlt, child_eq_ok.2 hv]
  rfl

/-! ## From hops to steps -/

variable (w) in
def stepFor (depth : Nat) : Hop ν → Except Fault Step
  | .structural v _ true => return .nearest (← w.fingerprint v depth)
  | .structural _ index false => return .child index.toUInt64
  | .derived _ call => return .derived call

omit [DecidableEq ν] in
theorem stepsFrom_kept {cuts : List Shortcut} {h : Hop ν} {hs : List (Hop ν)} {k anchor : Nat}
    (hk : ¬ cuts.any (·.skips k) = true) : w.stepsFrom cuts (h :: hs) k anchor = (do
      let step ← w.stepFor (k + 1 - anchor) h
      return step :: (← w.stepsFrom cuts hs (k + 1) (k + 1))) := by
  rw [stepsFrom, if_neg hk]
  cases h with
  | derived v call => rfl
  | structural v index findable =>
    cases findable with
    | false => rfl
    | true =>
      dsimp only [stepFor]
      cases w.fingerprint v (k + 1 - anchor) <;> rfl

include hc hsp hm in
/-- A hop that is kept right after another one. -/
theorem clears_direct {u : ν} {h : Hop ν} {step : Step} (hl : w.Leads N u h)
    (hstep : w.stepFor 1 h = .ok step) : w.Clears u step h.node := by
  cases h with
  | structural v index findable =>
    obtain ⟨hu, hv, hf⟩ := hl
    cases findable with
    | true =>
      simp only [stepFor, bind_eq_ok, pure_eq_ok] at hstep
      obtain ⟨f, hf', rfl⟩ := hstep
      obtain ⟨t, ht, ha⟩ := alone_of_findable ⟨index, hv⟩ hf
      exact clears_nearest (by decide) hf' ht (singles_alone hc hsp ha hu)
    | false =>
      obtain rfl := pure_eq_ok.1 hstep
      exact clears_child hm hu hv
  | derived v call =>
    obtain rfl := pure_eq_ok.1 hstep
    exact ⟨hl, by simp⟩

/-- A hop at the end of a shortcut. -/
theorem clears_cut {hops : List (Hop ν)} {first stop : Nat} {h : Hop ν} {step : Step}
    (hcut : w.IsCut hops ⟨first, stop⟩) (hh : hops[stop]? = some h) (hd : stop + 1 - first < 2 ^ 32)
    (hstep : w.stepFor (stop + 1 - first) h = .ok step) : w.Clears (w.startOf hops first) step h.node := by
  obtain ⟨v, index, t, hv, ht, hs⟩ := hcut.found
  obtain rfl : h = .structural v index true := Option.some.inj (hh.symm.trans hv)
  simp only [stepFor, bind_eq_ok, pure_eq_ok] at hstep
  obtain ⟨f, hf, rfl⟩ := hstep
  exact clears_nearest hd hf ht hs

include hc hsp hm in
/-- The steps take the way of the hops from number `k` on. -/
theorem clearPath_stepsFrom {hops : List (Hop ν)} (hshort : hops.length < 2 ^ 32) {cuts : List Shortcut}
    (hcuts : Shortcut.Cuts (w.IsCut hops) 0 hops.length cuts) {v : ν} : ∀ {hs : List (Hop ν)} {k anchor : Nat}
    {steps : List Step}, hops.drop k = hs → w.Chain N (w.startOf hops k) hs v →
    Shortcut.Anchored cuts anchor k → w.stepsFrom cuts hs k anchor = .ok steps →
    w.ClearPath (w.startOf hops anchor) steps v
  | [], k, anchor, steps, hdrop, hchain, hanchor, h => by
    obtain rfl := pure_eq_ok.1 h
    have hk := List.drop_eq_nil_iff.1 hdrop
    obtain rfl : anchor = k := hanchor.eq_of_end hcuts hk
    cases hchain
    exact .nil
  | h :: hs, k, anchor, steps, hdrop, hchain, hanchor, hsteps => by
    have hget : hops[k]? = some h := by
      rw [← List.head?_drop, hdrop]
      rfl
    have hdrop' : hops.drop (k + 1) = hs := by
      rw [← List.tail_drop, hdrop]
      rfl
    have hklt : k < hops.length := (List.getElem?_eq_some_iff.1 hget).1
    cases hchain with
    | cons hl ht =>
      rw [← startOf_succ (w := w) hget] at ht
      by_cases hkeep : cuts.any (·.skips k) = true
      · rw [stepsFrom, if_pos hkeep] at hsteps
        exact clearPath_stepsFrom hshort hcuts hdrop' ht (hanchor.skip hkeep) hsteps
      · simp only [stepsFrom_kept hkeep, bind_eq_ok, pure_eq_ok] at hsteps
        obtain ⟨step, hstep, rest, hrest, rfl⟩ := hsteps
        have hclear := clearPath_stepsFrom hshort hcuts hdrop' ht (Shortcut.Anchored.keep hkeep) hrest
        rw [startOf_succ hget] at hclear
        have hclears : w.Clears (w.startOf hops anchor) step h.node := by
          by_cases hlt : anchor < k
          · exact clears_cut (hcuts.isCut _ (hanchor.cut hcuts hkeep hlt)) hget (by omega) hstep
          · obtain rfl : anchor = k := by
              have := hanchor.le
              omega
            rw [Nat.add_sub_cancel_left] at hstep
            exact clears_direct hc hsp hm hl hstep
        exact .cons hclears.1 hclears.2 hclear

/-! ## Arguments -/

variable (w N) in
def LeadsBack (locate : ν → Except Fault (Option Locator)) : Prop :=
  ∀ v, N v → ∀ l, locate v = .ok (some l) → w.ClearPath w.root l.steps v

section
variable {locate : ν → Except Fault (Option Locator)}

mutual

theorem decodeArg_of_encodeValue (hloc : w.LeadsBack N locate) :
    ∀ {x : Value ν} {a : Arg}, (∀ m ∈ x.nodes, N m) → encodeValue locate x = .ok (some a) →
      w.decodeArg a = .ok (some x)
  | .string _, a, _, h | .integer _, a, _, h | .bool _, a, _, h | .stream _, a, _, h | .any, a, _, h
  | .node none, a, _, h => by
    rw [encodeValue, pure_eq_ok] at h
    cases h
    rw [decodeArg]
    rfl
  | .node (some m), a, hx, h => by
    simp only [encodeValue, bind_eq_ok] at h
    obtain ⟨l, hl, h⟩ := h
    cases l with
    | none => cases h
    | some l =>
      obtain rfl := Option.some.inj (pure_eq_ok.1 h)
      obtain ⟨result, steps⟩ := l
      rw [decodeArg, (hloc m (hx m (by simp [Value.nodes])) _ hl).followAll]
      rfl
  | .collection items, a, hx, h => by
    simp only [encodeValue, bind_eq_ok, pure_eq_ok, Option.map_eq_some_iff] at h
    obtain ⟨_, hitems, as, rfl, rfl⟩ := h
    rw [decodeArg, decodeArgs_of_encodeValues hloc (by simpa [Value.nodes] using hx) hitems]
    rfl

theorem decodeArgs_of_encodeValues (hloc : w.LeadsBack N locate) :
    ∀ {xs : List (Value ν)} {as : List Arg}, (∀ m ∈ Value.nodesList xs, N m) →
      encodeValues locate xs = .ok (some as) → w.decodeArgs as = .ok (some xs)
  | [], as, _, h => by
    rw [encodeValues, pure_eq_ok] at h
    cases h
    rw [decodeArgs]
    rfl
  | x :: xs, as, hx, h => by
    simp only [Value.nodesList, List.mem_append] at hx
    simp only [encodeValues, bind_eq_ok] at h
    obtain ⟨a, ha, h⟩ := h
    cases a with
    | none => cases h
    | some a =>
      simp only [bind_eq_ok, pure_eq_ok, Option.map_eq_some_iff] at h
      obtain ⟨_, has, bs, rfl, rfl⟩ := h
      rw [decodeArgs, decodeArg_of_encodeValue hloc (fun m hm => hx m (.inl hm)) ha]
      show (w.decodeArgs bs >>= _) = _
      rw [decodeArgs_of_encodeValues hloc (fun m hm => hx m (.inr hm)) has]
      rfl

end

/-! ## Routes -/

include hc in
/-- A call that enters a node can be made again. -/
theorem leads_derived (hloc : w.LeadsBack N locate) {v u : ν} {o : Origin ν} {call : Call} (hv : N v)
    (he : w.host.Enters v u (some o)) (hcall : encodeCall locate o = .ok (some call)) :
    w.Leads N u (.derived v call) := by
  have hargs : ∀ m ∈ Value.nodesList o.args, N m := by
    intro m hm
    exact (Rebuild.inBoth_needs (B := itself hc) hv ⟨v, u, o, .refl, he, hm⟩).isNode
  simp only [encodeCall, bind_eq_ok, pure_eq_ok, Option.map_eq_some_iff] at hcall
  obtain ⟨_, has, as, rfl, rfl⟩ := hcall
  rw [Leads, follow, decodeArgs_of_encodeValues hloc hargs has]
  exact told_eq_ok.2 (hc.honoured v u o hv he)

omit [DecidableEq ν] in
/-- The way to a node does not come from deeper down. -/
theorem depth_lt_of_parents {depth : ν → Nat} (hc : w.host.Closed N)
    (hdepth : ∀ v, N v → ∀ p, w.host.HasParent v p → depth p < depth v) {v u : ν} (hv : N v)
    (h : TransGen w.host.HasParent v u) : N u ∧ depth u < depth v := by
  induction h with
  | single hp => exact ⟨hc.parent _ _ hv hp, hdepth _ hv _ hp⟩
  | tail _ hp ih => exact ⟨hc.parent _ _ ih.1 hp, Nat.lt_trans (hdepth _ ih.1 _ hp) ih.2⟩

include hc in
theorem chain_climb (hloc : w.LeadsBack N locate) {depth : ν → Nat}
    (hdepth : ∀ v, N v → ∀ p, w.host.HasParent v p → depth p < depth v) {start : ν} :
    ∀ {fuel : Nat} {v top : ν} {below hops : List (Hop ν)}, N v → w.Chain N v below start →
      below.length + depth v ≤ depth start → w.climb locate fuel v below = .ok (some (top, hops)) →
      w.Chain N top hops start ∧ hops.length ≤ depth start
  | 0, v, top, below, hops, _, _, _, h => by cases h
  | fuel + 1, v, top, below, hops, hv, hchain, hlen, h => by
    simp only [climb, bind_eq_ok] at h
    obtain ⟨p, hp, h⟩ := h
    cases p with
    | none =>
      rw [pure_eq_ok] at h
      cases h
      exact ⟨hchain, by omega⟩
    | some p =>
      simp only [bind_eq_ok] at h
      obtain ⟨hop, hhop, h⟩ := h
      cases hop with
      | none => cases h
      | some hop =>
        obtain ⟨hop, up⟩ := hop
        have hp' := parent_eq_ok.1 hp
        have henter : w.Leads N up hop ∧ hop.node = v ∧ TransGen w.host.HasParent v up := by
          rcases hopTo_eq_ok hp' hhop with ⟨o, call, he, hcall, rfl⟩ | ⟨i, findable, rfl, he, hl, hf, rfl⟩
          · exact ⟨leads_derived hc hloc hv he hcall, rfl, he.parents⟩
          · exact ⟨⟨hc.closed.parent v up hv hp', hl, hf⟩, rfl, he.parents⟩
        obtain ⟨hleads, hnode, hup⟩ := henter
        obtain ⟨hnup, hlt⟩ := depth_lt_of_parents hc.closed hdepth hv hup
        exact chain_climb hloc hdepth hnup (.cons hleads (hnode ▸ hchain)) (by simp; omega) h

include hc hm in
theorem chain_route (hloc : w.LeadsBack N locate) {v : ν} {hops : List (Hop ν)} (hv : N v)
    (h : w.route locate v = .ok (some hops)) :
    w.Chain N w.root hops v ∧ hops.length < 2 ^ 32 := by
  obtain ⟨depth, hdepth⟩ := hm.deep
  simp only [route, bind_eq_ok] at h
  obtain ⟨found, hfound, h⟩ := h
  cases found with
  | none => cases h
  | some found =>
    obtain ⟨top, hops'⟩ := found
    rw [pure_eq_ok] at h
    split at h
    · rename_i htop
      obtain rfl := Option.some.inj h
      obtain ⟨hchain, hlen⟩ := chain_climb hc hloc (fun v hv => (hdepth v hv).2) hv .nil (by simp) hfound
      exact ⟨htop ▸ hchain, Nat.lt_of_le_of_lt hlen (hdepth v hv).1⟩
    · cases h

end

/-! ## Locators -/

include hc hm

include hsp in
theorem leadsBack_locateWith {locate : ν → Except Fault (Option Locator)} (hloc : w.LeadsBack N locate) :
    w.LeadsBack N (w.locateWith locate) := by
  intro v hv l h
  simp only [locateWith, bind_eq_ok] at h
  obtain ⟨found, hfound, h⟩ := h
  cases found with
  | none => cases h
  | some hops =>
    simp only [bind_eq_ok, pure_eq_ok, shorten] at h
    obtain ⟨result, -, steps, ⟨cuts, hcuts, hsteps⟩, h⟩ := h
    obtain rfl := Option.some.inj h
    obtain ⟨hchain, hlen⟩ := chain_route hc hm hloc hv hfound
    have hstart : w.Chain N (w.startOf hops 0) hops v := hchain
    exact clearPath_stepsFrom hc hsp hm hlen (shortcuts_eq_ok hcuts) List.drop_zero hstart
      Shortcut.Anchored.zero hsteps

include hsp in
theorem leadsBack_of_spares : w.LeadsBack N w.locate := by
  have within : ∀ fuel, w.LeadsBack N (w.locateWithin fuel) := by
    intro fuel
    induction fuel with
    | zero =>
      intro v _ l h
      cases h
    | succ fuel ih => exact leadsBack_locateWith hc hsp hm ih
  exact within w.reach

include hn

theorem leadsBack_locate : w.LeadsBack N w.locate :=
  leadsBack_of_spares hc (spares_of_nested hc hn) hm

theorem resolve_locate {v : ν} {l : Locator} (hv : N v) (h : w.locate v = .ok (some l)) :
    ∃ span, w.span v = .ok span ∧ w.resolve l = .ok (some ⟨v, span, l⟩) := by
  obtain ⟨span, hspan⟩ := span_total hc hv
  refine ⟨span, hspan, ?_⟩
  rw [resolve, resolveSteps, (leadsBack_locate hc hn hm v hv l h).followAll]
  show (w.span v >>= _) = _
  rw [hspan]
  show (w.locate v >>= _) = _
  rw [h]
  rfl

end

end View

/-! ## In every snapshot -/

namespace Op

def isAmbiguousAfter (steps : List Step) (f : Fingerprint) : Op ν Bool := do
  match ← resolveSteps steps with
  | some n => isAmbiguous n f
  | none => return true

end Op

open Op Snapshot

section
variable {B : Rebuild ν ν} {t : Snapshot ν}

theorem fits_isAmbiguousAfter (steps : List Step) (f : Fingerprint) :
    B.Fits t (isAmbiguousAfter steps f) (do
      match ← B.view.resolveSteps steps with
      | some u => B.view.isAmbiguous u f
      | none => return true) (fun _ a b => a = b) := by
  refine (Rebuild.fits_resolveSteps steps).bind fun s m u _ _ hmu => ?_
  cases hmu with
  | none => exact Rebuild.Fits.pure fun _ _ _ => rfl
  | some hmu => exact Rebuild.fits_isAmbiguous hmu f .none

theorem fits_spanOf {v : ν} (hv : B.IsNode v) :
    B.Fits t (spanOf (B.place v)) (B.view.span v) (fun _ a b => a = b) :=
  (Rebuild.fits_intern hv).sure_bind fun _ _ _ _ hm => Rebuild.fits_span hm

end

/-- On a coherent tree with nested spans the locator of a node that any snapshot gives leads back to that
node in every snapshot with the same settings. No search on the way is ambiguous, and the node that was
found has the same locator again. -/
theorem Host.Coherent.leads_back {host : Host ν} {root : ν} {N : ν → Prop} {config : Config}
    (hc : host.Coherent root N) (hn : host.Nested config.positions N) (hm : host.Measured N)
    {s t : Snapshot ν} (hs : s.History host root) (ht : t.History host root) (hsc : s.config = config)
    (htc : t.config = config) {n : Node ν} (hk : s.Knows n) (hv : N n.host) {l : Locator}
    (hl : ((locate n).exec host s).1 = .ok (some l)) :
    (∃ m, ((resolveSteps l.steps).exec host t).1 = .ok (some m) ∧
      ((resolveSteps l.steps).exec host t).2.find? n.host = some m) ∧
    (∀ before f after, l.steps = before ++ .nearest f :: after →
      ((isAmbiguousAfter before f).exec host t).1 = .ok false) ∧
    ∃ m span, ((resolve l).exec host t).1 = .ok (some ⟨m, span, l⟩) ∧
      ((resolve l).exec host t).2.find? n.host = some m ∧
      ((spanOf n.host).exec host t).1 = .ok span := by
  let B := View.itself (w := ⟨host, config, root⟩) hc
  have hs' : s.Of B.copy B.Kept := Rebuild.of_history hs hsc
  have ht' : t.Of B.copy B.Kept := Rebuild.of_history ht htc
  have hstands : B.Stands s n n.host := ⟨⟨hk, rfl⟩, hv⟩
  have hlocate : B.view.locate n.host = .ok (some l) :=
    ((Rebuild.fits_locate hstands).agree hs').eq.symm.trans hl
  have hclear := View.leadsBack_locate (w := B.view) hc hn hm n.host hv l hlocate
  obtain ⟨span, hspan, hresolve⟩ := View.resolve_locate (w := B.view) hc hn hm hv hlocate
  refine ⟨?_, fun before f after hsteps => ?_, ?_⟩
  · have hfits : B.Fits t (resolveSteps l.steps) _ _ := Rebuild.fits_resolveSteps l.steps
    obtain ⟨_, hrun, hrel⟩ := (hfits.agree ht').exists_ok hclear.followAll
    cases hrel with
    | some hm => exact ⟨_, hrun, (hfits.after ht').arena.find?_eq_some_iff.2 hm.1⟩
  · rw [hsteps] at hclear
    obtain ⟨u, hu, hf⟩ := hclear.clear
    have hagree := (fits_isAmbiguousAfter (B := B) (t := t) before f).agree ht'
    rw [View.resolveSteps, hu] at hagree
    exact hagree.eq.trans hf
  · have hfits : B.Fits t (resolve l) _ _ := Rebuild.fits_resolve l
    obtain ⟨_, hrun, hrel⟩ := (hfits.agree ht').exists_ok hresolve
    cases hrel with
    | @some r _ hr =>
      obtain ⟨m, span', l'⟩ := r
      obtain rfl : span' = span := hr.span
      obtain rfl : l' = l := hr.locator
      have hfound := (hfits.after ht').arena.find?_eq_some_iff.2 hr.node.1
      exact ⟨m, span', hrun, hfound, ((fits_spanOf (B := B) hv).agree ht').eq.trans hspan⟩

/-! ## A block of two expressions, and the result of a call on the second one with the first -/

inductive Part where
  | block
  | first
  | second
  | result
  deriving DecidableEq

namespace Part

def tree : Host Part where
  size := 4
  childCount v := .ok (if v = block then 2 else 0)
  child _ i := .ok (if i = 0 then first else second)
  parent v := .ok (match v with
    | block => none
    | first | second => some block
    | result => some second)
  typeName v := if v = block then "Block" else "Expr"
  packedSpan v := match v with
    | block => some ⟨1, 9⟩
    | first => some ⟨2, 4⟩
    | second => some ⟨5, 8⟩
    | result => none
  origin p v := .ok (if p = second ∧ v = result then some ⟨"value", [.node (some first)]⟩ else none)
  invoke v name args :=
    .ok (if v = second ∧ name = "value" ∧ args = [.node (some first)] then some result else none)
  bounded := ⟨[block, first, second, result], by simp, fun v _ => by cases v <;> simp⟩

theorem lists_tree {p c : Part} {i : Nat} (h : tree.Lists p i c) :
    p = block ∧ (i = 0 ∧ c = first ∨ i = 1 ∧ c = second) := by
  obtain ⟨count, hcount, hi, hc⟩ := h
  simp only [tree, Except.ok.injEq] at hcount hc
  split at hcount
  · refine ⟨by assumption, ?_⟩
    split at hc
    · exact .inl ⟨by assumption, hc.symm⟩
    · exact .inr ⟨by omega, hc.symm⟩
  · omega

theorem ne_result_of_hasParent {v p : Part} (h : tree.HasParent v p) : p ≠ result := by
  cases v <;> simp_all [Host.HasParent, tree] <;> simp [← h]

theorem enters_tree {v u : Part} {o : Origin Part} (h : tree.Enters v u (some o)) :
    v = result ∧ u = second ∧ o = ⟨"value", [.node (some first)]⟩ := by
  have origin : ∀ p, tree.origin p v = .ok (some o) →
      v = result ∧ p = second ∧ o = ⟨"value", [.node (some first)]⟩ := by
    intro p ho
    simp only [tree, Except.ok.injEq] at ho
    split at ho
    · rename_i hpv
      exact ⟨hpv.2, hpv.1, (Option.some.inj ho).symm⟩
    · cases ho
  cases h with
  | call _ ho => exact origin u ho
  | proxy _ _ _ _ ho => exact origin u ho

/-- Only the call has arguments, and the way to its argument makes no call. -/
theorem acc_needs (v : Part) : Acc (fun m u => tree.Needs u m) v := by
  have hfirst : Acc (fun m u => tree.Needs u m) first := by
    refine ⟨first, fun m hm => ?_⟩
    obtain ⟨u, x, o, hu, ho, -⟩ := hm
    obtain ⟨rfl, -, -⟩ := enters_tree ho
    rcases ReflTransGen.cases_tail hu with h | ⟨y, -, o, ho⟩
    · cases h
    · obtain ⟨z, -, hz⟩ := TransGen.tail'_iff.1 ho.parents
      exact absurd rfl (ne_result_of_hasParent hz)
  refine ⟨v, fun m hm => ?_⟩
  obtain ⟨u, x, o, -, ho, hmem⟩ := hm
  obtain ⟨-, -, rfl⟩ := enters_tree ho
  obtain rfl : m = first := by simpa [Value.nodesList, Value.nodes] using hmem
  exact hfirst

theorem coherent_tree : tree.Coherent block fun _ => True where
  closed := ⟨by simp, by simp, by simp, by simp⟩
  isNode_root := trivial
  childCount _ _ := ⟨_, rfl⟩
  child _ _ _ _ _ _ := ⟨_, rfl⟩
  parent _ _ := ⟨_, rfl⟩
  rooted v _ := by
    cases v with
    | block => exact .refl
    | first | second => exact .single rfl
    | result => exact .tail (b := second) (.single rfl) rfl
  parent_root := rfl
  parent_child p c _ h := by
    obtain ⟨i, hi⟩ := h
    obtain ⟨rfl, ⟨-, rfl⟩ | ⟨-, rfl⟩⟩ := lists_tree hi <;> rfl
  once p i j c _ hi hj := by
    obtain ⟨-, ⟨rfl, rfl⟩ | ⟨rfl, rfl⟩⟩ := lists_tree hi <;>
      obtain ⟨-, ⟨rfl, h⟩ | ⟨rfl, h⟩⟩ := lists_tree hj <;> first | rfl | cases h
  honoured v u o _ h := by
    obtain ⟨rfl, rfl, rfl⟩ := enters_tree h
    rfl
  arguments v _ := acc_needs v

theorem nested_tree : tree.Nested .packed fun _ => True where
  ordered v _ := by cases v <;> decide
  inside a d _ h _ := by
    obtain ⟨x, ⟨i, hi⟩, -⟩ := TransGen.head'_iff.1 h
    obtain ⟨y, -, ⟨j, hj⟩⟩ := TransGen.tail'_iff.1 h
    obtain ⟨rfl, -⟩ := lists_tree hi
    obtain ⟨-, ⟨-, rfl⟩ | ⟨-, rfl⟩⟩ := lists_tree hj <;> decide

theorem measured_tree : tree.Measured fun _ => True where
  wide v count _ h := by
    simp only [tree, Except.ok.injEq] at h
    split at h <;> omega
  deep := by
    refine ⟨fun | block => 0 | first | second => 1 | result => 2, fun v _ => ⟨by cases v <;> decide, ?_⟩⟩
    intro p hp
    cases v <;> simp_all [Host.HasParent, tree] <;> simp [← hp]

def asked : Snapshot Part := ((Request.node result).op.exec tree (ofRoot {} tree block)).2

def firstFingerprint : Fingerprint := { type := "Expr", span := ⟨2, 4⟩, depth := 1 }

def resultLocator : Locator where
  result := { type := "Expr", span := ⟨5, 8⟩, depth := 2 }
  steps := [.nearest { type := "Expr", span := ⟨5, 8⟩, depth := 1 },
    .derived ⟨"value", [.node (some ⟨firstFingerprint, [.nearest firstFingerprint]⟩)]⟩]

theorem leads_back_tree :
    ((locate ⟨1, result⟩).exec tree asked).1 = .ok (some resultLocator) ∧
      ∃ m span, ((Op.resolve resultLocator).exec tree (ofRoot {} tree block)).1 =
        .ok (some ⟨m, span, resultLocator⟩) ∧ m.host = result := by
  have hs : asked.History tree block := (History.fresh {}).request (.node result)
  have hl : ((locate ⟨1, result⟩).exec tree asked).1 = .ok (some resultLocator) := by decide +kernel
  have hconfig : asked.config = {} := by cbv
  have hhandle : asked.handle? 1 = some result := by cbv
  have hknows : asked.Knows ⟨1, result⟩ := hhandle
  obtain ⟨-, -, m, span, hrun, hfound, -⟩ := Host.Coherent.leads_back coherent_tree nested_tree
    measured_tree hs (History.fresh {}) hconfig rfl hknows trivial hl
  exact ⟨hl, m, span, hrun, host_of_find? hfound⟩

end Part

end Waymark
