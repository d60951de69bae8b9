import Waymark.Proofs.Route.Cuts
import Waymark.Proofs.Snapshot.Searching

/-!
# Routes and what is left of them

Here it is said what a locator is, apart from how it is made. It follows the hops of a route from the
root. A hop may be left out only in a block of structural hops, and only if the hop after the block was
singled out by a search from the node before it. Locators among the arguments of calls are of the same
kind.
-/

namespace Waymark

def Step.hops : Step → Nat
  | .nearest f => f.depth.toNat
  | .child _ | .derived _ => 1

namespace Op

open Snapshot

variable {ν : Type}

/-! ## Steps -/

structure Pictures (w : View ν) (v : ν) (depth : Nat) (f : Fingerprint) : Prop where
  type : f.type = w.host.typeName v
  label : f.label = match w.config.identify with
    | .label => w.host.shownLabel v
    | .type => none
  span : w.HasSpan v f.span
  depth : f.depth = depth.toUInt32
  external : f.external = w.host.isExternal v

inductive StepFor (w : View ν) (depth : Nat) : Hop (Node ν) → Step → Prop where
  | nearest {n : Node ν} {index : Nat} {f : Fingerprint} (hf : Pictures w n.host depth f) :
    StepFor w depth (.structural n index true) (.nearest f)
  | child {n : Node ν} {index : Nat} : StepFor w depth (.structural n index false) (.child index.toUInt64)
  | derived {n : Node ν} {call : Call} : StepFor w depth (.derived n call) (.derived call)

/-- Hop `m` is the first one to a node of the type from which searches start, and no call is made before. -/
structure IsSearchRoot (w : View ν) (hops : List (Hop (Node ν))) (m : Nat) : Prop where
  structural : ∀ k, k < m + 1 → ∃ h, hops[k]? = some h ∧ h.isStructural = true
  type : ∃ h, hops[m]? = some h ∧ w.host.searchRoot = some (w.host.typeName h.node.host)
  first : ∀ k h, k < m → hops[k]? = some h → w.host.searchRoot ≠ some (w.host.typeName h.node.host)

theorem StepFor.hops_eq {w : View ν} {h : Hop (Node ν)} {step : Step} (hstep : StepFor w 1 h step) :
    step.hops = 1 := by
  cases hstep with
  | nearest hf => rw [Step.hops, hf.depth]; rfl
  | child => rfl
  | derived => rfl

variable [DecidableEq ν]

/-- Between two snapshots, a search from `a` for what `n` looks like, `depth` hops below, found `n` and no
other node that is as good. -/
def Singled (w : View ν) (s t : Snapshot ν) (a n : Node ν) (depth : Nat) : Prop :=
  ∃ u u' target, s ≤ u ∧ u' ≤ t ∧ u.Sound w.host ∧ Aims w u n depth target ∧
    (uniqueMatch a target).exec w.host u = (.ok (some n), u')

inductive Thins (w : View ν) (s t : Snapshot ν) : Node ν → List (Hop (Node ν)) → List Step → Prop where
  | nil {a : Node ν} : Thins w s t a [] []
  | keep {a : Node ν} {h : Hop (Node ν)} {hs : List (Hop (Node ν))} {step : Step} {steps : List Step}
    (hstep : StepFor w 1 h step) (hrest : Thins w s t h.node hs steps) :
    Thins w s t a (h :: hs) (step :: steps)
  /-- The block is left out, since the hop after it was found from where the block begins. -/
  | cut {a n : Node ν} {block hs : List (Hop (Node ν))} {index : Nat} {f : Fingerprint}
    {steps : List Step} (hne : block ≠ []) (hblock : ∀ h ∈ block, h.isStructural = true)
    (hfound : Singled w s t a n (block.length + 1)) (hf : Pictures w n.host (block.length + 1) f)
    (hrest : Thins w s t n hs steps) :
    Thins w s t a (block ++ .structural n index true :: hs) (.nearest f :: steps)

/-! ## Locators -/

mutual

/-- The locator follows the hops from the root to the node. -/
inductive Describes (w : View ν) (s t : Snapshot ν) : Node ν → Locator → Prop where
  | intro {n root : Node ν} {l : Locator} {hops : List (Hop (Node ν))}
    (hroot : root.host = w.root) (htop : w.parent root.host = .ok none)
    (hroute : Comes w s t root hops n)
    (hthins : Thins w s t root hops l.steps)
    (hresult : Pictures w n.host hops.length l.result)
    -- With a type from which searches start, all hops down to the first node of that type are kept.
    (hkept : ∀ m, IsSearchRoot w hops m → ∃ kept rest, l.steps = kept ++ rest ∧
      List.Forall₂ (StepFor w 1) (hops.take (m + 1)) kept)
    (hdepth : t.size ≤ 2 ^ 32 →
      l.result.depth.toNat = hops.length ∧ (l.steps.map Step.hops).sum = hops.length) :
    Describes w s t n l

inductive Comes (w : View ν) (s t : Snapshot ν) : Node ν → List (Hop (Node ν)) → Node ν → Prop where
  | nil {a : Node ν} : Comes w s t a [] a
  | child {a n b : Node ν} {index : Nat} {findable : Bool} {hs : List (Hop (Node ν))}
    (he : w.host.Enters n.host a.host none) (hl : w.host.Lists a.host index n.host)
    (hfirst : ∀ i, i < index → ¬ w.host.Lists a.host i n.host)
    (hspan : findable = true → ∃ span, w.HasSpan n.host span ∧ span.isMeaningful = true)
    (hrest : Comes w s t n hs b) :
    Comes w s t a (.structural n index findable :: hs) b
  | call {a n b : Node ν} {o : Origin ν} {args : List Arg} {hs : List (Hop (Node ν))}
    (he : w.host.Enters n.host a.host (some o)) (hargs : EncodesAll w s t o.args args)
    (hrest : Comes w s t n hs b) : Comes w s t a (.derived n ⟨o.name, args⟩ :: hs) b

inductive Encodes (w : View ν) (s t : Snapshot ν) : Value ν → Arg → Prop where
  | string {x : String} : Encodes w s t (.string x) (.string x)
  | integer {i : Int64} : Encodes w s t (.integer i) (.integer i)
  | bool {b : Bool} : Encodes w s t (.bool b) (.bool b)
  | stream {name : String} : Encodes w s t (.stream name) (.stream name)
  | any : Encodes w s t .any .any
  | noNode : Encodes w s t (.node none) (.node none)
  | node {n : Node ν} {l : Locator} (h : Describes w s t n l) :
    Encodes w s t (.node (some n.host)) (.node (some l))
  | collection {vs : List (Value ν)} {as : List Arg} (h : EncodesAll w s t vs as) :
    Encodes w s t (.collection vs) (.collection as)

inductive EncodesAll (w : View ν) (s t : Snapshot ν) : List (Value ν) → List Arg → Prop where
  | nil : EncodesAll w s t [] []
  | cons {v : Value ν} {vs : List (Value ν)} {a : Arg} {as : List Arg} (h : Encodes w s t v a)
    (hs : EncodesAll w s t vs as) : EncodesAll w s t (v :: vs) (a :: as)

end

/-! ## Between earlier and later snapshots -/

section
variable {w : View ν} {s t s' t' : Snapshot ν}

theorem Singled.mono {a n : Node ν} {depth : Nat} (h : Singled w s t a n depth) (hs : s' ≤ s)
    (ht : t ≤ t') : Singled w s' t' a n depth := by
  obtain ⟨u, u', target, hu, hu', h⟩ := h
  exact ⟨u, u', target, le_trans hs hu, le_trans hu' ht, h⟩

theorem Thins.mono {a : Node ν} {hops : List (Hop (Node ν))} {steps : List Step}
    (h : Thins w s t a hops steps) (hs : s' ≤ s) (ht : t ≤ t') : Thins w s' t' a hops steps := by
  induction h with
  | nil => exact .nil
  | keep hstep _ ih => exact .keep hstep ih
  | cut hne hblock hfound hf _ ih => exact .cut hne hblock (hfound.mono hs ht) hf ih

mutual

theorem Describes.mono (hs : s' ≤ s) (ht : t ≤ t') : ∀ {n : Node ν} {l : Locator},
    Describes w s t n l → Describes w s' t' n l
  | _, _, .intro hroot htop hroute hthins hresult hkept hdepth =>
    .intro hroot htop (hroute.mono hs ht) (hthins.mono hs ht) hresult hkept
      fun hsize => hdepth (Nat.le_trans (size_mono ht) hsize)

theorem Comes.mono (hs : s' ≤ s) (ht : t ≤ t') : ∀ {a b : Node ν} {hops : List (Hop (Node ν))},
    Comes w s t a hops b → Comes w s' t' a hops b
  | _, _, _, .nil => .nil
  | _, _, _, .child he hl hfirst hspan hrest => .child he hl hfirst hspan (hrest.mono hs ht)
  | _, _, _, .call he hargs hrest => .call he (hargs.mono hs ht) (hrest.mono hs ht)

theorem Encodes.mono (hs : s' ≤ s) (ht : t ≤ t') : ∀ {v : Value ν} {a : Arg},
    Encodes w s t v a → Encodes w s' t' v a
  | _, _, .string => .string
  | _, _, .integer => .integer
  | _, _, .bool => .bool
  | _, _, .stream => .stream
  | _, _, .any => .any
  | _, _, .noNode => .noNode
  | _, _, .node h => .node (h.mono hs ht)
  | _, _, .collection h => .collection (h.mono hs ht)

theorem EncodesAll.mono (hs : s' ≤ s) (ht : t ≤ t') : ∀ {vs : List (Value ν)} {as : List Arg},
    EncodesAll w s t vs as → EncodesAll w s' t' vs as
  | _, _, .nil => .nil
  | _, _, .cons h htail => .cons (h.mono hs ht) (htail.mono hs ht)

end

end

/-! ## Depths -/

/-- As far as depths fit into 32 bits, those of the steps add up to the length of the route. -/
theorem Thins.sum_hops {w : View ν} {s t : Snapshot ν} {a : Node ν} {hops : List (Hop (Node ν))}
    {steps : List Step} (h : Thins w s t a hops steps) (hlt : hops.length < 2 ^ 32) :
    (steps.map Step.hops).sum = hops.length := by
  induction h with
  | nil => rfl
  | keep hstep _ ih =>
    rw [List.length_cons] at hlt ⊢
    rw [List.map_cons, List.sum_cons, hstep.hops_eq, ih (by omega), Nat.add_comm]
  | @cut a n block hs index f steps _ _ _ hf _ ih =>
    rw [List.length_append, List.length_cons] at hlt ⊢
    have hfirst : Step.hops (.nearest f) = block.length + 1 := by
      rw [Step.hops, hf.depth, Nat.toUInt32, UInt32.toNat_ofNat', Nat.mod_eq_of_lt (by omega)]
    rw [List.map_cons, List.sum_cons, hfirst, ih (by omega)]
    omega

end Op

end Waymark
