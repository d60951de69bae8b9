import Waymark.Listing.AtPosition
import Waymark.Listing.Subtree
import Waymark.Proofs.Answers

/-!
# Views

A view is a host's tree under fixed settings, seen from a root. Each operation on snapshots is said
here again as a function of the view alone: it asks the host whenever it wants to know something,
remembers nothing, and deals in handles. It fails where the host fails, and where a walk is longer
than the host has nodes.
-/

namespace Waymark

structure View (ν : Type) where
  host : Host ν
  config : Config
  root : ν

namespace View

variable {ν α : Type}

def told : HostAnswer α → Except Fault α
  | .ok a => .ok a
  | .error message => .error (.host message)

@[simp] theorem told_eq_ok {r : HostAnswer α} {a : α} : told r = .ok a ↔ r = .ok a := by
  cases r <;> simp [told]

theorem told_eq_error {r : HostAnswer α} {e : Fault} :
    told r = .error e ↔ ∃ m, r = .error m ∧ e = .host m := by
  cases r <;> simp [told, eq_comm]

section
variable {ε β : Type}

theorem bind_eq_ok {r : Except ε α} {f : α → Except ε β} {b : β} :
    (r >>= f) = .ok b ↔ ∃ a, r = .ok a ∧ f a = .ok b := by
  cases r with
  | ok a => exact ⟨fun h => ⟨a, rfl, h⟩, fun ⟨_, ha, h⟩ => by cases ha; exact h⟩
  | error e => exact ⟨nofun, fun ⟨_, ha, _⟩ => nomatch ha⟩

theorem pure_eq_ok {a b : α} : (pure a : Except ε α) = .ok b ↔ a = b := by
  simp [pure, Except.pure]

theorem mapM_eq_ok {f : α → Except ε β} : ∀ {as : List α} {bs : List β},
    as.mapM f = .ok bs → List.Forall₂ (fun a b => f a = .ok b) as bs
  | [], _, h => by
    rw [List.mapM_nil, pure_eq_ok] at h
    exact h ▸ .nil
  | a :: as, _, h => by
    simp only [List.mapM_cons, bind_eq_ok, pure_eq_ok] at h
    obtain ⟨b, hb, bs, hbs, rfl⟩ := h
    exact .cons hb (mapM_eq_ok hbs)

theorem mapM_eq {f : α → Except ε β} {g : α → β} : ∀ {as : List α},
    (∀ a ∈ as, f a = .ok (g a)) → as.mapM f = .ok (as.map g)
  | [], _ => rfl
  | a :: as, h => by
    rw [List.mapM_cons, h a (by simp), mapM_eq fun b hb => h b (by simp [hb])]
    rfl

end

section
variable (w : View ν)

def reach : Nat := w.host.size + 1

/-! ## Single nodes -/

def childCount (v : ν) : Except Fault Nat := told (w.host.childCount v)

def child (v : ν) (index : Nat) : Except Fault ν := do
  let count ← w.childCount v
  if count ≤ index then throw (.childOutOfRange index count)
  told (w.host.child v index)

def children (v : ν) : Except Fault (List ν) := do
  (List.range (← w.childCount v)).mapM fun i => w.child v i

def parent (v : ν) : Except Fault (Option ν) := told (w.host.parent v)

variable {w} in
theorem child_eq_ok {v c : ν} {i : Nat} : w.child v i = .ok c ↔ w.host.Lists v i c := by
  simp only [child, childCount, bind_eq_ok, told_eq_ok, Host.Lists]
  refine exists_congr fun count => and_congr_right fun _ => ?_
  split
  · rename_i h
    simp [throw, throwThe, MonadExceptOf.throw, bind, Except.bind, Nat.not_lt_of_le h]
  · rename_i h
    simp [Nat.lt_of_not_le h]

variable {w} in
/-- A child that is there fails only if the host does. -/
theorem child_eq_error {v : ν} {i count : Nat} {e : Fault} (hc : w.host.childCount v = .ok count)
    (hi : i < count) : w.child v i = .error e ↔ ∃ m, w.host.child v i = .error m ∧ e = .host m := by
  simp only [child, childCount, hc, told, Nat.not_le_of_lt hi, bind, Except.bind, if_false]
  exact told_eq_error

variable {w} in
theorem parent_eq_ok {v p : ν} : w.parent v = .ok (some p) ↔ w.host.HasParent v p := told_eq_ok

def mark (v : ν) : Mark := w.host.mark w.config.identify v

def rawSpan (v : ν) : Span := w.host.rawSpan w.config.positions v

/-! ## Borrowed spans -/

def firstChild (v : ν) : Except Fault (Option ν) := do
  if 0 < (← w.childCount v) then return some (← w.child v 0) else return none

variable {w} in
theorem firstChild_eq_ok {v c : ν} (h : w.firstChild v = .ok (some c)) : w.host.Lists v 0 c := by
  simp only [firstChild, bind_eq_ok] at h
  obtain ⟨count, -, h⟩ := h
  split at h
  · simp only [bind_eq_ok, pure_eq_ok, Option.some.injEq, exists_eq_right] at h
    exact child_eq_ok.1 h
  · simp [pure_eq_ok] at h

variable {w} in
theorem firstChild_of_lists {v c : ν} (h : w.host.Lists v 0 c) : w.firstChild v = .ok (some c) := by
  obtain ⟨count, hcount, hlt, -⟩ := id h
  simp only [firstChild, childCount, hcount, told, bind, Except.bind, hlt, if_true, child_eq_ok.2 h]
  rfl

variable {w} in
theorem firstChild_of_childless {v : ν} (h : w.host.childCount v = .ok 0) :
    w.firstChild v = .ok none := by
  simp only [firstChild, childCount, h, told]
  rfl

def spanAbove : Nat → ν → Except Fault Span
  | 0, _ => throw .endless
  | fuel + 1, v => do
    match ← w.parent v with
    | none => return .none
    | some p => if (w.rawSpan p).isMeaningful then return w.rawSpan p else spanAbove fuel p

def spanBelow : Nat → ν → Except Fault Span
  | 0, _ => throw .endless
  | fuel + 1, v => do
    match ← w.firstChild v with
    | none => return .none
    | some c => if (w.rawSpan c).isMeaningful then return w.rawSpan c else spanBelow fuel c

def stepUp : Option ν → Except Fault (Option ν × Span)
  | none => return (none, .none)
  | some v => do
    match ← w.parent v with
    | none => return (none, .none)
    | some p => return (some p, w.rawSpan p)

def stepDown : Option ν → Except Fault (Option ν × Span)
  | none => return (none, .none)
  | some v => do
    match ← w.firstChild v with
    | none => return (none, .none)
    | some c => return (some c, w.rawSpan c)

variable {w} in
theorem stepUp_eq_ok {up : Option ν} {p : ν} {span : Span} (h : w.stepUp up = .ok (some p, span)) :
    ∃ u, up = some u ∧ w.host.HasParent u p := by
  cases up with
  | none => simp [stepUp, pure_eq_ok] at h
  | some u =>
    simp only [stepUp, bind_eq_ok] at h
    obtain ⟨q, hq, h⟩ := h
    cases q with
    | none => simp [pure_eq_ok] at h
    | some q =>
      simp only [pure_eq_ok, Prod.mk.injEq, Option.some.injEq] at h
      exact ⟨u, rfl, h.1 ▸ parent_eq_ok.1 hq⟩

variable {w} in
theorem stepDown_eq_ok {down : Option ν} {c : ν} {span : Span}
    (h : w.stepDown down = .ok (some c, span)) : ∃ u, down = some u ∧ w.host.Lists u 0 c := by
  cases down with
  | none => simp [stepDown, pure_eq_ok] at h
  | some u =>
    simp only [stepDown, bind_eq_ok] at h
    obtain ⟨q, hq, h⟩ := h
    cases q with
    | none => simp [pure_eq_ok] at h
    | some q =>
      simp only [pure_eq_ok, Prod.mk.injEq, Option.some.injEq] at h
      exact ⟨u, rfl, h.1 ▸ firstChild_eq_ok hq⟩

def spanAround : Nat → Option ν → Option ν → Except Fault Span
  | _, none, none => return .none
  | 0, _, _ => throw .endless
  | fuel + 1, up, down => do
    let (up, span) ← w.stepUp up
    if span.isMeaningful then return span
    let (down, span) ← w.stepDown down
    if span.isMeaningful then return span
    spanAround fuel up down

variable {w} in
theorem spanAround_none {fuel : Nat} : w.spanAround fuel none none = .ok .none := by
  cases fuel <;> rfl

variable {w} in
theorem spanAround_succ {fuel : Nat} {up down : Option ν} (h : up = none → down ≠ none) :
    w.spanAround (fuel + 1) up down = (do
      let (up, span) ← w.stepUp up
      if span.isMeaningful then return span
      let (down, span) ← w.stepDown down
      if span.isMeaningful then return span
      w.spanAround fuel up down) := by
  cases up with
  | some _ => rfl
  | none =>
    cases down with
    | some _ => rfl
    | none => exact absurd rfl (h rfl)

def borrowedSpan (strategy : Recovery) (v : ν) : Except Fault Span :=
  match strategy with
  | .fail => return .none
  | .parent => w.spanAbove w.reach v
  | .child => w.spanBelow w.reach v
  | .parentThenChild => do
    let span ← w.spanAbove w.reach v
    if span.isMeaningful then return span else w.spanBelow w.reach v
  | .childThenParent => do
    let span ← w.spanBelow w.reach v
    if span.isMeaningful then return span else w.spanAbove w.reach v
  | .alternate => w.spanAround w.reach (some v) (some v)

def spanWith (strategy : Recovery) (v : ν) : Except Fault Span :=
  if (w.rawSpan v).isMeaningful then return w.rawSpan v else w.borrowedSpan strategy v

def span (v : ν) : Except Fault Span := w.spanWith w.config.recovery v

/-! ## Searching -/

end

structure Sought where
  mark : Mark
  span : Span
  depth : Nat

section
variable [DecidableEq ν] (w : View ν)

def soughtOf (f : Fingerprint) : Sought where
  mark := match f.label, w.config.identify with
    | some label, .label => .label label
    | _, _ => .type f.type
  span := f.span
  depth := f.depth.toNat

def soughtAt (v : ν) (depth : Nat) : Except Fault Sought := do
  return { mark := w.mark v, span := ← w.span v, depth }

def pushChildren (v : ν) (depth : Nat) : Nat → List (ν × Nat) → Except Fault (List (ν × Nat))
  | 0, stack => return stack
  | i + 1, stack => do
    let c ← w.child v i
    pushChildren v depth i ((c, depth) :: stack)

omit [DecidableEq ν] in
variable {w} in
/-- The children are on top of the stack, the first one uppermost. -/
theorem pushChildren_eq_ok {v : ν} {depth : Nat} : ∀ {k : Nat} {stack st : List (ν × Nat)},
    w.pushChildren v depth k stack = .ok st →
    ∃ cs : List ν, st = cs.map (·, depth) ++ stack ∧ cs.length = k ∧
      ∀ i c, cs[i]? = some c → w.host.Lists v i c
  | 0, stack, st, h => by
    simp only [pushChildren, pure_eq_ok] at h
    exact ⟨[], by simp [h], rfl, by simp⟩
  | k + 1, stack, st, h => by
    simp only [pushChildren, bind_eq_ok] at h
    obtain ⟨c, hc, h⟩ := h
    obtain ⟨cs, rfl, hlen, hcs⟩ := pushChildren_eq_ok h
    refine ⟨cs ++ [c], by simp, by simp [hlen], fun i x hx => ?_⟩
    rw [List.getElem?_append] at hx
    split at hx
    · exact hcs i x hx
    · have hi : i = k := by
        have := (List.getElem?_eq_some_iff.1 hx).1
        simp only [List.length_singleton] at this
        omega
      subst hi
      simp only [hlen, Nat.sub_self, List.getElem?_cons_zero, Option.some.injEq] at hx
      exact hx ▸ child_eq_ok.1 hc

def isAway (t : Sought) (v : ν) : Bool :=
  (w.rawSpan v).isMeaningful && !(w.rawSpan v).overlaps t.span

def consider (t : Sought) (v : ν) (depth : Nat) (best : Best ν) : Except Fault (Best ν) := do
  if w.mark v = t.mark then
    let s ← w.span v
    let depthError := if depth ≤ t.depth then t.depth - depth else depth - t.depth
    return best.offer v ⟨s.distance t.span, depthError⟩
  else return best

def searchFrom (t : Sought) (strict : Bool) (ignore : Option ν) :
    Nat → List (ν × Nat) → Best ν → Except Fault (Match ν)
  | _, [], best => return best.outcome strict
  | 0, _ :: _, _ => throw .endless
  | fuel + 1, (v, depth) :: stack, best => do
    if ignore = some v then searchFrom t strict ignore fuel stack best
    else if w.host.isExternal v then
      let stack ← w.pushChildren v (depth + 1) (← w.childCount v) stack
      searchFrom t strict ignore fuel stack best
    else if w.isAway t v then searchFrom t strict ignore fuel stack best
    else
      let best ← w.consider t v depth best
      if strict && best.isSettled then return .ambiguous
      let stack ← w.pushChildren v (depth + 1) (← w.childCount v) stack
      searchFrom t strict ignore fuel stack best

def bestMatch (start : ν) (t : Sought) (strict : Bool) (ignore : Option ν := none) :
    Except Fault (Match ν) :=
  w.searchFrom t strict ignore w.reach [(start, 0)] {}

def uniqueMatch (start : ν) (t : Sought) (ignore : Option ν := none) : Except Fault (Option ν) := do
  return (← w.bestMatch start t true ignore).node?

def isAmbiguous (start : ν) (f : Fingerprint) (ignore : Option ν := none) : Except Fault Bool := do
  return (← w.uniqueMatch start (w.soughtOf f) ignore).isNone

/-! ## Routes -/

mutual

def encodeValue (locate : ν → Except Fault (Option Locator)) : Value ν → Except Fault (Option Arg)
  | .string s => return some (.string s)
  | .integer i => return some (.integer i)
  | .bool b => return some (.bool b)
  | .stream name => return some (.stream name)
  | .any => return some .any
  | .node none => return some (.node none)
  | .node (some v) => do
    match ← locate v with
    | some l => return some (.node (some l))
    | none => return none
  | .collection items => return (← encodeValues locate items).map .collection

def encodeValues (locate : ν → Except Fault (Option Locator)) :
    List (Value ν) → Except Fault (Option (List Arg))
  | [] => return some []
  | v :: vs => do
    match ← encodeValue locate v with
    | none => return none
    | some a => return (← encodeValues locate vs).map (a :: ·)

end

def encodeCall (locate : ν → Except Fault (Option Locator)) (o : Origin ν) :
    Except Fault (Option Call) :=
  return (← encodeValues locate o.args).map fun args => ⟨o.name, args⟩

def originOf (p v : ν) : Except Fault (Option (Origin ν)) := told (w.host.origin p v)

def indexFrom (p v : ν) : Nat → Nat → Except Fault (Option Nat)
  | 0, _ => return none
  | left + 1, i => do
    if (← w.child p i) = v then return some i else indexFrom p v left (i + 1)

def hasTwin (v : ν) (s : Span) : List ν → Except Fault Bool
  | [] => return false
  | u :: us => do
    if u = v then hasTwin v s us
    else if w.mark u = w.mark v then
      if (← w.span u) = s then return true else hasTwin v s us
    else hasTwin v s us

variable {w} in
theorem indexFrom_eq_ok {p v : ν} : ∀ {left i j : Nat}, w.indexFrom p v left i = .ok (some j) →
    w.host.Lists p j v
  | 0, _, _, h => by simp [indexFrom, pure_eq_ok] at h
  | left + 1, i, j, h => by
    simp only [indexFrom, bind_eq_ok] at h
    obtain ⟨c, hc, h⟩ := h
    split at h
    · rename_i hcv
      simp only [pure_eq_ok, Option.some.injEq] at h
      exact h ▸ hcv ▸ child_eq_ok.1 hc
    · exact indexFrom_eq_ok h

def isFindable (p v : ν) : Except Fault Bool := do
  let s ← w.span v
  if !s.isMeaningful then return false
  if w.host.isExternal v then return false
  return !(← w.hasTwin v s (← w.children p))

def hopTo (locate : ν → Except Fault (Option Locator)) (p v : ν) :
    Except Fault (Option (Hop ν × ν)) := do
  if let some o ← w.originOf p v then
    return (← encodeCall locate o).map fun call => (.derived v call, p)
  if (← w.childCount p) = 0 then
    if let some g ← w.parent p then
      if let some o ← w.originOf g v then
        return (← encodeCall locate o).map fun call => (.derived v call, g)
    return none
  match ← w.indexFrom p v (← w.childCount p) 0 with
  | some i => return some (.structural v i (← w.isFindable p v), p)
  | none => return none

omit [DecidableEq ν] in
variable {w} in
theorem originOf_eq_ok {p v : ν} {o : Option (Origin ν)} :
    w.originOf p v = .ok o ↔ w.host.origin p v = .ok o := told_eq_ok

variable {w} in
/-- A hop comes along one of the ways by which nodes are entered. -/
theorem hopTo_eq_ok {locate : ν → Except Fault (Option Locator)} {p v u : ν} {hop : Hop ν}
    (hp : w.host.HasParent v p) (h : w.hopTo locate p v = .ok (some (hop, u))) :
    (∃ o call, w.host.Enters v u (some o) ∧ encodeCall locate o = .ok (some call) ∧
      hop = .derived v call) ∨
    (∃ i findable, u = p ∧ w.host.Enters v p none ∧ w.host.Lists p i v ∧
      w.isFindable p v = .ok findable ∧ hop = .structural v i findable) := by
  simp only [hopTo, bind_eq_ok] at h
  obtain ⟨o, ho, h⟩ := h
  cases o with
  | some o =>
    simp only [bind_eq_ok, pure_eq_ok, Option.map_eq_some_iff, Prod.mk.injEq] at h
    obtain ⟨call, hcall, c, rfl, rfl, rfl⟩ := h
    exact .inl ⟨o, c, .call hp (originOf_eq_ok.1 ho), hcall, rfl⟩
  | none =>
    simp only [bind_eq_ok] at h
    obtain ⟨count, hcount, h⟩ := h
    split at h
    · rename_i h0
      subst h0
      simp only [bind_eq_ok] at h
      obtain ⟨g, hg, h⟩ := h
      cases g with
      | none => simp [pure_eq_ok] at h
      | some g =>
        simp only [bind_eq_ok] at h
        obtain ⟨o', ho', h⟩ := h
        cases o' with
        | none => simp [pure_eq_ok] at h
        | some o' =>
          simp only [bind_eq_ok, pure_eq_ok, Option.map_eq_some_iff, Prod.mk.injEq] at h
          obtain ⟨call, hcall, c, rfl, rfl, rfl⟩ := h
          exact .inl ⟨o', c, .proxy hp (originOf_eq_ok.1 ho) (told_eq_ok.1 hcount) (parent_eq_ok.1 hg)
            (originOf_eq_ok.1 ho'), hcall, rfl⟩
    · simp only [bind_eq_ok] at h
      obtain ⟨_, -, i, hi, h⟩ := h
      cases i with
      | none => simp [pure_eq_ok] at h
      | some i =>
        simp only [bind_eq_ok, pure_eq_ok, Option.some.injEq, Prod.mk.injEq] at h
        obtain ⟨findable, hf, rfl, rfl⟩ := h
        have hl := indexFrom_eq_ok hi
        exact .inr ⟨i, findable, rfl, .child hp (originOf_eq_ok.1 ho) ⟨i, hl⟩, hl, hf, rfl⟩

def climb (locate : ν → Except Fault (Option Locator)) :
    Nat → ν → List (Hop ν) → Except Fault (Option (ν × List (Hop ν)))
  | 0, _, _ => throw .endless
  | fuel + 1, v, below => do
    match ← w.parent v with
    | none => return some (v, below)
    | some p =>
      match ← w.hopTo locate p v with
      | none => return none
      | some (hop, up) => climb locate fuel up (hop :: below)

def route (locate : ν → Except Fault (Option Locator)) (v : ν) :
    Except Fault (Option (List (Hop ν))) := do
  match ← w.climb locate w.reach v [] with
  | none => return none
  | some (top, hops) => return if top = w.root then some hops else none

/-! ## Shortcuts -/

def startOf (hops : List (Hop ν)) : Nat → ν
  | 0 => w.root
  | k + 1 => (hops[k]?.map Hop.node).getD w.root

def isFoundFrom (anchor v : ν) (depth : Nat) : Except Fault Bool := do
  return (← w.uniqueMatch anchor (← w.soughtAt v depth)) = some v

def afterSearchRoot (name : String) : List (Hop ν) → Nat → Nat
  | [], _ => 0
  | h :: hs, k => if w.host.typeName h.node = name then k + 1 else afterSearchRoot name hs (k + 1)

def shortcutFrom (hops : List (Hop ν)) (anchor : ν) (start : Nat) :
    Nat → Except Fault (Option Shortcut)
  | 0 => return none
  | left + 1 => do
    let j := start + left + 1
    if let some h := hops[j]? then
      if h.isFindable then
        if ← w.isFoundFrom anchor h.node (left + 2) then return some ⟨start, j⟩
    shortcutFrom hops anchor start left

def farthest (hops : List (Hop ν)) (anchor : ν) (current : Nat) : Nat → Except Fault Nat
  | 0 | 1 => return current + 1
  | left + 2 => do
    let t := current + left + 2
    if let some h := hops[t]? then
      if ← w.isFoundFrom anchor h.node (left + 2) then return t
    farthest hops anchor current (left + 1)

def shortcutsAlong (hops : List (Hop ν)) (last : Nat) : Nat → Nat → Except Fault (List Shortcut)
  | 0, _ => return []
  | fuel + 1, current => do
    if last ≤ current then return []
    let next ← w.farthest hops (w.startOf hops (current + 1)) current (last - current)
    if current + 1 < next then
      return ⟨current + 1, next⟩ :: (← shortcutsAlong hops last fuel next)
    else shortcutsAlong hops last fuel next

def firstIn (hops : List (Hop ν)) (start stop : Nat) : Nat :=
  match start, w.host.searchRoot with
  | 0, some name => w.afterSearchRoot name (hops.take stop) 0
  | _, _ => start

def shortcutsFrom (hops : List (Hop ν)) (first stop : Nat) : Except Fault (List Shortcut) := do
  if stop ≤ first then return []
  let top ← w.shortcutFrom hops (w.startOf hops first) first (stop - 1 - first)
  let kept := (top.map Shortcut.stop).getD first
  let flags := ((hops.take stop).drop kept).map Hop.isFindable
  let long := (Shortcut.runs flags kept none).filter fun r => r.1 + 3 ≤ r.2
  let along ← long.mapM fun r => w.shortcutsAlong hops (r.2 - 1) (r.2 - 1 - r.1) r.1
  return top.toList ++ along.flatten

def shortcutsIn (hops : List (Hop ν)) (start stop : Nat) : Except Fault (List Shortcut) :=
  w.shortcutsFrom hops (w.firstIn hops start stop) stop

def shortcuts (hops : List (Hop ν)) : Except Fault (List Shortcut) := do
  let segments := Shortcut.runs (hops.map Hop.isStructural) 0 none
  return (← segments.mapM fun r => w.shortcutsIn hops r.1 r.2).flatten

def fingerprint (v : ν) (depth : Nat) : Except Fault Fingerprint := do
  let span ← w.span v
  let label := match w.config.identify with
    | .label => w.host.shownLabel v
    | .type => none
  return { type := w.host.typeName v, label, span, depth := depth.toUInt32,
           external := w.host.isExternal v }

def stepsFrom (cuts : List Shortcut) : List (Hop ν) → Nat → Nat → Except Fault (List Step)
  | [], _, _ => return []
  | h :: hs, k, anchor => do
    if cuts.any (·.skips k) then stepsFrom cuts hs (k + 1) anchor
    else
      let step ← match h with
        | .structural v _ true => do pure (.nearest (← w.fingerprint v (k + 1 - anchor)))
        | .structural _ index false => pure (.child index.toUInt64)
        | .derived _ call => pure (.derived call)
      return step :: (← stepsFrom cuts hs (k + 1) (k + 1))

def shorten (hops : List (Hop ν)) : Except Fault (List Step) := do
  w.stepsFrom (← w.shortcuts hops) hops 0 0

/-! ## Locating -/

def locateWith (locate : ν → Except Fault (Option Locator)) (v : ν) :
    Except Fault (Option Locator) := do
  match ← w.route locate v with
  | none => return none
  | some hops =>
    let result ← w.fingerprint v hops.length
    let steps ← w.shorten hops
    return some ⟨result, steps⟩

def locateWithin : Nat → ν → Except Fault (Option Locator)
  | 0, _ => throw .endless
  | fuel + 1, v => w.locateWith (locateWithin fuel) v

def locate (v : ν) : Except Fault (Option Locator) := w.locateWithin w.reach v

/-! ## Following -/

def invoke (v : ν) (name : String) (args : List (Value ν)) : Except Fault (Option ν) :=
  told (w.host.invoke v name args)

mutual

def follow (v : ν) : Step → Except Fault (Option ν)
  | .child index => do
    if index.toNat < (← w.childCount v) then return some (← w.child v index.toNat) else return none
  | .nearest f => return (← w.bestMatch v (w.soughtOf f) false).node?
  | .derived ⟨name, args⟩ => do
    match ← decodeArgs args with
    | some values => w.invoke v name values
    | none => return none

def followAll (v : ν) : List Step → Except Fault (Option ν)
  | [] => return some v
  | s :: ss => do
    match ← follow v s with
    | some u => followAll u ss
    | none => return none

def decodeArg : Arg → Except Fault (Option (Value ν))
  | .string s => return some (.string s)
  | .integer i => return some (.integer i)
  | .bool b => return some (.bool b)
  | .stream name => return some (.stream name)
  | .any => return some .any
  | .node none => return some (.node none)
  | .node (some ⟨_, steps⟩) => return (← followAll w.root steps).map fun v => .node (some v)
  | .collection items => return (← decodeArgs items).map .collection

def decodeArgs : List Arg → Except Fault (Option (List (Value ν)))
  | [] => return some []
  | a :: as => do
    match ← decodeArg a with
    | some v => return (← decodeArgs as).map (v :: ·)
    | none => return none

end

def resolveSteps (steps : List Step) : Except Fault (Option ν) := w.followAll w.root steps

end

structure Resolution (ν : Type) where
  node : ν
  span : Span
  locator : Locator

structure Entry (ν : Type) where
  type : String
  label : Option String
  span : Span
  locator : Locator
  node : ν

structure Listing (ν : Type) where
  nodes : List (Entry ν) := []
  diagnostics : List Diagnostic := []

section
variable [DecidableEq ν] (w : View ν)

def resolve (l : Locator) : Except Fault (Option (Resolution ν)) := do
  match ← w.resolveSteps l.steps with
  | none => return none
  | some node =>
    let span ← w.span node
    match ← w.locate node with
    | some locator => return some { node, span, locator }
    | none => return some { node, span, locator := l }

/-! ## Listing -/

def isElsewhere (p : Position) (v : ν) : Bool :=
  (w.rawSpan v).isMeaningful && !(w.rawSpan v).contains p && !w.host.isExternal v

def isHit (p : Position) (v : ν) : Except Fault Bool := do
  return (← w.span v).contains p && w.host.isVisible v

def hitsFrom (p : Position) : Nat → List (ν × Nat) → Except Fault (List (ν × Nat))
  | _, [] => return []
  | 0, _ :: _ => throw .endless
  | fuel + 1, (v, depth) :: stack => do
    if w.isElsewhere p v then hitsFrom p fuel stack
    else
      let hit ← w.isHit p v
      let stack ← w.pushChildren v (depth + 1) (← w.childCount v) stack
      let more ← hitsFrom p fuel stack
      return if hit then (v, depth) :: more else more

def listed (v : ν) : Except Fault (Entry ν ⊕ Diagnostic) := do
  let span ← w.span v
  match ← w.locate v with
  | some locator =>
    return .inl { type := w.host.typeName v, label := w.host.shownLabel v, span, locator, node := v }
  | none => return .inr (.unlocatableNode span)

def nodesAt (p : Position) : Except Fault (Listing ν) := do
  let hits ← w.hitsFrom p w.reach [(w.root, 0)]
  let entries ← (Op.innermostFirst hits).mapM fun h => w.listed h.1
  return { nodes := entries.filterMap Sum.getLeft?, diagnostics := entries.filterMap Sum.getRight? }

def listEach (list : ν → Option Locator → Except Fault (ListedTree × List Diagnostic)) :
    List ν → Except Fault (List ListedTree × List Diagnostic)
  | [] => return ([], [])
  | c :: cs => do
    let (t, ds) ← list c (← w.locate c)
    let (ts, es) ← listEach list cs
    return (t :: ts, ds ++ es)

def listBelow : Nat → ν → Option Locator → Except Fault (ListedTree × List Diagnostic)
  | levels, v, locator => do
    let span ← w.span v
    let own := if locator.isNone then [.unlocatableNode span] else []
    let count ← w.childCount v
    let (below, more) ← match levels with
      | 0 => pure (.placeholder count, [])
      | levels + 1 => do
        let (trees, more) ← w.listEach (listBelow levels) (← w.children v)
        pure (.all trees, more)
    return (.node (w.host.typeName v) (w.host.shownLabel v) span locator below, own ++ more)

def subtree (l : Locator) (levels : Nat) : Except Fault TreeListing := do
  match ← w.resolve l with
  | none => return { tree := none, diagnostics := [.noMatchingNode l.result.span] }
  | some r =>
    let (tree, diagnostics) ← w.listBelow levels r.node (some r.locator)
    return { tree := some tree, diagnostics }

end

end View

end Waymark
