import Waymark.Proofs.Route.Thinned

/-!
# What locating keeps and tells

A climb from a node finds the hops of a route, the searches along the route find shortcuts, and the steps
that remain are a locator of the node. Each operation on the way is judged as in the searches before: on
any host, from any snapshot of a view.
-/

namespace Waymark.Op

open Relation Snapshot

variable {ν : Type}

section
variable {host : Host ν} {p v u : ν} {i : Nat}

theorem lists_unique (h : host.Lists p i v) (h' : host.Lists p i u) : v = u := by
  obtain ⟨_, _, _, h⟩ := h
  obtain ⟨_, _, _, h'⟩ := h'
  rw [h] at h'
  cases h'
  rfl

theorem isArgument_of_enters {o : Origin ν} {m : ν} (h : host.Enters v u (some o))
    (hm : m ∈ Value.nodesList o.args) : host.IsArgument m := by
  cases h with
  | call _ ho => exact ⟨_, _, o, ho, hm⟩
  | proxy _ _ _ _ ho => exact ⟨_, _, o, ho, hm⟩

theorem holds_of_isArgument (K : Scope host) {m : ν} (h : host.IsArgument m) : K.holds m := by
  obtain ⟨_, _, _, ho, hm⟩ := h
  exact K.mentioned m (.argument ho hm)

end

variable [DecidableEq ν] {w : View ν} {K : Scope w.host} {E : Fault → Prop} {s₀ : Snapshot ν}
variable {n : Node ν}

/-! ## Arguments of calls -/

def Locates (w : View ν) (K : Scope w.host) (E : Fault → Prop) (locate : Node ν → Op ν (Option Locator))
    (v : ν) : Prop :=
  ∀ (s : Snapshot ν) (n : Node ν), s.Names n v →
    Keeps w K E s (locate n) (fun t l => ∀ l' ∈ l, Describes w s t n l')

section
variable {locate : Node ν → Op ν (Option Locator)}

mutual

theorem keeps_encodeValue : ∀ (v : Value ν) {s₀ : Snapshot ν},
    (∀ m ∈ v.nodes, K.holds m ∧ Locates w K E locate m) →
    Keeps w K E s₀ (encodeValue locate v) (fun s a => ∀ x ∈ a, Encodes w s₀ s v x)
  | .string _, _, _ | .integer _, _, _ | .bool _, _, _ | .stream _, _, _ | .any, _, _ | .node none, _, _ => by
    rw [encodeValue]
    refine Meets.pure fun _ _ _ => ?_
    rintro _ ⟨⟩
    constructor
  | .node (some v), s₀, hl => by
    obtain ⟨hv, hv'⟩ := hl v (by simp [Value.nodes])
    rw [encodeValue]
    refine Meets.bind (intern_tells hv).sure fun s m hs _ hm => ?_
    refine (hv' s m hm).bind fun t l _ _ hd => ?_
    cases l with
    | none => exact Meets.pure fun _ _ _ => nofun
    | some l =>
      refine Meets.pure fun u hu _ => ?_
      rintro _ ⟨⟩
      rw [← hm.2]
      exact .node ((hd l rfl).mono hs hu)
  | .collection items, s₀, hl => by
    rw [encodeValue]
    refine (keeps_encodeValues items hl).bind fun s as _ _ has => Meets.pure fun t ht _ x hx => ?_
    obtain ⟨as', rfl, rfl⟩ := Option.map_eq_some_iff.1 hx
    exact .collection ((has as' rfl).mono (le_refl s₀) ht)

theorem keeps_encodeValues : ∀ (vs : List (Value ν)) {s₀ : Snapshot ν},
    (∀ m ∈ Value.nodesList vs, K.holds m ∧ Locates w K E locate m) →
    Keeps w K E s₀ (encodeValues locate vs) (fun s a => ∀ x ∈ a, EncodesAll w s₀ s vs x)
  | [], _, _ => by
    rw [encodeValues]
    refine Meets.pure fun _ _ _ => ?_
    rintro _ ⟨⟩
    exact .nil
  | v :: vs, s₀, hl => by
    rw [encodeValues]
    refine (keeps_encodeValue v fun m hm => hl m (List.mem_append_left _ hm)).bind fun s a hs _ ha => ?_
    cases a with
    | none => exact Meets.pure fun _ _ _ => nofun
    | some a =>
      refine (keeps_encodeValues vs fun m hm => hl m (List.mem_append_right _ hm)).bind ?_
      intro t as ht _ has
      refine Meets.pure fun u hu _ x hx => ?_
      obtain ⟨as', rfl, rfl⟩ := Option.map_eq_some_iff.1 hx
      exact .cons ((ha a rfl).mono (le_refl s₀) (le_trans ht hu)) ((has as' rfl).mono hs hu)

end

theorem keeps_encodeCall {o : Origin ν}
    (hl : ∀ m ∈ Value.nodesList o.args, K.holds m ∧ Locates w K E locate m) :
    Keeps w K E s₀ (encodeCall locate o)
      (fun s c => ∀ x ∈ c, ∃ args, x = ⟨o.name, args⟩ ∧ EncodesAll w s₀ s o.args args) := by
  refine (keeps_encodeValues o.args hl).bind fun s args _ _ hargs => ?_
  cases args with
  | none => exact Keeps.note_bind (Meets.pure fun _ _ _ => nofun)
  | some args =>
    refine Meets.pure fun t ht _ => ?_
    rintro _ ⟨⟩
    exact ⟨args, rfl, (hargs args rfl).mono (le_refl s₀) ht⟩

end

/-! ## Hops -/

section
variable (hE : Excuses w.host K E)
include hE

omit [DecidableEq ν] in
theorem keeps_originOf (p n : Node ν) :
    Keeps w K E s₀ (originOf p n) (fun _ o => w.host.origin p.host n.host = .ok o) := by
  refine Meets.mono (asked_tells (Meets.read_bind (answer_tells _))) ?_ fun e he => ?_
  · rintro s o _ _ ⟨_, ho, rfl⟩
    exact View.told_eq_ok.1 ho
  · obtain ⟨m, hm, rfl⟩ := View.told_eq_error.1 he
    exact hE.failed m (.origin hm)

/-- The first index at which the node is a child. -/
theorem keeps_indexFrom {p : Node ν} {count : Nat} (hcount : w.host.childCount p.host = .ok count) :
    ∀ (left i : Nat) {s₀ : Snapshot ν}, s₀.Knows p → s₀.Knows n → i + left = count →
      (∀ j, j < i → ¬ w.host.Lists p.host j n.host) →
      Keeps w K E s₀ (indexFrom p n left i) (fun _ index => ∀ k ∈ index,
        w.host.Lists p.host k n.host ∧ ∀ j, j < k → ¬ w.host.Lists p.host j n.host)
  | 0, _, _, _, _, _, _ => Meets.pure fun _ _ _ => nofun
  | left + 1, i, s₀, hp, hn, hle, hbefore => by
    refine (keeps_child (hE.children _) hp hcount (by omega)).bind fun s c hs hi hc => ?_
    by_cases he : c = n
    · subst he
      rw [if_pos rfl]
      refine Meets.pure fun _ _ _ => ?_
      rintro _ ⟨⟩
      exact ⟨hc.1, hbefore⟩
    · rw [if_neg he]
      refine keeps_indexFrom hcount left (i + 1) (hp.mono hs) (hn.mono hs) (by omega) fun j hj hl => ?_
      by_cases hji : j < i
      · exact hbefore j hji hl
      · obtain rfl : j = i := by omega
        exact he (hi.arena.eq_of_host_eq hc.2 (hn.mono hs) (lists_unique hc.1 hl))

theorem keeps_hasTwin (k : NodeKey) (span : Span) : ∀ (ms : List (Node ν)) {s₀ : Snapshot ν},
    (∀ m ∈ ms, s₀.Knows m) → Keeps w K E s₀ (hasTwin n k span ms) (fun _ _ => True)
  | [], _, _ => Meets.pure fun _ _ _ => trivial
  | m :: ms, s₀, hms => by
    have hm := hms m (by simp)
    have rest : ∀ s, s₀ ≤ s → Keeps w K E s (hasTwin n k span ms) (fun _ _ => True) := fun s hs =>
      keeps_hasTwin k span ms fun x hx => (hms x (by simp [hx])).mono hs
    rw [hasTwin]
    split
    · exact rest s₀ (le_refl s₀)
    refine Meets.bind (key_tells hm).sure fun s k' hs _ _ => ?_
    split
    · refine (keeps_span hE (hm.mono hs)).bind fun t span ht _ _ => ?_
      split
      · exact Meets.pure fun _ _ _ => trivial
      · exact rest t (le_trans hs ht)
    · exact rest s hs

theorem keeps_isFindable {p : Node ν} (hp : s₀.Knows p) (hn : s₀.Knows n) :
    Keeps w K E s₀ (isFindable p n)
      (fun _ b => b = true → ∃ span, w.HasSpan n.host span ∧ span.isMeaningful = true) := by
  refine (keeps_span hE hn).bind fun s span hs _ hspan => ?_
  by_cases hm : span.isMeaningful = true
  · simp only [hm, Bool.not_true, Bool.false_eq_true, if_false]
    have hfound : ∃ span, w.HasSpan n.host span ∧ span.isMeaningful = true := ⟨span, hspan, hm⟩
    refine Meets.bind (isExternal_tells (hn.mono hs)).sure fun t external ht _ _ => ?_
    split
    · exact Meets.pure fun _ _ _ => nofun
    have h₁ := le_trans hs ht
    refine Meets.bind (key_tells (hn.mono h₁)).sure fun u k hu _ _ => ?_
    refine (keeps_children (hE.children _) (hp.mono (le_trans h₁ hu))).bind fun x cs hx _ hcs => ?_
    refine (keeps_hasTwin hE k span cs fun c hc => (hcs c hc).2).bind fun _ _ _ _ _ => ?_
    exact Meets.pure fun _ _ _ _ => hfound
  · simp only [hm, Bool.not_false, if_true]
    exact Meets.pure fun _ _ _ => nofun

structure IsHop (w : View ν) (s t : Snapshot ν) (n : Node ν) (hop : Hop (Node ν)) (up : Node ν) : Prop where
  node : hop.node = n
  linked : TransGen t.Linked n up
  comes : ∀ s' hs b, s' ≤ s → Comes w s' t n hs b → Comes w s' t up (hop :: hs) b

variable {locate : Node ν → Op ν (Option Locator)} (hl : ∀ m, w.host.IsArgument m → Locates w K E locate m)
include hl

theorem keeps_hopTo {p : Node ν} (hp : s₀.Knows p) (hn : s₀.Knows n) (hpar : w.host.HasParent n.host p.host)
    (hlink : s₀.Linked n p) :
    Keeps w K E s₀ (hopTo locate p n) (fun s a => ∀ x ∈ a, IsHop w s₀ s n x.1 x.2) := by
  have derived : ∀ s o {q : Node ν}, s₀ ≤ s → w.host.Enters n.host q.host (some o) →
      TransGen s.Linked n q → Keeps w K E s
      (do return (← encodeCall locate o).map fun call => (Hop.derived n call, q))
      (fun s a => ∀ x ∈ a, IsHop w s₀ s n x.1 x.2) := by
    intro s o q hs he hq
    have hargs : ∀ m ∈ Value.nodesList o.args, K.holds m ∧ Locates w K E locate m := by
      intro m hm
      have harg := isArgument_of_enters he hm
      exact ⟨holds_of_isArgument K harg, hl m harg⟩
    refine (keeps_encodeCall hargs).bind fun t call ht _ hcall => Meets.pure fun u hu _ x hx => ?_
    obtain ⟨c, rfl, rfl⟩ := Option.map_eq_some_iff.1 hx
    obtain ⟨args, rfl, henc⟩ := hcall c rfl
    refine ⟨rfl, TransGen.mono (fun _ _ h => h.mono (le_trans ht hu)) _ _ hq, fun s' hs' b hle hrest => ?_⟩
    exact .call he (henc.mono (le_trans hle hs) hu) hrest
  have refused : ∀ u (e : Event), Keeps w K E u (do note e; pure none)
      (fun s (a : Option (Hop (Node ν) × Node ν)) => ∀ x ∈ a, IsHop w s₀ s n x.1 x.2) :=
    fun u e => Keeps.note_bind (Meets.pure fun _ _ _ => nofun)
  refine (keeps_originOf hE p n).bind fun s o hs _ ho => ?_
  cases o with
  | some o => exact derived s o hs (.call hpar ho) (.single (hlink.mono hs))
  | none =>
    have hp' := hp.mono hs
    dsimp only
    refine (keeps_childCount (hE.children _) hp').bind fun t count ht _ hcount => ?_
    split
    · rename_i hzero
      subst hzero
      refine (keeps_parent (hE.spans.parent _ · trivial) (hE.spans.circle _ · trivial) (hp'.mono ht)).bind fun u g hu _ hg => ?_
      cases g with
      | none => exact refused u _
      | some g =>
        obtain ⟨-, hlink'⟩ := hg.2 g rfl
        refine (keeps_originOf hE g n).bind fun x o' hx _ ho' => ?_
        have hsx := le_trans hs (le_trans ht (le_trans hu hx))
        cases o' with
        | none => exact refused x _
        | some o' =>
          have henters := Host.Enters.proxy hpar ho hcount (View.parent_eq_ok.1 hg.1) ho'
          exact derived x o' hsx henters (.tail (.single (hlink.mono hsx)) (hlink'.mono hx))
    · refine (keeps_childCount (hE.children _) (hp'.mono ht)).bind fun u count' hu _ hcount' => ?_
      have hp'' := (hp'.mono ht).mono hu
      have hn' := hn.mono (le_trans hs (le_trans ht hu))
      refine (keeps_indexFrom hE hcount' count' 0 hp'' hn' (by simp) nofun).bind fun x i hx _ hi => ?_
      cases i with
      | none => exact refused x _
      | some i =>
        obtain ⟨hlists, hfirst⟩ := hi i rfl
        refine (keeps_isFindable hE (hp''.mono hx) (hn'.mono hx)).bind fun y findable hy _ hf => ?_
        refine Meets.pure fun z hz _ => ?_
        rintro _ ⟨⟩
        have hsz := le_trans hs (le_trans ht (le_trans hu (le_trans hx (le_trans hy hz))))
        exact ⟨rfl, .single (hlink.mono hsz), fun s' hs' b _ hrest =>
          .child (.child hpar ho ⟨i, hlists⟩) hlists hfirst hf hrest⟩

/-! ## Routes -/

/-- The hops lead from a top to the node, and they are fewer than there are slots. -/
structure IsRoute (w : View ν) (s t : Snapshot ν) (n root : Node ν) (hops : List (Hop (Node ν))) : Prop where
  top : w.parent root.host = .ok none
  comes : Comes w s t root hops n
  knows : ∀ h ∈ hops, t.Knows h.node
  short : hops.length < t.size

theorem keeps_climb {s : Snapshot ν} {a : Node ν} : ∀ (fuel : Nat) {s₀ : Snapshot ν} {n : Node ν}
    {below : List (Hop (Node ν))}, s ≤ s₀ → s₀.Climbs (below.map Hop.node) n → Comes w s s₀ n below a →
    Enough K E (below.length + fuel) →
    Keeps w K E s₀ (climb locate fuel n below) (fun t r => ∀ x ∈ r, IsRoute w s t a x.1 x.2)
  | 0, _, _, below, _, hc, _, hk =>
    Keeps.endless hk fun t ht hi => by
      have := (hc.mono ht).length_lt hi.arena
      rw [List.length_map] at this
      omega
  | fuel + 1, s₀, n, below, hs, hc, hcomes, hk => by
    have hn := hc.knows n (by simp)
    refine (keeps_parent (hE.spans.parent _ · trivial) (hE.spans.circle _ · trivial) hn).bind fun t p ht _ hp => ?_
    cases p with
    | none =>
      refine Meets.pure fun u hu hi => ?_
      rintro _ ⟨⟩
      have hc' := hc.mono (le_trans ht hu)
      refine ⟨hp.1, hcomes.mono (le_refl s) (le_trans ht hu), fun h hh => ?_, ?_⟩
      · exact hc'.knows h.node (List.mem_cons_of_mem _ (List.mem_map_of_mem hh))
      · simpa using hc'.length_lt hi.arena
    | some p =>
      obtain ⟨hpk, hlink⟩ := hp.2 p rfl
      refine (keeps_hopTo hE hl hpk (hn.mono ht) (View.parent_eq_ok.1 hp.1) hlink).bind ?_
      intro u x hu hi hx
      cases x with
      | none => exact Meets.pure fun _ _ _ => nofun
      | some x =>
        obtain ⟨hop, up⟩ := x
        obtain ⟨rfl, hup, hnext⟩ := hx _ rfl
        have htu := le_trans ht hu
        refine keeps_climb fuel (le_trans hs htu) ((hc.mono htu).jump hi.arena hup) ?_ ?_
        · exact hnext s below a (le_trans hs ht) (hcomes.mono (le_refl s) htu)
        · exact hk.more (by simp; omega)

theorem keeps_route (hn : s₀.Knows n) : Keeps w K E s₀ (route locate n)
    (fun t r => ∀ hops ∈ r, IsRoute w s₀ t n t.root hops) := by
  refine Keeps.reach_bind hE.enough fun k hk => ?_
  have hfirst : s₀.Climbs (([] : List (Hop (Node ν))).map Hop.node) n := .first hn
  refine (keeps_climb hE hl k (le_refl s₀) hfirst .nil (by simpa using hk)).bind ?_
  intro t r ht _ hr
  cases r with
  | none => exact Meets.pure fun _ _ _ => nofun
  | some x =>
    obtain ⟨top, hops⟩ := x
    refine Meets.get_bind fun u hu _ => ?_
    by_cases htop : top = u.root
    · subst htop
      simp only [if_true]
      refine Meets.pure fun y hy _ => ?_
      rintro _ ⟨⟩
      obtain ⟨htop, hcomes, hknows, hshort⟩ := hr _ rfl
      have hty := le_trans hu hy
      rw [hy.root]
      exact ⟨htop, hcomes.mono (le_refl s₀) hty, fun h hh => (hknows h hh).mono hty,
        Nat.lt_of_lt_of_le hshort (size_mono hty)⟩
    · simp only [htop, if_false]
      exact Meets.typeName_bind (Keeps.note_bind (Meets.pure fun _ _ _ => nofun))

end

/-! ## Shortcuts -/

def startAt (root : Node ν) (hops : List (Hop (Node ν))) : Nat → Node ν
  | 0 => root
  | k + 1 => (hops[k]?.map Hop.node).getD root

omit [DecidableEq ν] in
theorem startAt_mem {P : Node ν → Prop} {root : Node ν} {hops : List (Hop (Node ν))} (hroot : P root)
    (hhops : ∀ h ∈ hops, P h.node) (k : Nat) : P (startAt root hops k) := by
  cases k with
  | zero => exact hroot
  | succ k =>
    rw [startAt]
    cases hk : hops[k]? with
    | none => exact hroot
    | some h => exact hhops h (List.mem_of_getElem? hk)

structure Laid (s : Snapshot ν) (root : Node ν) (hops : List (Hop (Node ν))) : Prop where
  root : s.root = root
  knows : ∀ h ∈ hops, s.Knows h.node

/-- The hops are left out because the hop after them was found from where they begin. -/
structure IsShortcut (w : View ν) (s t : Snapshot ν) (root : Node ν) (hops : List (Hop (Node ν)))
    (c : Shortcut) : Prop where
  lt : c.first < c.stop
  structural : ∀ k, c.first ≤ k → k < c.stop → ∃ h, hops[k]? = some h ∧ h.isStructural = true
  found : ∃ n index, hops[c.stop]? = some (.structural n index true) ∧
    Singled w s t (startAt root hops c.first) n (c.stop + 1 - c.first)
  after : ∀ m, IsSearchRoot w hops m → m < c.first

/-- Where shortcuts may begin in the run of structural hops from `start` on: below the search root, if that
is in the run. -/
inductive BeginsAt (w : View ν) (hops : List (Hop (Node ν))) (start : Nat) : Nat → Prop where
  | top {m : Nat} (hstart : start = 0) (hm : IsSearchRoot w hops m) : BeginsAt w hops start (m + 1)
  | here (hno : start = 0 → ∀ m, ¬ IsSearchRoot w hops m) : BeginsAt w hops start start

section
omit [DecidableEq ν]
variable {hops : List (Hop (Node ν))} {start first : Nat}

theorem IsSearchRoot.unique {m m' : Nat} (h : IsSearchRoot w hops m) (h' : IsSearchRoot w hops m') :
    m = m' := by
  obtain ⟨x, hx, htype⟩ := h.type
  obtain ⟨x', hx', htype'⟩ := h'.type
  rcases Nat.lt_trichotomy m m' with hlt | heq | hlt
  · exact absurd htype (h'.first m x hlt hx)
  · exact heq
  · exact absurd htype' (h.first m' x' hlt hx')

theorem BeginsAt.le (h : BeginsAt w hops start first) : start ≤ first := by
  cases h with
  | top hstart => omega
  | here => exact Nat.le_refl _

theorem BeginsAt.unique {first' : Nat} (h : BeginsAt w hops start first)
    (h' : BeginsAt w hops start first') : first = first' := by
  cases h with
  | top hstart hm =>
    cases h' with
    | top _ hm' => rw [hm.unique hm']
    | here hno => exact absurd hm (hno hstart _)
  | here hno =>
    cases h' with
    | top hstart hm' => exact absurd hm' (hno hstart _)
    | here => rfl

theorem BeginsAt.after (h : BeginsAt w hops start first)
    (hroot : ∀ m, IsSearchRoot w hops m → start = 0 ∨ m < start) :
    ∀ m, IsSearchRoot w hops m → m < first := by
  intro m hm
  cases h with
  | top _ hm' => exact Nat.lt_succ_of_le (Nat.le_of_eq (hm.unique hm'))
  | here hno =>
    rcases hroot m hm with hzero | hlt
    · exact absurd hm (hno hzero m)
    · exact hlt

end

section
omit [DecidableEq ν]
variable {s t : Snapshot ν} {root : Node ν} {hops : List (Hop (Node ν))}

theorem Laid.mono (h : Laid s root hops) (hst : s ≤ t) : Laid t root hops :=
  ⟨hst.root.trans h.root, fun x hx => (h.knows x hx).mono hst⟩

theorem Laid.knows_startAt {host : Host ν} (h : Laid s root hops) (hs : s.Sound host) (k : Nat) :
    s.Knows (startAt root hops k) :=
  startAt_mem (h.root ▸ hs.root) h.knows k

theorem keeps_startOf (hh : Laid s₀ root hops) (k : Nat) :
    Keeps w K E s₀ (startOf hops k) (fun s a => a = startAt root hops k ∧ s.Knows a) := by
  have hstart : Keeps w K E s₀ (startOf hops k) (fun _ a => a = startAt root hops k) := by
    cases k with
    | zero => exact Meets.get_bind fun s hs _ => Meets.pure fun _ _ _ => (hh.mono hs).root
    | succ k =>
      refine Meets.get_bind fun s hs _ => Meets.pure fun _ _ _ => ?_
      rw [startAt, (hh.mono hs).root]
  refine hstart.mono (fun s a hs hi ha => ⟨ha, ?_⟩) fun _ h => h
  rw [ha]
  exact (hh.mono hs).knows_startAt hi.sound k

/-- After the first hop to a node of the type, if there is one. -/
theorem keeps_afterSearchRoot {tag : TypeTag} {name : String} : ∀ (hops : List (Hop (Node ν))) (k : Nat)
    {s₀ : Snapshot ν}, (∀ h ∈ hops, s₀.Knows h.node) → s₀.Tags tag name →
    Keeps w K E s₀ (afterSearchRoot tag hops k) (fun _ first =>
      (∃ m h, first = k + m + 1 ∧ hops[m]? = some h ∧ w.host.typeName h.node.host = name ∧
        ∀ j x, j < m → hops[j]? = some x → w.host.typeName x.node.host ≠ name) ∨
      first = 0 ∧ ∀ h ∈ hops, w.host.typeName h.node.host ≠ name)
  | [], _, _, _, _ => Meets.pure fun _ _ _ => .inr ⟨rfl, nofun⟩
  | h :: hs, k, s₀, hh, htag => by
    refine Meets.bind (typeTag_tells (hh h (by simp))).sure fun t tag' ht hi htag' => ?_
    have hiff : tag' = tag ↔ w.host.typeName h.node.host = name := by
      have htag : t.Tags tag name := ht.name? _ _ htag
      constructor
      · rintro rfl
        exact Option.some.inj (htag'.symm.trans htag)
      · intro he
        exact TypeRegistry.name?_inj (he ▸ htag') htag
    by_cases he : tag' = tag
    · rw [if_pos he]
      exact Meets.pure fun _ _ _ => .inl ⟨0, h, rfl, rfl, hiff.1 he, nofun⟩
    · rw [if_neg he]
      refine (keeps_afterSearchRoot hs (k + 1) (fun x hx => (hh x (by simp [hx])).mono ht)
        (ht.name? _ _ htag)).mono ?_ fun _ h => h
      have hne := mt hiff.2 he
      rintro _ first _ _ (⟨m, x, rfl, hx, hname, hbefore⟩ | ⟨rfl, hnone⟩)
      · refine .inl ⟨m + 1, x, by omega, hx, hname, fun j y hj hy => ?_⟩
        cases j with
        | zero =>
          cases hy
          exact hne
        | succ j => exact hbefore j y (Nat.lt_of_succ_lt_succ hj) hy
      · exact .inr ⟨rfl, List.forall_mem_cons.2 ⟨hne, hnone⟩⟩

end

section
variable {s t s' t' : Snapshot ν} {root : Node ν} {hops : List (Hop (Node ν))}

theorem IsShortcut.mono {c : Shortcut} (h : IsShortcut w s t root hops c) (hs : s' ≤ s) (ht : t ≤ t') :
    IsShortcut w s' t' root hops c := by
  obtain ⟨n, index, hn, hfound⟩ := h.found
  exact ⟨h.lt, h.structural, ⟨n, index, hn, hfound.mono hs ht⟩, h.after⟩

variable (hE : Excuses w.host K E)
include hE

theorem keeps_isFoundFrom {a : Node ν} (ha : s₀.Knows a) (hn : s₀.Knows n) (depth : Nat) :
    Keeps w K E s₀ (isFoundFrom a n depth) (fun t b => b = true → Singled w s₀ t a n depth) := by
  refine (keeps_targetAt hE hn depth).bind fun s target hs _ haim => ?_
  refine Meets.bind (keeps_uniqueMatch hE (ha.mono hs) target none).traced ?_
  rintro t m - - ⟨-, u, hu, hi, hrun⟩
  refine Meets.pure fun x hx _ hm => ?_
  obtain rfl : m = some n := of_decide_eq_true hm
  exact ⟨u, t, target, le_trans hs hu, hx, hi.sound, haim.mono hu, hrun⟩

structure Stretch (w : View ν) (hops : List (Hop (Node ν))) (lo hi : Nat) : Prop where
  structural : ∀ k, lo ≤ k → k < hi → ∃ h, hops[k]? = some h ∧ h.isStructural = true
  after : ∀ m, IsSearchRoot w hops m → m < lo

omit hE in
theorem Stretch.isShortcut {lo hi first stop : Nat} (hst : Stretch w hops lo hi) (hlo : lo ≤ first)
    (hlt : first < stop) (hhi : stop < hi) {h : Hop (Node ν)} (hh : hops[stop]? = some h)
    (hf : h.isFindable = true) {depth : Nat} (hdepth : depth = stop + 1 - first)
    (hfound : Singled w s t (startAt root hops first) h.node depth) :
    IsShortcut w s t root hops ⟨first, stop⟩ := by
  obtain ⟨n, index, rfl⟩ := Hop.eq_structural_of_findable hf
  subst hdepth
  refine ⟨hlt, fun k hk hk' => hst.structural k (by simp at hk; omega) (by simp at hk'; omega),
    ⟨n, index, hh, hfound⟩, fun m hm => Nat.lt_of_lt_of_le (hst.after m hm) hlo⟩

variable {lo hi : Nat} (hst : Stretch w hops lo hi)
include hst

theorem keeps_shortcutFrom {start : Nat} (hlo : lo ≤ start) : ∀ (left : Nat) {s₀ : Snapshot ν},
    Laid s₀ root hops → s₀.Knows (startAt root hops start) → s ≤ s₀ → start + left < hi →
    Keeps w K E s₀ (shortcutFrom hops (startAt root hops start) start left)
      (fun t c => ∀ x ∈ c, IsShortcut w s t root hops x ∧ x.first = start ∧ x.stop ≤ start + left)
  | 0, _, _, _, _, _ => Meets.pure fun _ _ _ => nofun
  | left + 1, s₀, hh, ha, hs, hhi => by
    have rest : ∀ t, s₀ ≤ t → Keeps w K E t (shortcutFrom hops (startAt root hops start) start left)
        (fun t c => ∀ x ∈ c, IsShortcut w s t root hops x ∧ x.first = start ∧
          x.stop ≤ start + (left + 1)) := by
      intro t ht
      refine (keeps_shortcutFrom hlo left (hh.mono ht) (ha.mono ht) (le_trans hs ht) (by omega)).mono ?_
        fun _ h => h
      intro u c _ _ hc x hx
      obtain ⟨hcut, hfirst, hstop⟩ := hc x hx
      exact ⟨hcut, hfirst, by omega⟩
    rw [shortcutFrom]
    cases hk : hops[start + left + 1]? with
    | none => exact rest s₀ (le_refl s₀)
    | some h =>
      dsimp only
      by_cases hf : h.isFindable = true
      · rw [if_pos hf]
        refine (keeps_isFoundFrom hE ha (hh.knows h (List.mem_of_getElem? hk)) _).bind fun t b ht _ hb => ?_
        by_cases htrue : b = true
        · rw [if_pos htrue]
          refine Meets.typeName_bind (Keeps.note_bind (Meets.pure fun u hu _ => ?_))
          rintro _ ⟨⟩
          refine ⟨?_, rfl, Nat.le_refl _⟩
          exact hst.isShortcut hlo (by omega) hhi hk hf (by omega) ((hb htrue).mono hs hu)
        · rw [if_neg htrue]
          exact rest t ht
      · rw [if_neg hf]
        exact rest s₀ (le_refl s₀)

omit hst in
theorem keeps_farthest {a : Node ν} {current : Nat} : ∀ (left : Nat) {s₀ : Snapshot ν},
    Laid s₀ root hops → s₀.Knows a → s ≤ s₀ →
    Keeps w K E s₀ (farthest hops a current left) (fun t next => next = current + 1 ∨
      current + 1 < next ∧ next ≤ current + left ∧ ∃ h, hops[next]? = some h ∧
        Singled w s t a h.node (next - current))
  | 0, _, _, _, _ | 1, _, _, _, _ => Meets.pure fun _ _ _ => .inl rfl
  | left + 2, s₀, hh, ha, hs => by
    have rest : ∀ t, s₀ ≤ t → Keeps w K E t (farthest hops a current (left + 1))
        (fun t next => next = current + 1 ∨ current + 1 < next ∧ next ≤ current + (left + 2) ∧
          ∃ h, hops[next]? = some h ∧ Singled w s t a h.node (next - current)) := by
      intro t ht
      refine (keeps_farthest (left + 1) (hh.mono ht) (ha.mono ht) (le_trans hs ht)).mono ?_ fun _ h => h
      intro u next _ _ hnext
      refine hnext.imp_right fun ⟨hlt, hle, hfound⟩ => ⟨hlt, by omega, hfound⟩
    rw [farthest]
    cases hk : hops[current + left + 2]? with
    | none => exact rest s₀ (le_refl s₀)
    | some h =>
      refine (keeps_isFoundFrom hE ha (hh.knows h (List.mem_of_getElem? hk)) _).bind fun t b ht _ hb => ?_
      by_cases htrue : b = true
      · rw [if_pos htrue]
        refine Meets.pure fun u hu _ => .inr ⟨by omega, by omega, h, hk, ?_⟩
        have hdepth : current + left + 2 - current = left + 2 := by omega
        rw [hdepth]
        exact (hb htrue).mono hs hu
      · rw [if_neg htrue]
        exact rest t ht

theorem keeps_shortcutsAlong {last : Nat} (hlast : last < hi) : ∀ (fuel current : Nat) {s₀ : Snapshot ν},
    Laid s₀ root hops → s ≤ s₀ → lo ≤ current →
    (∀ k, current ≤ k → k ≤ last → ∃ h, hops[k]? = some h ∧ h.isFindable = true) →
    Keeps w K E s₀ (shortcutsAlong hops last fuel current)
      (fun t cuts => Shortcut.Cuts (IsShortcut w s t root hops) (current + 1) (last + 1) cuts)
  | 0, _, _, _, _, _, _ => Meets.pure fun _ _ _ => .nil
  | fuel + 1, current, s₀, hh, hs, hlo, hall => by
    rw [shortcutsAlong]
    split
    · exact Meets.pure fun _ _ _ => .nil
    refine (keeps_startOf hh (current + 1)).bind ?_
    rintro t _ ht - ⟨rfl, ha⟩
    refine (keeps_farthest hE _ (hh.mono ht) ha (le_trans hs ht)).bind fun u next hu _ hnext => ?_
    have hu' := le_trans ht hu
    have rest : current < next → Keeps w K E u (shortcutsAlong hops last fuel next)
        (fun t cuts => Shortcut.Cuts (IsShortcut w s t root hops) (next + 1) (last + 1) cuts) := fun hlt =>
      keeps_shortcutsAlong hlast fuel next (hh.mono hu') (le_trans hs hu') (by omega)
        fun k hk => hall k (by omega)
    split
    · rename_i hlt
      obtain ⟨-, hle, h, hk, hfound⟩ := hnext.resolve_left (by omega)
      obtain ⟨h', hk', hf⟩ := hall next (by omega) (by omega)
      obtain rfl : h' = h := Option.some.inj (hk'.symm.trans hk)
      refine Keeps.note_bind ((rest (by omega)).bind fun x cuts hx _ hcuts => Meets.pure fun y hy _ => ?_)
      have hcut := hst.isShortcut (by omega) hlt (by omega) hk hf (by omega) hfound
      have hcuts' := hcuts.imp fun c hc => hc.mono (le_refl s) hy
      refine (Shortcut.Cuts.single (hcut.mono (le_refl s) (le_trans hx hy))).append hcuts' ?_ ?_
      · simp only
        omega
      · simp only
        omega
    · rename_i hlt
      obtain rfl : next = current + 1 := hnext.resolve_right fun hr => hlt hr.1
      refine (rest (Nat.lt_succ_self _)).mono (fun x cuts _ _ hcuts => ?_) fun _ h => h
      exact hcuts.weaken (Nat.le_succ _) (Nat.le_refl _)

theorem keeps_shortcutsFrom (hh : Laid s₀ root hops) (hs : s ≤ s₀) :
    Keeps w K E s₀ (shortcutsFrom hops lo hi)
      (fun t cuts => Shortcut.Cuts (IsShortcut w s t root hops) lo hi cuts) := by
  unfold shortcutsFrom
  split
  · exact Meets.pure fun _ _ _ => .nil
  refine (keeps_startOf hh lo).bind ?_
  rintro t _ ht - ⟨rfl, ha⟩
  have hst' := le_trans hs ht
  refine (keeps_shortcutFrom hE hst (Nat.le_refl lo) _ (hh.mono ht) ha hst' (by omega)).bind ?_
  intro u top hu _ htop
  dsimp only
  generalize hkept : (top.map Shortcut.stop).getD lo = kept
  generalize hlong : (Shortcut.runs _ kept none).filter _ = long
  have hlo : lo ≤ kept ∧ kept < hi := by
    subst hkept
    cases top with
    | none => simp only [Option.map_none, Option.getD_none]; omega
    | some c =>
      obtain ⟨hcut, hfirst, hstop⟩ := htop c rfl
      have := hcut.lt
      simp only [Option.map_some, Option.getD_some]
      omega
  refine Meets.bind (Keeps.mapM (R := fun x r cs =>
      Shortcut.Cuts (IsShortcut w s x root hops) (r.1 + 1) (r.2 - 1 + 1) cs) ?_ long ?_) ?_
  · exact fun x y _ cs hxy hcs => hcs.imp fun c hc => hc.mono (le_refl s) hxy
  · intro r hr x hx
    obtain ⟨hkr, hlen, hrhi, hall⟩ := Shortcut.findable_of_runs hlong hr
    have hux := le_trans hu hx
    exact keeps_shortcutsAlong hE hst (by omega) _ r.1 ((hh.mono ht).mono hux) (le_trans hst' hux)
      (by omega) fun k hk hk' => hall k hk (by omega)
  · intro x along hx _ halong
    refine Meets.pure fun y hy _ => ?_
    have hrest := (Shortcut.Cuts.along hlong halong).imp fun c hc => hc.mono (le_refl s) hy
    subst hkept
    cases top with
    | none => exact hrest.weaken (by simp) (Nat.le_refl _)
    | some c =>
      obtain ⟨hcut, hfirst, -⟩ := htop c rfl
      have hlt := hcut.lt
      have hsingle := Shortcut.Cuts.single (hcut.mono (le_refl s) (le_trans hx hy))
      simp only [Option.map_some, Option.getD_some] at hrest hlo
      exact (hsingle.append hrest (by omega) (by omega)).weaken (by omega) (Nat.le_refl _)

end

section
variable {s : Snapshot ν} {root : Node ν} {hops : List (Hop (Node ν))} (hE : Excuses w.host K E)
include hE

omit hE in
/-- The search for shortcuts in a run begins where it may. -/
theorem keeps_shortcutsIn_from (hh : Laid s₀ root hops) {start stop : Nat}
    (hall : ∀ k, start ≤ k → k < stop → ∃ h, hops[k]? = some h ∧ h.isStructural = true)
    (hroot : ∀ m, IsSearchRoot w hops m → start = 0 ∧ m < stop ∨ m < start)
    {Q : Snapshot ν → List Shortcut → Prop} (hfrom : ∀ t first, s₀ ≤ t → BeginsAt w hops start first →
      Keeps w K E t (shortcutsFrom hops first stop) Q) :
    Keeps w K E s₀ (shortcutsIn hops start stop) Q := by
  rw [shortcutsIn]
  refine Meets.get_bind fun t ht hi => ?_
  have hsr := hi.sound.searchRoot
  dsimp only
  split
  · rename_i tag htag
    rw [htag, Option.map_some] at hsr
    obtain ⟨name, hname, htagged⟩ := Option.map_eq_some_iff.1 hsr.symm
    refine (keeps_afterSearchRoot _ 0 (fun h hm => ((hh.mono ht).knows h (List.mem_of_mem_take hm)))
      htagged.symm).bind fun u first hu _ hfirst => hfrom u first (le_trans ht hu) ?_
    rcases hfirst with ⟨m, h, rfl, hm, htype, hbefore⟩ | ⟨rfl, hnone⟩
    · rw [List.getElem?_take] at hm
      split at hm
      · rename_i hlt
        rw [Nat.zero_add]
        refine .top rfl ⟨fun k hk => hall k (Nat.zero_le k) (by omega), ⟨h, hm, by rw [hname, htype]⟩, ?_⟩
        intro k x hk hx he
        rw [hname] at he
        refine hbefore k x hk ?_ (Option.some.inj he).symm
        rw [List.getElem?_take, if_pos (by omega), hx]
      · cases hm
    · refine .here fun _ m hm => ?_
      obtain ⟨h, hk, htype⟩ := hm.type
      have hlt : m < stop := by simpa using hroot m hm
      rw [hname] at htype
      refine hnone h (List.mem_of_getElem? (i := m) ?_) (Option.some.inj htype).symm
      rw [List.getElem?_take, if_pos hlt, hk]
  · rename_i hno
    refine hfrom t _ ht (.here fun hzero m hm => ?_)
    obtain ⟨h, -, htype⟩ := hm.type
    cases htag : t.searchRoot with
    | none =>
      rw [htag, htype] at hsr
      cases hsr
    | some tag => exact absurd htag (hno tag hzero)

theorem keeps_shortcutsIn (hh : Laid s₀ root hops) (hs : s ≤ s₀) {start stop : Nat}
    (hall : ∀ k, start ≤ k → k < stop → ∃ h, hops[k]? = some h ∧ h.isStructural = true)
    (hroot : ∀ m, IsSearchRoot w hops m → start = 0 ∧ m < stop ∨ m < start) :
    Keeps w K E s₀ (shortcutsIn hops start stop)
      (fun t cuts => Shortcut.Cuts (IsShortcut w s t root hops) start stop cuts) := by
  refine keeps_shortcutsIn_from hh hall hroot fun t first ht hbegins => ?_
  have hst : Stretch w hops first stop := ⟨fun k hk => hall k (Nat.le_trans hbegins.le hk),
    hbegins.after fun m hm => (hroot m hm).imp_left And.left⟩
  refine (keeps_shortcutsFrom hE hst (hh.mono ht) (le_trans hs ht)).mono ?_ fun _ h => h
  exact fun _ _ _ _ hcuts => hcuts.weaken hbegins.le (Nat.le_refl _)

omit hE [DecidableEq ν] in
/-- The hops of a run are structural, and the search root is in the first run or in none. -/
theorem structural_of_runs {r : Nat × Nat} (hr : r ∈ Shortcut.runs (hops.map Hop.isStructural) 0 none) :
    r.1 < r.2 ∧ r.2 ≤ hops.length ∧
      (∀ k, r.1 ≤ k → k < r.2 → ∃ h, hops[k]? = some h ∧ h.isStructural = true) ∧
      ∀ m, IsSearchRoot w hops m → r.1 = 0 ∧ m < r.2 ∨ m < r.1 := by
  have hflags : ∀ k : Nat, (hops.map Hop.isStructural)[k]? = some true ↔
      ∃ h, hops[k]? = some h ∧ h.isStructural = true := by simp
  obtain ⟨-, hlt, hle, hall⟩ := Shortcut.runs_within
    (P := fun k => ∃ h, hops[k]? = some h ∧ h.isStructural = true)
    (hops.map Hop.isStructural) 0 none (fun k hk => by simpa using (hflags k).1 hk) nofun r hr
  refine ⟨hlt, by simpa using hle, hall, fun m hm => ?_⟩
  exact Shortcut.runs_first (fun k hk => (hflags k).2 (hm.structural k hk)) r hr

theorem keeps_shortcuts (hh : Laid s₀ root hops) :
    Keeps w K E s₀ (shortcuts hops)
      (fun t cuts => Shortcut.Cuts (IsShortcut w s₀ t root hops) 0 hops.length cuts) := by
  refine Meets.bind (Keeps.mapM (R := fun t r cs =>
    Shortcut.Cuts (IsShortcut w s₀ t root hops) r.1 r.2 cs) ?_ _ ?_) ?_
  · exact fun x y _ cs hxy hcs => hcs.imp fun c hc => hc.mono (le_refl s₀) hxy
  · intro r hr t ht
    obtain ⟨-, -, hall, hroot⟩ := structural_of_runs (w := w) hr
    exact keeps_shortcutsIn hE (hh.mono ht) ht hall hroot
  · intro t css _ _ hcss
    refine Meets.pure fun u hu _ => ?_
    refine (Shortcut.Cuts.flatten hcss (fun r hr => ?_) (Shortcut.runs_apart _ _ _)).imp ?_
    · obtain ⟨hlt, hle, -⟩ := structural_of_runs (w := w) hr
      exact ⟨Nat.zero_le _, Nat.le_of_lt hlt, hle⟩
    · exact fun c hc => hc.mono (le_refl s₀) hu

/-! ## Steps -/

theorem keeps_fingerprint (hn : s₀.Knows n) (depth : Nat) :
    Keeps w K E s₀ (fingerprint n depth) (fun _ f => Pictures w n.host depth f) := by
  refine (keeps_span hE hn).bind fun s span hs _ hspan => Meets.get_bind fun t ht hi => ?_
  have hn' := hn.mono (le_trans hs ht)
  have finish : ∀ u label, t ≤ u → Pictures w n.host depth
      ⟨w.host.typeName n.host, label, span, depth.toUInt32, w.host.isExternal n.host⟩ → Keeps w K E u (do
      return { type := ← typeName n, label, span, depth := depth.toUInt32, external := ← isExternal n })
      (fun _ f => Pictures w n.host depth f) := by
    intro u label hu hpictures
    refine Meets.typeName_bind (Meets.bind (isExternal_tells (hn'.mono hu)).sure ?_)
    rintro x _ - - rfl
    exact Meets.pure fun _ _ _ => hpictures
  rw [hi.config]
  dsimp only
  cases hid : w.config.identify with
  | label =>
    refine Meets.bind (label_tells hn').sure ?_
    rintro u _ hu - rfl
    exact finish u _ hu ⟨rfl, by rw [hid], hspan, rfl, rfl⟩
  | type => exact finish t none (le_refl t) ⟨rfl, by rw [hid], hspan, rfl, rfl⟩

structure Remain (w : View ν) (s t : Snapshot ν) (root : Node ν) (hops : List (Hop (Node ν)))
    (cuts : List Shortcut) (k anchor : Nat) (steps : List Step) : Prop where
  thins : Thins w s t (startAt root hops anchor) (hops.drop anchor) steps
  -- The first shortcut begins at hop `m` or later.
  kept : ∀ m, (∀ c ∈ cuts, m ≤ c.first) → anchor = k → ∃ kept rest, steps = kept ++ rest ∧
    List.Forall₂ (StepFor w 1) ((hops.take m).drop k) kept

omit [DecidableEq ν] hE in
theorem startAt_succ {k : Nat} {h : Hop (Node ν)} (hk : hops[k]? = some h) :
    startAt root hops (k + 1) = h.node := by
  rw [startAt, hk]
  rfl

omit hE in
/-- A hop is kept, alone or as the end of a shortcut. -/
theorem Remain.cons {t : Snapshot ν} {cuts : List Shortcut} {k anchor : Nat} {h : Hop (Node ν)}
    {step : Step} {steps : List Step}
    (hcuts : Shortcut.Cuts (IsShortcut w s t root hops) 0 hops.length cuts)
    (hanch : Shortcut.Anchored cuts anchor k) (hskip : ¬ cuts.any (·.skips k) = true)
    (hk : hops[k]? = some h) (hstep : StepFor w (k + 1 - anchor) h step)
    (hrest : Remain w s t root hops cuts (k + 1) (k + 1) steps) :
    Remain w s t root hops cuts k anchor (step :: steps) := by
  obtain ⟨hlt, rfl⟩ := List.getElem?_eq_some_iff.1 hk
  have hthins := hrest.thins
  rw [startAt_succ hk] at hthins
  refine ⟨?_, ?_⟩
  · rcases Nat.eq_or_lt_of_le hanch.le with rfl | hlow
    · rw [List.drop_eq_getElem_cons hlt]
      have hone : anchor + 1 - anchor = 1 := by omega
      exact .keep (hone ▸ hstep) hthins
    · obtain ⟨-, hblock, ⟨n, index, hn, hfound⟩, -⟩ := hcuts.isCut _ (hanch.cut hcuts hskip hlow)
      have hdepth : ((hops.drop anchor).take (k - anchor)).length + 1 = k + 1 - anchor := by
        rw [List.length_take, List.length_drop]
        omega
      have hsplit : hops.drop anchor = (hops.drop anchor).take (k - anchor) ++ hops[k] :: hops.drop (k + 1) := by
        rw [← List.drop_eq_getElem_cons hlt]
        nth_rewrite 1 [← List.take_append_drop (k - anchor) (hops.drop anchor)]
        rw [List.drop_drop, Nat.add_sub_cancel' hanch.le]
      rw [hk] at hn
      rw [Option.some.inj hn] at hstep hthins hsplit
      cases hstep with
      | nearest hf =>
        rw [hsplit]
        refine .cut (fun hnil => ?_) (fun x hx => ?_) (hdepth ▸ hfound) (hdepth ▸ hf) hthins
        · rw [hnil, List.length_nil] at hdepth
          omega
        · obtain ⟨i, hi⟩ := List.getElem?_of_mem hx
          rw [List.getElem?_take, List.getElem?_drop] at hi
          split at hi
          · obtain ⟨y, hy, hyes⟩ := hblock (anchor + i) (by simp) (by simp only; omega)
            obtain rfl := Option.some.inj (hi.symm.trans hy)
            exact hyes
          · cases hi
  · rintro m hm rfl
    by_cases hlow : anchor < m
    · obtain ⟨kept, rest, rfl, hkept⟩ := hrest.kept m hm rfl
      refine ⟨step :: kept, rest, rfl, ?_⟩
      have htake : (hops.take m).drop anchor = hops[anchor] :: (hops.take m).drop (anchor + 1) := by
        rw [List.drop_eq_getElem_cons (by simp; omega), List.getElem_take]
      have hone : anchor + 1 - anchor = 1 := by omega
      rw [htake]
      exact .cons (hone ▸ hstep) hkept
    · refine ⟨[], step :: steps, rfl, ?_⟩
      rw [List.drop_eq_nil_of_le (by simp; omega)]
      exact .nil

omit hE in
/-- A hop is left out. -/
theorem Remain.skip {t : Snapshot ν} {cuts : List Shortcut} {k anchor : Nat} {steps : List Step}
    (hskip : cuts.any (·.skips k) = true) (hrest : Remain w s t root hops cuts (k + 1) anchor steps) :
    Remain w s t root hops cuts k anchor steps := by
  refine ⟨hrest.thins, ?_⟩
  rintro m hm rfl
  obtain ⟨c, hc, hfirst, -⟩ := Shortcut.any_skips.1 hskip
  have hmk := Nat.le_trans (hm c hc) hfirst
  refine ⟨[], steps, rfl, ?_⟩
  rw [List.drop_eq_nil_of_le (by simp; omega)]
  exact .nil

theorem keeps_stepsFrom {cuts : List Shortcut} : ∀ (hs : List (Hop (Node ν))) (k anchor : Nat)
    {s₀ : Snapshot ν}, hops.drop k = hs → Laid s₀ root hops →
    Shortcut.Cuts (IsShortcut w s s₀ root hops) 0 hops.length cuts → Shortcut.Anchored cuts anchor k →
    Keeps w K E s₀ (stepsFrom cuts hs k anchor) (fun t steps => Remain w s t root hops cuts k anchor steps)
  | [], k, anchor, s₀, hdrop, _, hcuts, hanch => by
    obtain rfl := hanch.eq_of_end hcuts (List.drop_eq_nil_iff.1 hdrop)
    refine Meets.pure fun t _ _ => ⟨?_, fun m _ _ => ⟨[], [], rfl, ?_⟩⟩
    · rw [hdrop]
      exact .nil
    · rw [List.drop_take, hdrop, List.take_nil]
      exact .nil
  | h :: hs, k, anchor, s₀, hdrop, hh, hcuts, hanch => by
    have hk : hops[k]? = some h := by
      rw [← List.head?_drop, hdrop]
      rfl
    have hdrop' : hops.drop (k + 1) = hs := by
      rw [← List.drop_drop, hdrop]
      rfl
    rw [stepsFrom]
    by_cases hskip : cuts.any (·.skips k) = true
    · rw [if_pos hskip]
      refine (keeps_stepsFrom hs (k + 1) anchor hdrop' hh hcuts (hanch.skip hskip)).mono ?_ fun _ h => h
      exact fun t steps _ _ hrest => hrest.skip hskip
    · rw [if_neg hskip]
      have cons : ∀ t step, s₀ ≤ t → StepFor w (k + 1 - anchor) h step → Keeps w K E t
          (do return step :: (← stepsFrom cuts hs (k + 1) (k + 1)))
          (fun t steps => Remain w s t root hops cuts k anchor steps) := by
        intro t step ht hstep
        have hcuts' := hcuts.imp fun c hc => hc.mono (le_refl s) ht
        refine (keeps_stepsFrom hs (k + 1) (k + 1) hdrop' (hh.mono ht) hcuts' (.keep hskip)).bind ?_
        intro u steps hu _ hrest
        refine Meets.pure fun x hx _ => ?_
        have hx' := le_trans hu hx
        have hrest' : Remain w s x root hops cuts (k + 1) (k + 1) steps :=
          ⟨hrest.thins.mono (le_refl s) hx, hrest.kept⟩
        exact hrest'.cons (hcuts'.imp fun c hc => hc.mono (le_refl s) hx') hanch hskip hk hstep
      dsimp only
      split
      · rename_i m index
        have hm := hh.knows (.structural m index true) (List.mem_of_getElem? hk)
        refine (keeps_fingerprint hE hm _).bind fun t f ht _ hf => cons t _ ht (.nearest hf)
      · exact cons s₀ _ (le_refl s₀) .child
      · exact cons s₀ _ (le_refl s₀) .derived

theorem keeps_shorten (hh : Laid s₀ root hops) : Keeps w K E s₀ (shorten hops)
    (fun t steps => Thins w s₀ t root hops steps ∧ ∀ m, IsSearchRoot w hops m →
      ∃ kept rest, steps = kept ++ rest ∧ List.Forall₂ (StepFor w 1) (hops.take (m + 1)) kept) := by
  refine (keeps_shortcuts hE hh).bind fun s cuts hs _ hcuts => ?_
  refine (keeps_stepsFrom hE hops 0 0 rfl (hh.mono hs) hcuts .zero).mono ?_ fun _ h => h
  intro t steps _ _ hrest
  exact ⟨hrest.thins, fun m hm => hrest.kept (m + 1) (fun c hc => (hcuts.isCut c hc).after m hm) rfl⟩

end

/-! ## Locating -/

section
variable (hE : Excuses w.host K E)
include hE

theorem keeps_locateWith {locate : Node ν → Op ν (Option Locator)}
    (hl : ∀ m, w.host.IsArgument m → Locates w K E locate m) (hn : s₀.Knows n) :
    Keeps w K E s₀ (locateWith locate n) (fun t l => ∀ l' ∈ l, Describes w s₀ t n l') := by
  refine (keeps_route hE hl hn).bind fun s hops hs hi hh => ?_
  cases hops with
  | none => exact Meets.pure fun _ _ _ => nofun
  | some hops =>
    have hroute := hh hops rfl
    refine (keeps_fingerprint hE (hn.mono hs) _).bind fun t result ht _ hresult => ?_
    have hlaid : Laid t s.root hops := ⟨ht.root, fun h hm => (hroute.knows h hm).mono ht⟩
    refine (keeps_shorten hE hlaid).bind fun u steps hu _ hsteps => ?_
    refine Keeps.note_bind (Meets.pure fun x hx _ => ?_)
    rintro _ ⟨⟩
    have hsx := le_trans ht (le_trans hu hx)
    have hthins := hsteps.1.mono (le_trans hs ht) hx
    refine .intro hi.root hroute.top (hroute.comes.mono (le_refl s₀) hsx) hthins hresult hsteps.2 ?_
    intro hsize
    have hlt : hops.length < 2 ^ 32 :=
      Nat.lt_of_lt_of_le hroute.short (Nat.le_trans (size_mono hsx) hsize)
    refine ⟨?_, hthins.sum_hops hlt⟩
    rw [hresult.depth, Nat.toUInt32, UInt32.toNat_ofNat', Nat.mod_eq_of_lt hlt]

theorem keeps_locateWithin : ∀ (fuel : Nat) {s₀ : Snapshot ν} {n : Node ν},
    E .endless ∨ 0 < fuel ∧ w.host.Plain → s₀.Knows n →
    Keeps w K E s₀ (locateWithin fuel n) (fun t l => ∀ l' ∈ l, Describes w s₀ t n l')
  | 0, _, _, h, _ => Meets.throw (h.resolve_right fun h => Nat.lt_irrefl 0 h.1)
  | fuel + 1, s₀, n, h, hn => by
    refine keeps_locateWith hE (fun m hm s k hk => keeps_locateWithin fuel ?_ hk.1) hn
    -- Only an argument is located with less fuel.
    exact h.elim .inl fun hp => absurd hm (hp.2 m)

theorem keeps_locate (hn : s₀.Knows n) :
    Keeps w K E s₀ (locate n) (fun t l => ∀ l' ∈ l, Describes w s₀ t n l') := by
  refine Keeps.reach_bind hE.enough fun k hk => keeps_locateWithin hE k ?_ hn
  rcases hk with hk | ⟨_, hlt, _⟩
  · exact .inl hk
  · exact hE.endless.imp_right fun h => ⟨Nat.zero_lt_of_lt hlt, h.2⟩

end

end Waymark.Op
