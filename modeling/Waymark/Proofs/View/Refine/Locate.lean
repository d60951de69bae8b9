import Waymark.Proofs.Route.Cuts
import Waymark.Proofs.View.Refine.Search

/-!
# Locating tells what the view says

Routes, shortcuts and locators on the copy of a rebuilt tree are those of the view. The nodes that
arguments name are located on the way, and how deep that goes is bounded like any walk.
-/

namespace Waymark.Rebuild

open Relation Op Snapshot

variable {ν μ : Type} {B : Rebuild ν μ}

/-! ## Hops -/

theorem fits_intern [DecidableEq μ] {s₀ : Snapshot μ} {v : ν} (hv : B.IsNode v) :
    B.Fits s₀ (intern (B.place v)) (.ok v) B.Stands := by
  refine Meets.mono (intern_tells (w := B.copy) (K := B.Kept) trivial).sure ?_ fun _ h => h
  exact fun s n _ _ hn => ⟨v, rfl, hn, hv⟩

variable (B) in
def LocatesAs (locate : Node μ → Op μ (Option Locator)) (locate' : ν → Except Fault (Option Locator))
    (m : ν) : Prop :=
  B.IsNode m ∧ ∀ s n, B.Stands s n m → B.Fits s (locate n) (locate' m) (fun _ a b => a = b)

section
variable [DecidableEq μ] {locate : Node μ → Op μ (Option Locator)}
variable {locate' : ν → Except Fault (Option Locator)}

mutual

theorem fits_encodeValue : ∀ (v : Value ν) {s₀ : Snapshot μ},
    (∀ m ∈ v.nodes, B.LocatesAs locate locate' m) →
    B.Fits s₀ (encodeValue locate (v.map B.place)) (View.encodeValue locate' v) (fun _ a b => a = b)
  | .string _, _, _ | .integer _, _, _ | .bool _, _, _ | .stream _, _, _ | .any, _, _
  | .node none, _, _ => by
    simp only [Value.map, Option.map_none]
    rw [encodeValue, View.encodeValue]
    exact Fits.pure fun _ _ _ => rfl
  | .node (some v), _, hl => by
    simp only [Value.map, Option.map_some]
    rw [encodeValue, View.encodeValue]
    obtain ⟨hv, hl⟩ := hl v (by simp [Value.nodes])
    refine (fits_intern hv).sure_bind fun s n _ _ hn => (hl s n hn).bind ?_
    rintro t l _ _ - rfl
    cases l with
    | none => exact Fits.pure fun _ _ _ => rfl
    | some l => exact Fits.pure fun _ _ _ => rfl
  | .collection items, _, hl => by
    simp only [Value.map]
    rw [encodeValue, View.encodeValue]
    refine (fits_encodeValues items fun m hm => hl m (by simpa [Value.nodes] using hm)).bind ?_
    rintro s args _ _ - rfl
    exact Fits.pure fun _ _ _ => rfl

theorem fits_encodeValues : ∀ (vs : List (Value ν)) {s₀ : Snapshot μ},
    (∀ m ∈ Value.nodesList vs, B.LocatesAs locate locate' m) →
    B.Fits s₀ (encodeValues locate (Value.mapList B.place vs)) (View.encodeValues locate' vs)
      (fun _ a b => a = b)
  | [], _, _ => by
    rw [Value.mapList, encodeValues, View.encodeValues]
    exact Fits.pure fun _ _ _ => rfl
  | v :: vs, _, hl => by
    rw [Value.mapList, encodeValues, View.encodeValues]
    refine (fits_encodeValue v fun m hm => hl m (by simp [Value.nodesList, hm])).bind ?_
    rintro s a _ _ - rfl
    cases a with
    | none => exact Fits.pure fun _ _ _ => rfl
    | some a =>
      refine (fits_encodeValues vs fun m hm => hl m (by simp [Value.nodesList, hm])).bind ?_
      rintro t args _ _ - rfl
      exact Fits.pure fun _ _ _ => rfl

end

theorem fits_encodeCall {s₀ : Snapshot μ} (o : Origin ν)
    (hl : ∀ m ∈ Value.nodesList o.args, B.LocatesAs locate locate' m) :
    B.Fits s₀ (encodeCall locate (o.map B.place)) (View.encodeCall locate' o) (fun _ a b => a = b) := by
  refine (fits_encodeValues o.args hl).bind ?_
  rintro s args _ _ - rfl
  cases args with
  | none => exact Fits.note_bind (Fits.pure fun _ _ _ => rfl)
  | some args => exact Fits.pure fun _ _ _ => rfl

end

theorem fits_originOf {s₀ : Snapshot μ} {p n : Node μ} {q v : ν} (hp : B.Stands s₀ p q)
    (hn : B.Stands s₀ n v) :
    B.Fits s₀ (originOf p n) (B.view.originOf q v) (fun _ a b => a = b.map (Origin.map B.place)) := by
  have h : B.Fits s₀ (originOf p n) (View.told (B.copy.host.origin p.host n.host)) (fun _ a b => a = b) :=
    asked_tells (Meets.read_bind (answer_tells _))
  rw [hp.host, hn.host, B.origin q v hp.2 hn.2] at h
  have hmap : View.told ((B.view.host.origin q v).map (Option.map (Origin.map B.place))) =
      (B.view.originOf q v).map (Option.map (Origin.map B.place)) := by
    unfold View.originOf
    cases B.view.host.origin q v <;> rfl
  rw [hmap] at h
  exact Tells.of_map h

section
variable [DecidableEq μ] [DecidableEq ν]

theorem fits_indexFrom {p n : Node μ} {q v : ν} : ∀ (left i : Nat) {s₀ : Snapshot μ}, B.Stands s₀ p q →
    B.Stands s₀ n v →
    B.Fits s₀ (indexFrom p n left i) (B.view.indexFrom q v left i) (fun _ a b => a = b)
  | 0, _, _, _, _ => Fits.pure fun _ _ _ => rfl
  | left + 1, i, s₀, hp, hn => by
    refine (fits_child hp i).bind fun s c u hs _ hcu => Fits.here fun t ht hi => ?_
    have hiff := (hcu.mono ht).eq_iff hi.sound (hn.mono (le_trans hs ht))
    by_cases hu : u = v
    · rw [if_pos hu, if_pos (hiff.2 hu)]
      exact Fits.pure fun _ _ _ => rfl
    · rw [if_neg hu, if_neg fun h => hu (hiff.1 h)]
      exact fits_indexFrom left (i + 1) (hp.mono (le_trans hs ht)) (hn.mono (le_trans hs ht))

theorem fits_hasTwin {n : Node μ} {v : ν} {k : NodeKey} {sp : Span} : ∀ {ms : List (Node μ)} {us : List ν}
    {s₀ : Snapshot μ}, B.Stands s₀ n v → s₀.Marks k (B.view.mark v) →
    List.Forall₂ (B.Stands s₀) ms us →
    B.Fits s₀ (hasTwin n k sp ms) (B.view.hasTwin v sp us) (fun _ a b => a = b)
  | [], _, _, _, _, .nil => Fits.pure fun _ _ _ => rfl
  | m :: ms, u :: us, s₀, hn, hk, .cons hm hms => by
    refine Fits.here fun s hs hi => ?_
    have rest : ∀ t, s ≤ t → B.Fits t (hasTwin n k sp ms) (B.view.hasTwin v sp us) (fun _ a b => a = b) :=
      fun t ht => fits_hasTwin (hn.mono (le_trans hs ht)) (hk.mono (le_trans hs ht))
        (hms.imp fun _ _ h => h.mono (le_trans hs ht))
    have hself := (hm.mono hs).eq_iff hi.sound (hn.mono hs)
    rw [hasTwin, View.hasTwin]
    by_cases hu : u = v
    · rw [if_pos hu, if_pos (hself.2 hu)]
      exact rest s (le_refl s)
    rw [if_neg hu, if_neg fun h => hu (hself.1 h)]
    refine (fits_key (hm.mono hs)).sure_bind fun t k' ht hi' hk' => ?_
    have hkey := key_eq_iff hk' (hk.mono (le_trans hs ht))
    by_cases hmark : B.view.mark u = B.view.mark v
    · rw [if_pos hmark, if_pos (hkey.2 hmark)]
      refine (fits_span (hm.mono (le_trans hs ht))).bind ?_
      rintro x span _ hx - rfl
      exact Fits.ite (fun _ => Fits.pure fun _ _ _ => rfl) fun _ => rest x (le_trans ht hx)
    · rw [if_neg hmark, if_neg fun h => hmark (hkey.1 h)]
      exact rest t ht

theorem fits_isFindable {s₀ : Snapshot μ} {p n : Node μ} {q v : ν} (hp : B.Stands s₀ p q)
    (hn : B.Stands s₀ n v) :
    B.Fits s₀ (isFindable p n) (B.view.isFindable q v) (fun _ a b => a = b) := by
  refine (fits_span hn).bind ?_
  rintro s span _ hs - rfl
  refine Fits.ite (fun _ => Fits.pure fun _ _ _ => rfl) fun _ => ?_
  refine (fits_isExternal (hn.mono hs)).sure_bind ?_
  rintro t _ ht - rfl
  refine Fits.ite (fun _ => Fits.pure fun _ _ _ => rfl) fun _ => ?_
  have hst := le_trans hs ht
  refine (fits_key (hn.mono hst)).sure_bind fun u k hu _ hk => ?_
  refine (fits_children (hp.mono (le_trans hst hu))).bind fun x cs us hx _ hcs => ?_
  refine (fits_hasTwin (hn.mono (le_trans hst (le_trans hu hx))) (hk.mono hx) hcs).bind ?_
  rintro y twin _ _ - rfl
  exact Fits.pure fun _ _ _ => rfl

variable (B) in
inductive SameHop (s : Snapshot μ) : Hop (Node μ) → Hop ν → Prop where
  | structural {n : Node μ} {v : ν} (h : B.Stands s n v) (index : Nat) (findable : Bool) :
    SameHop s (.structural n index findable) (.structural v index findable)
  | derived {n : Node μ} {v : ν} (h : B.Stands s n v) (call : Call) :
    SameHop s (.derived n call) (.derived v call)

omit [DecidableEq μ] [DecidableEq ν] in
theorem SameHop.mono {s t : Snapshot μ} {h : Hop (Node μ)} {h' : Hop ν} (hh : B.SameHop s h h')
    (hst : s ≤ t) : B.SameHop t h h' := by
  cases hh with
  | structural h i f => exact .structural (h.mono hst) i f
  | derived h call => exact .derived (h.mono hst) call

omit [DecidableEq μ] [DecidableEq ν] in
theorem SameHop.node {s : Snapshot μ} {h : Hop (Node μ)} {h' : Hop ν} (hh : B.SameHop s h h') :
    B.Stands s h.node h'.node := by
  cases hh with
  | structural h _ _ => exact h
  | derived h _ => exact h

/-! ## Routes -/

section
variable {locate : Node μ → Op μ (Option Locator)} {locate' : ν → Except Fault (Option Locator)}

theorem fits_hopTo {s₀ : Snapshot μ} {p n : Node μ} {q v : ν} (hp : B.Stands s₀ p q) (hn : B.Stands s₀ n v)
    (hq : B.view.host.HasParent v q)
    (hl : ∀ u o, B.view.host.Enters v u (some o) → ∀ m ∈ Value.nodesList o.args,
      B.LocatesAs locate locate' m) :
    B.Fits s₀ (hopTo locate p n) (B.view.hopTo locate' q v)
      (fun s a b => Option.Rel (fun x y => B.SameHop s x.1 y.1 ∧ B.Stands s x.2 y.2) a b) := by
  have derived : ∀ s o {x : Node μ} {u : ν}, s₀ ≤ s → B.Stands s x u → B.view.host.Enters v u (some o) →
      B.Fits s (do return (← encodeCall locate (o.map B.place)).map fun call => (Hop.derived n call, x))
        (do return (← View.encodeCall locate' o).map fun call => (Hop.derived v call, u))
        (fun s a b => Option.Rel (fun x y => B.SameHop s x.1 y.1 ∧ B.Stands s x.2 y.2) a b) := by
    intro s o x u hs hx ho
    refine (fits_encodeCall o (hl u o ho)).bind ?_
    rintro t call _ ht - rfl
    cases call with
    | none => exact Fits.pure fun _ _ _ => .none
    | some call =>
      exact Fits.pure fun y hy _ => .some ⟨.derived (hn.mono (le_trans hs (le_trans ht hy))) call,
        hx.mono (le_trans ht hy)⟩
  have refused : ∀ s e, B.Fits s (do note e; pure none) (.ok none)
      (fun s a b => Option.Rel (fun (x : Hop (Node μ) × Node μ) (y : Hop ν × ν) =>
        B.SameHop s x.1 y.1 ∧ B.Stands s x.2 y.2) a b) :=
    fun s e => Fits.note_bind (Fits.pure fun _ _ _ => .none)
  refine (fits_originOf hp hn).bind ?_
  rintro s _ o hs ho rfl
  have ho := View.originOf_eq_ok.1 ho
  cases o with
  | some o => exact derived s o hs (hp.mono hs) (.call hq ho)
  | none =>
    have hp' := hp.mono hs
    have hn' := hn.mono hs
    refine (fits_childCount hp').bind ?_
    rintro t count _ ht hcount rfl
    refine Fits.ite (fun h0 => ?_) fun _ => ?_
    · subst h0
      refine (fits_parent (hp'.mono ht)).bind fun u g g' hu hg hgg => ?_
      cases hgg with
      | none =>
        refine Fits.typeName_bind ((hn'.mono ht).mono hu) (Fits.typeName_bind ((hp'.mono ht).mono hu) ?_)
        exact refused u _
      | @some g g' hgg =>
        refine (fits_originOf hgg ((hn'.mono ht).mono hu)).bind ?_
        rintro x _ o hx ho' rfl
        cases o with
        | none =>
          have hux := le_trans ht (le_trans hu hx)
          refine Fits.typeName_bind (hn'.mono hux) (Fits.typeName_bind (hp'.mono hux) ?_)
          exact refused x _
        | some o =>
          refine derived x o (le_trans hs (le_trans ht (le_trans hu hx))) (hgg.mono hx) ?_
          exact .proxy hq ho (View.told_eq_ok.1 hcount) (View.parent_eq_ok.1 hg)
            (View.originOf_eq_ok.1 ho')
    · refine (fits_childCount (hp'.mono ht)).bind ?_
      rintro u count' _ hu - rfl
      have hp'' := (hp'.mono ht).mono hu
      have hn'' := (hn'.mono ht).mono hu
      refine (fits_indexFrom count' 0 hp'' hn'').bind ?_
      rintro x i _ hx - rfl
      cases i with
      | none =>
        refine Fits.typeName_bind (hn''.mono hx) (Fits.typeName_bind (hp''.mono hx) ?_)
        exact refused x _
      | some i =>
        refine (fits_isFindable (hp''.mono hx) (hn''.mono hx)).bind ?_
        rintro y findable _ hy - rfl
        exact Fits.pure fun z hz _ => .some ⟨.structural (hn''.mono (le_trans hx (le_trans hy hz))) i findable,
          hp''.mono (le_trans hx (le_trans hy hz))⟩

theorem fits_climb : ∀ (fuel fuel' : Nat) {s₀ : Snapshot μ} {n : Node μ} {start v : ν} {seen : List ν}
    {below : List (Hop (Node μ))} {below' : List (Hop ν)}, B.Stands s₀ n v →
    B.Trail B.view.host.EntersFrom start seen v →
    (∀ m, B.view.host.Needs v m → B.LocatesAs locate locate' m) →
    List.Forall₂ (B.SameHop s₀) below below' →
    B.copy.host.size < seen.length + fuel → B.view.host.size < seen.length + fuel' →
    B.Fits s₀ (climb locate fuel n below) (B.view.climb locate' fuel' v below')
      (fun s a b => Option.Rel (fun x y => B.Stands s x.1 y.1 ∧ List.Forall₂ (B.SameHop s) x.2 y.2) a b)
  | 0, _, _, _, _, _, _, _, _, _, ht, _, _, hf, _ => by
    have := ht.length_le
    omega
  | _ + 1, 0, _, _, _, _, _, _, _, _, ht, _, _, _, hf => by
    have := ht.length_le
    omega
  | fuel + 1, fuel' + 1, s₀, n, start, v, seen, below, below', hn, ht, hl, hb, hf, hf' => by
    refine (fits_parent hn).bind fun s p q hs hq hpq => ?_
    have hb' : ∀ t, s ≤ t → List.Forall₂ (B.SameHop t) below below' :=
      fun t hst => hb.imp fun _ _ h => h.mono (le_trans hs hst)
    cases hpq with
    | none => exact Fits.pure fun t hst _ => .some ⟨hn.mono (le_trans hs hst), hb' t hst⟩
    | @some p q hpq =>
      have hparent := View.parent_eq_ok.1 hq
      refine (fits_hopTo hpq (hn.mono hs) hparent fun u o ho m hm => hl m ⟨v, u, o, .refl, ho, hm⟩).bind ?_
      intro t x y hst hy hxy
      cases hxy with
      | none => exact Fits.pure fun _ _ _ => .none
      | @some x y hxy =>
        obtain ⟨hop, up⟩ := x
        obtain ⟨hop', up'⟩ := y
        obtain ⟨hhop, hup⟩ := hxy
        have henters : B.view.host.EntersFrom v up' := by
          rcases View.hopTo_eq_ok hparent hy with ⟨o, -, ho, -⟩ | ⟨-, -, rfl, ho, -⟩
          · exact ⟨_, ho⟩
          · exact ⟨_, ho⟩
        have hboth := inBoth_enters hn.2 henters.choose_spec
        refine fits_climb fuel fuel' hup (ht.next henters hboth (not_enters_circle hup.2)) ?_
          (.cons hhop (hb' t hst)) (by simp; omega) (by simp; omega)
        rintro m ⟨u, x, o, hu, hx, hm⟩
        exact hl m ⟨u, x, o, .head henters hu, hx, hm⟩

theorem fits_route {s₀ : Snapshot μ} {n : Node μ} {v : ν} (hn : B.Stands s₀ n v)
    (hl : ∀ m, B.view.host.Needs v m → B.LocatesAs locate locate' m) :
    B.Fits s₀ (route locate n) (B.view.route locate' v)
      (fun s a b => Option.Rel (fun x y => List.Forall₂ (B.SameHop s) x y) a b) := by
  refine Fits.reach_bind fun k hk => ?_
  refine (fits_climb k B.view.reach hn Trail.nil hl .nil (by simpa using hk) (by simp [View.reach])).bind ?_
  intro s x y hs _ hxy
  cases hxy with
  | none => exact Fits.pure fun _ _ _ => .none
  | @some x y hxy =>
    obtain ⟨top, hops⟩ := x
    obtain ⟨top', hops'⟩ := y
    obtain ⟨htop, hhops⟩ := hxy
    refine Fits.get_bind fun t ht hi => ?_
    have hroot : B.Stands t t.root B.view.root :=
      ⟨⟨hi.sound.root, hi.root.trans B.root⟩, B.isNode_root⟩
    have hiff := (htop.mono ht).eq_iff hi.sound hroot
    by_cases htop' : top' = B.view.root
    · simp only [if_pos htop', if_pos (hiff.2 htop')]
      exact Fits.pure fun u hu _ => .some (hhops.imp fun _ _ h => h.mono (le_trans ht hu))
    · simp only [if_neg htop', if_neg fun h => htop' (hiff.1 h)]
      exact Fits.typeName_bind (hn.mono (le_trans hs ht)) (Fits.note_bind (Fits.pure fun _ _ _ => .none))

end

/-! ## Shortcuts -/

omit [DecidableEq μ] [DecidableEq ν] in
theorem SameHop.isFindable {s : Snapshot μ} {h : Hop (Node μ)} {h' : Hop ν} (hh : B.SameHop s h h') :
    h.isFindable = h'.isFindable := by
  cases hh <;> rfl

omit [DecidableEq μ] [DecidableEq ν] in
theorem SameHop.isStructural {s : Snapshot μ} {h : Hop (Node μ)} {h' : Hop ν} (hh : B.SameHop s h h') :
    h.isStructural = h'.isStructural := by
  cases hh <;> rfl

variable (B) in
def SameRoute (s : Snapshot μ) (hops : List (Hop (Node μ))) (hops' : List (Hop ν)) : Prop :=
  List.Forall₂ (B.SameHop s) hops hops'

section
omit [DecidableEq μ] [DecidableEq ν]
variable {s t : Snapshot μ} {hops : List (Hop (Node μ))} {hops' : List (Hop ν)}

theorem SameRoute.mono (h : B.SameRoute s hops hops') (hst : s ≤ t) : B.SameRoute t hops hops' :=
  List.Forall₂.imp (fun _ _ hh => hh.mono hst) h

theorem SameRoute.getElem? : ∀ {hops : List (Hop (Node μ))} {hops' : List (Hop ν)},
    B.SameRoute s hops hops' → ∀ k : Nat, Option.Rel (B.SameHop s) hops[k]? hops'[k]?
  | [], [], .nil, _ => .none
  | _ :: _, _ :: _, .cons h _, 0 => .some h
  | _ :: _, _ :: _, .cons _ hs, k + 1 => SameRoute.getElem? hs k

theorem SameRoute.take (h : B.SameRoute s hops hops') (k : Nat) :
    B.SameRoute s (hops.take k) (hops'.take k) :=
  List.forall₂_take k h

theorem SameRoute.map_eq {α : Type} {f : Hop (Node μ) → α} {g : Hop ν → α}
    (hfg : ∀ h h', B.SameHop s h h' → f h = g h') : ∀ {hops : List (Hop (Node μ))} {hops' : List (Hop ν)},
    B.SameRoute s hops hops' → hops.map f = hops'.map g
  | [], [], .nil => rfl
  | _ :: _, _ :: _, .cons h hs => by
    rw [List.map_cons, List.map_cons, hfg _ _ h, SameRoute.map_eq hfg hs]

end

section
variable {hops : List (Hop (Node μ))} {hops' : List (Hop ν)}

omit [DecidableEq μ] [DecidableEq ν] in
theorem stands_root {s : Snapshot μ} (hi : s.Of B.copy B.Kept) : B.Stands s s.root B.view.root :=
  ⟨⟨hi.sound.root, hi.root.trans B.root⟩, B.isNode_root⟩

omit [DecidableEq μ] [DecidableEq ν] in
theorem fits_startOf {s₀ : Snapshot μ} (hh : B.SameRoute s₀ hops hops') (k : Nat) :
    B.Fits s₀ (startOf hops k) (.ok (B.view.startOf hops' k)) B.Stands := by
  cases k with
  | zero => exact Fits.get_bind fun s _ hi => Fits.pure fun _ ht _ => (stands_root hi).mono ht
  | succ k =>
    refine Fits.get_bind fun s hs hi => Fits.pure fun t ht _ => ?_
    have hk := (hh.mono (le_trans hs ht)).getElem? k
    rw [View.startOf]
    generalize hops[k]? = h at hk ⊢
    generalize hops'[k]? = h' at hk ⊢
    cases hk with
    | none => exact (stands_root hi).mono ht
    | some h => exact h.node

theorem fits_isFoundFrom {s₀ : Snapshot μ} {a n : Node μ} {x v : ν} (ha : B.Stands s₀ a x)
    (hn : B.Stands s₀ n v) (depth : Nat) :
    B.Fits s₀ (isFoundFrom a n depth) (B.view.isFoundFrom x v depth) (fun _ a b => a = b) := by
  refine (fits_targetAt hn depth).bind fun s t t' hs _ ht => ?_
  refine (fits_uniqueMatch (ha.mono hs) ht .none).bind fun u m m' hu _ hm => ?_
  refine Fits.pure fun y hy hi => ?_
  rw [decide_eq_decide]
  cases hm with
  | none => simp
  | some h =>
    simpa using (h.mono hy).eq_iff hi.sound (hn.mono (le_trans hs (le_trans hu hy)))

omit [DecidableEq μ] [DecidableEq ν] in
theorem fits_afterSearchRoot {tag : TypeTag} {name : String} : ∀ {hops : List (Hop (Node μ))}
    {hops' : List (Hop ν)} (k : Nat) {s₀ : Snapshot μ}, B.SameRoute s₀ hops hops' → s₀.Tags tag name →
    B.Fits s₀ (afterSearchRoot tag hops k) (.ok (B.view.afterSearchRoot name hops' k)) (fun _ a b => a = b)
  | [], [], _, _, .nil, _ => Fits.pure fun _ _ _ => rfl
  | h :: hs, h' :: hs', k, s₀, .cons hh hhs, htag => by
    refine (fits_typeTag hh.node).sure_bind fun s tag' hs hi htag' => ?_
    have hiff : tag' = tag ↔ B.view.host.typeName h'.node = name := by
      have htag'' : s.types.name? tag = some name := hs.name? _ _ htag
      have htag' : s.types.name? tag' = some (B.view.host.typeName h'.node) := htag'
      constructor
      · rintro rfl
        rw [htag'] at htag''
        exact Option.some.inj htag''
      · intro hname
        rw [hname] at htag'
        exact TypeRegistry.name?_inj htag' htag''
    unfold View.afterSearchRoot
    by_cases hname : B.view.host.typeName h'.node = name
    · rw [if_pos hname, if_pos (hiff.2 hname)]
      exact Fits.pure fun _ _ _ => rfl
    · rw [if_neg hname, if_neg fun h => hname (hiff.1 h)]
      exact fits_afterSearchRoot (k + 1) (SameRoute.mono hhs hs) (hs.name? _ _ htag)

theorem fits_shortcutFrom {a : Node μ} {x : ν} (start : Nat) : ∀ (left : Nat) {s₀ : Snapshot μ},
    B.SameRoute s₀ hops hops' → B.Stands s₀ a x →
    B.Fits s₀ (shortcutFrom hops a start left) (B.view.shortcutFrom hops' x start left)
      (fun _ a b => a = b)
  | 0, _, _, _ => Fits.pure fun _ _ _ => rfl
  | left + 1, s₀, hh, ha => by
    have rest : ∀ s, s₀ ≤ s → B.Fits s (shortcutFrom hops a start left)
        (B.view.shortcutFrom hops' x start left) (fun _ a b => a = b) :=
      fun s hs => fits_shortcutFrom start left (hh.mono hs) (ha.mono hs)
    have hk := hh.getElem? (start + left + 1)
    rw [shortcutFrom, View.shortcutFrom]
    generalize hops[start + left + 1]? = h at hk ⊢
    generalize hops'[start + left + 1]? = h' at hk ⊢
    cases hk with
    | none => exact rest s₀ (le_refl s₀)
    | @some h h' hhop =>
      dsimp only
      rw [hhop.isFindable]
      refine Fits.ite (fun _ => ?_) fun _ => rest s₀ (le_refl s₀)
      refine (fits_isFoundFrom ha hhop.node (left + 2)).bind ?_
      rintro s found _ hs - rfl
      refine Fits.ite (fun _ => ?_) fun _ => rest s hs
      exact Fits.typeName_bind (hhop.node.mono hs) (Fits.note_bind (Fits.pure fun _ _ _ => rfl))

theorem fits_farthest {a : Node μ} {x : ν} (current : Nat) : ∀ (left : Nat) {s₀ : Snapshot μ},
    B.SameRoute s₀ hops hops' → B.Stands s₀ a x →
    B.Fits s₀ (farthest hops a current left) (B.view.farthest hops' x current left) (fun _ a b => a = b)
  | 0, _, _, _ | 1, _, _, _ => Fits.pure fun _ _ _ => rfl
  | left + 2, s₀, hh, ha => by
    have rest : ∀ s, s₀ ≤ s → B.Fits s (farthest hops a current (left + 1))
        (B.view.farthest hops' x current (left + 1)) (fun _ a b => a = b) :=
      fun s hs => fits_farthest current (left + 1) (hh.mono hs) (ha.mono hs)
    have hk := hh.getElem? (current + left + 2)
    rw [farthest, View.farthest]
    generalize hops[current + left + 2]? = h at hk ⊢
    generalize hops'[current + left + 2]? = h' at hk ⊢
    cases hk with
    | none => exact rest s₀ (le_refl s₀)
    | @some h h' hhop =>
      refine (fits_isFoundFrom ha hhop.node (left + 2)).bind ?_
      rintro s found _ hs - rfl
      exact Fits.ite (fun _ => Fits.pure fun _ _ _ => rfl) fun _ => rest s hs

theorem fits_shortcutsAlong (last : Nat) : ∀ (fuel current : Nat) {s₀ : Snapshot μ},
    B.SameRoute s₀ hops hops' →
    B.Fits s₀ (shortcutsAlong hops last fuel current) (B.view.shortcutsAlong hops' last fuel current)
      (fun _ a b => a = b)
  | 0, _, _, _ => Fits.pure fun _ _ _ => rfl
  | fuel + 1, current, s₀, hh => by
    rw [shortcutsAlong, View.shortcutsAlong]
    refine Fits.ite (fun _ => Fits.pure fun _ _ _ => rfl) fun _ => ?_
    refine (fits_startOf hh (current + 1)).sure_bind fun s a hs _ ha => ?_
    refine (fits_farthest current _ (hh.mono hs) ha).bind ?_
    rintro t next _ ht - rfl
    have rest := fits_shortcutsAlong last fuel next (hh.mono (le_trans hs ht))
    refine Fits.ite (fun _ => Fits.note_bind (rest.bind ?_)) fun _ => rest
    rintro u cuts _ _ - rfl
    exact Fits.pure fun _ _ _ => rfl

theorem fits_shortcutsFrom {s₀ : Snapshot μ} (hh : B.SameRoute s₀ hops hops') (first stop : Nat) :
    B.Fits s₀ (shortcutsFrom hops first stop) (B.view.shortcutsFrom hops' first stop)
      (fun _ a b => a = b) := by
  refine Fits.ite (fun _ => Fits.pure fun _ _ _ => rfl) fun _ => ?_
  refine (fits_startOf hh first).sure_bind fun s a hs _ ha => ?_
  refine (fits_shortcutFrom first _ (hh.mono hs) ha).bind ?_
  rintro t top _ ht - rfl
  have hflags : ∀ k : Nat, ((hops.take stop).drop k).map Hop.isFindable =
      ((hops'.take stop).drop k).map Hop.isFindable := fun k =>
    SameRoute.map_eq (fun _ _ h => h.isFindable) (List.forall₂_drop k (hh.take stop))
  simp only [hflags]
  refine Fits.bind (Tells.mapM (S := fun s r r' => r = r' ∧ B.SameRoute s hops hops')
    (R := fun _ a b => a = b) ?_ ?_ ?_ (List.forall₂_same.2 fun r _ => ⟨rfl, hh.mono (le_trans hs ht)⟩)) ?_
  · exact fun _ _ _ _ hst h => ⟨h.1, h.2.mono hst⟩
  · exact fun _ _ _ _ _ h => h
  · rintro x r _ ⟨rfl, hx⟩
    exact fits_shortcutsAlong _ _ _ hx
  · intro x cuts cuts' _ _ hcuts
    rw [List.forall₂_eq_eq_eq] at hcuts
    cases hcuts
    exact Fits.pure fun _ _ _ => rfl

theorem fits_shortcutsIn {s₀ : Snapshot μ} (hh : B.SameRoute s₀ hops hops') (start stop : Nat) :
    B.Fits s₀ (shortcutsIn hops start stop) (B.view.shortcutsIn hops' start stop) (fun _ a b => a = b) := by
  have from_first : ∀ s first, s₀ ≤ s → B.Fits s (shortcutsFrom hops first stop)
      (B.view.shortcutsFrom hops' first stop) (fun _ a b => a = b) :=
    fun s first hs => fits_shortcutsFrom (hh.mono hs) first stop
  rw [shortcutsIn, View.shortcutsIn]
  refine Fits.get_bind fun s hs hi => ?_
  have hroot := hi.sound.searchRoot
  rw [B.searchRoot] at hroot
  unfold View.firstIn
  cases start with
  | succ start => exact from_first s (start + 1) hs
  | zero =>
    cases hv : B.view.host.searchRoot with
    | none =>
      rw [hv] at hroot
      cases hr : s.searchRoot with
      | none => exact from_first s 0 hs
      | some tag =>
        rw [hr] at hroot
        cases hroot
    | some name =>
      rw [hv] at hroot
      cases hr : s.searchRoot with
      | none =>
        rw [hr] at hroot
        cases hroot
      | some tag =>
        rw [hr] at hroot
        have htag : s.Tags tag name := Option.some.inj hroot
        refine (fits_afterSearchRoot 0 ((hh.mono hs).take stop) htag).sure_bind ?_
        rintro t _ ht - rfl
        exact from_first t _ (le_trans hs ht)

theorem fits_shortcuts {s₀ : Snapshot μ} (hh : B.SameRoute s₀ hops hops') :
    B.Fits s₀ (shortcuts hops) (B.view.shortcuts hops') (fun _ a b => a = b) := by
  have hflags : hops.map Hop.isStructural = hops'.map Hop.isStructural :=
    SameRoute.map_eq (fun _ _ h => h.isStructural) hh
  unfold shortcuts View.shortcuts
  rw [hflags]
  refine Fits.bind (Tells.mapM (S := fun s r r' => r = r' ∧ B.SameRoute s hops hops')
    (R := fun _ a b => a = b) ?_ ?_ ?_ (List.forall₂_same.2 fun r _ => ⟨rfl, hh⟩)) ?_
  · exact fun _ _ _ _ hst h => ⟨h.1, h.2.mono hst⟩
  · exact fun _ _ _ _ _ h => h
  · rintro x r _ ⟨rfl, hx⟩
    exact fits_shortcutsIn hx r.1 r.2
  · intro x cuts cuts' _ _ hcuts
    rw [List.forall₂_eq_eq_eq] at hcuts
    cases hcuts
    exact Fits.pure fun _ _ _ => rfl

omit [DecidableEq ν] in
theorem fits_fingerprint {s₀ : Snapshot μ} {n : Node μ} {v : ν} (hn : B.Stands s₀ n v) (depth : Nat) :
    B.Fits s₀ (fingerprint n depth) (B.view.fingerprint v depth) (fun _ a b => a = b) := by
  refine (fits_span hn).bind ?_
  rintro s span _ hs - rfl
  refine Fits.get_bind fun t ht hi => ?_
  have hn' := hn.mono (le_trans hs ht)
  have finish : ∀ u label, t ≤ u → B.Fits u (do
      return { type := ← Op.typeName n, label, span, depth := depth.toUInt32, external := ← Op.isExternal n })
      (.ok { type := B.view.host.typeName v, label, span, depth := depth.toUInt32,
             external := B.view.host.isExternal v }) (fun _ (a b : Fingerprint) => a = b) := by
    intro u label hu
    refine Fits.typeName_bind (hn'.mono hu) ((fits_isExternal (hn'.mono hu)).sure_bind ?_)
    rintro x _ _ - rfl
    exact Fits.pure fun _ _ _ => rfl
  rw [hi.config, B.config]
  cases B.view.config.identify with
  | type => exact finish t none (le_refl t)
  | label =>
    refine (fits_label hn').sure_bind ?_
    rintro u _ hu - rfl
    exact finish u _ hu

omit [DecidableEq ν] in
theorem fits_stepsFrom (cuts : List Shortcut) : ∀ {hops : List (Hop (Node μ))} {hops' : List (Hop ν)}
    (k anchor : Nat) {s₀ : Snapshot μ}, B.SameRoute s₀ hops hops' →
    B.Fits s₀ (stepsFrom cuts hops k anchor) (B.view.stepsFrom cuts hops' k anchor) (fun _ a b => a = b)
  | [], [], _, _, _, .nil => Fits.pure fun _ _ _ => rfl
  | h :: hs, h' :: hs', k, anchor, s₀, .cons hh hhs => by
    have rest : ∀ s anchor, s₀ ≤ s → B.Fits s (stepsFrom cuts hs (k + 1) anchor)
        (B.view.stepsFrom cuts hs' (k + 1) anchor) (fun _ a b => a = b) :=
      fun s anchor hs' => fits_stepsFrom cuts (k + 1) anchor (SameRoute.mono hhs hs')
    have cons : ∀ s (step : Step), s₀ ≤ s → B.Fits s
        (do return step :: (← stepsFrom cuts hs (k + 1) (k + 1)))
        (do return step :: (← B.view.stepsFrom cuts hs' (k + 1) (k + 1))) (fun _ a b => a = b) := by
      intro s step hs'
      refine (rest s _ hs').bind ?_
      rintro t steps _ _ - rfl
      exact Fits.pure fun _ _ _ => rfl
    rw [stepsFrom, View.stepsFrom]
    refine Fits.ite (fun _ => rest s₀ anchor (le_refl s₀)) fun _ => ?_
    cases hh with
    | derived h call => exact cons s₀ _ (le_refl s₀)
    | structural h i findable =>
      cases findable with
      | false => exact cons s₀ _ (le_refl s₀)
      | true =>
        refine (fits_fingerprint h _).bind ?_
        rintro s f _ hs' - rfl
        exact cons s _ hs'

theorem fits_shorten {s₀ : Snapshot μ} (hh : B.SameRoute s₀ hops hops') :
    B.Fits s₀ (shorten hops) (B.view.shorten hops') (fun _ a b => a = b) := by
  refine (fits_shortcuts hh).bind ?_
  rintro s cuts _ hs - rfl
  exact fits_stepsFrom cuts 0 0 (hh.mono hs)

end

/-! ## Locating -/

theorem fits_locateWith {locate : Node μ → Op μ (Option Locator)}
    {locate' : ν → Except Fault (Option Locator)} {s₀ : Snapshot μ} {n : Node μ} {v : ν}
    (hn : B.Stands s₀ n v) (hl : ∀ m, B.view.host.Needs v m → B.LocatesAs locate locate' m) :
    B.Fits s₀ (locateWith locate n) (B.view.locateWith locate' v) (fun _ a b => a = b) := by
  refine (fits_route hn hl).bind fun s x y hs _ hxy => ?_
  cases hxy with
  | none => exact Fits.pure fun _ _ _ => rfl
  | @some hops hops' hh =>
    have hlen : hops.length = hops'.length := hh.length_eq
    dsimp only
    rw [locateAlong, hlen]
    refine (fits_fingerprint (hn.mono hs) hops'.length).bind ?_
    rintro t result _ ht - rfl
    refine (fits_shorten (SameRoute.mono hh ht)).bind ?_
    rintro u steps _ _ - rfl
    exact Fits.note_bind (Fits.pure fun _ _ _ => rfl)

theorem fits_locateWithin : ∀ (fuel fuel' : Nat) {start v : ν} {seen : List ν},
    B.Trail B.view.host.Needs start seen v → B.IsNode v →
    B.copy.host.size < seen.length + fuel → B.view.host.size < seen.length + fuel' →
    B.LocatesAs (locateWithin fuel) (B.view.locateWithin fuel') v
  | 0, _, _, _, _, ht, _, hf, _ => by
    have := ht.length_le
    omega
  | _ + 1, 0, _, _, _, ht, _, _, hf => by
    have := ht.length_le
    omega
  | fuel + 1, fuel' + 1, start, v, seen, ht, hv, hf, hf' => by
    refine ⟨hv, fun s n hn => fits_locateWith hn fun m hm => ?_⟩
    have hboth := inBoth_needs hv hm
    exact fits_locateWithin fuel fuel' (ht.next hm hboth (not_needs_circle hboth.isNode)) hboth.isNode
      (by simp; omega) (by simp; omega)

theorem fits_locate {s₀ : Snapshot μ} {n : Node μ} {v : ν} (hn : B.Stands s₀ n v) :
    B.Fits s₀ (locate n) (B.view.locate v) (fun _ a b => a = b) := by
  refine Fits.reach_bind fun k hk => ?_
  have h := fits_locateWithin (B := B) k B.view.reach Trail.nil hn.2 (by simpa using hk)
    (by simp [View.reach])
  exact h.2 s₀ n hn

end

end Waymark.Rebuild
