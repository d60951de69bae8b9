import Waymark.Proofs.Snapshot.Blind
import Waymark.Proofs.Snapshot.History

/-!
# Fingerprints mean the same in every snapshot

The numbers of types are those of one snapshot, and each one has its own. What a fingerprint says about a
node is said by names, so a key made of it in any snapshot is the key of those nodes that have the label, or
the type where labels do not count or there is none. In the snapshot it was made in, a fingerprint is looked
for just as the node itself is.
-/

namespace Waymark

variable {ν μ α β : Type}

/-! ## One more type name -/

namespace TypeRegistry

variable {r r' r'' : TypeRegistry} {name : String} {tag : TypeTag}

def Numbers (name : String) (r r' : TypeRegistry) : Prop := r' = r ∨ r' = (r.intern name).2

theorem intern_of_name? (h : r.name? tag = some name) : (r.intern name).2 = r := by
  unfold intern
  split
  · rfl
  · rename_i hf
    rw [find?_eq_some_iff.2 h] at hf
    cases hf

theorem Numbers.eq_of_name? (h : r.Numbers name r') (ht : r'.name? tag = some name) :
    r' = (r.intern name).2 := by
  rcases h with rfl | h
  · exact (intern_of_name? ht).symm
  · exact h

theorem Numbers.trans (h : Numbers name r r') (h' : Numbers name r' r'') : Numbers name r r'' := by
  rcases h' with rfl | h'
  · exact h
  · rcases h with rfl | h
    · exact .inr h'
    · rw [h, intern_of_name? (intern_spec r name).1] at h'
      exact .inr h'

end TypeRegistry

theorem Snapshot.key_eq_of_numbers {x y : Snapshot ν} {r : TypeRegistry} {name : String}
    (hrx : r.Numbers name x.types) (hry : r.Numbers name y.types) {mark : Mark}
    (hmark : ∀ m, mark = .type m → m = name) {j k : NodeKey} (hj : x.Marks j mark) (hk : y.Marks k mark) :
    j = k := by
  cases mark with
  | label l =>
    cases j with
    | type _ => cases hj
    | label a =>
      cases k with
      | type _ => cases hk
      | label b => rw [show a = l from hj, show b = l from hk]
  | type m =>
    obtain rfl := hmark m rfl
    cases j with
    | label _ => cases hj
    | type a =>
      cases k with
      | label _ => cases hk
      | type b =>
        -- Both registries are the one with this name in it.
        have hsame : y.types = x.types := (hry.eq_of_name? hk).trans (hrx.eq_of_name? hj).symm
        have hb : x.types.name? b = some m := hsame ▸ hk
        rw [TypeRegistry.name?_inj hj hb]

namespace Op

open Snapshot TypeRegistry

/-! ## What is learned about a node by its type -/

/-- The operation succeeds, and it learns no more than keys, hooks and the number of one type name. -/
def Quiet (host : Host ν) (name : String) (op : Op ν α) (Q : α → Prop) : Prop :=
  ∀ s, ∃ a t, op.exec host s = (.ok a, t) ∧ s.SamePlaces t ∧ s.types.Numbers name t.types ∧ Q a

section
variable {host : Host ν} {name : String} {op : Op ν α} {f : α → Op ν β} {Q : α → Prop} {R : β → Prop}

theorem Quiet.pure {a : α} (h : Q a) : Quiet host name (pure a) Q :=
  fun s => ⟨a, s, rfl, .refl s, .inl rfl, h⟩

theorem Quiet.bind (h : Quiet host name op Q) (hf : ∀ a, Q a → Quiet host name (f a) R) :
    Quiet host name (op >>= f) R := by
  intro s
  obtain ⟨a, t, hrun, hst, hnum, ha⟩ := h s
  obtain ⟨b, u, hrun', htu, hnum', hb⟩ := hf a ha t
  refine ⟨b, u, ?_, hst.trans htu, hnum.trans hnum', hb⟩
  rw [exec_bind, hrun]
  exact hrun'

theorem Quiet.get_bind {f : Snapshot ν → Op ν β} (hf : ∀ s, Quiet host name (f s) R) :
    Quiet host name (get >>= f) R :=
  fun s => hf s s

theorem Quiet.slot_bind {n : Node ν} {f : Slot ν → Op ν β} (hf : ∀ x, Quiet host name (f x) R) :
    Quiet host name (slot n >>= f) R :=
  fun s => hf (s.slot n) s

theorem Quiet.typeName_bind {n : Node ν} {f : String → Op ν β}
    (hf : Quiet host name (f (host.typeName n.host)) R) : Quiet host name (typeName n >>= f) R := hf

theorem Quiet.asked_bind {q : Query ν} {op : Op ν α} (h : Quiet host name op Q) :
    Quiet host name (asked q >>= fun _ => op) Q := by
  have hq : Quiet host name (asked q) fun _ => True :=
    fun s => ⟨(), _, rfl, ⟨rfl, rfl, rfl⟩, .inl rfl, trivial⟩
  exact hq.bind fun _ _ => h

theorem Quiet.update_bind {n : Node ν} {f : Slot ν → Slot ν} {op : Op ν α}
    (hf : ∀ x, (f x).bare = x.bare) (h : Quiet host name op Q) :
    Quiet host name (update n f >>= fun _ => op) Q := by
  have hu : Quiet host name (update n f) fun _ => True :=
    fun s => ⟨(), _, rfl, samePlaces_put s n hf, .inl rfl, trivial⟩
  exact hu.bind fun _ _ => h

theorem quiet_internType : Quiet host name (internType name) fun _ => True :=
  fun _ => ⟨_, _, rfl, ⟨rfl, rfl, rfl⟩, .inr rfl, trivial⟩

theorem quiet_hasHook (tag : TypeTag) (hook : Hook) : Quiet host name (hasHook tag hook) fun _ => True := by
  apply Quiet.get_bind
  intro s
  cases s.hooks.lookup (tag, hook) with
  | some b => exact .pure trivial
  | none => exact .asked_bind fun t => ⟨_, _, rfl, ⟨rfl, rfl, rfl⟩, .inl rfl, trivial⟩

section
variable (n : Node ν)

theorem quiet_typeTag : Quiet host (host.typeName n.host) (typeTag n) fun _ => True := by
  apply Quiet.slot_bind
  intro x
  cases x.tag with
  | some tag => exact .pure trivial
  | none =>
    refine .typeName_bind (quiet_internType.bind fun tag _ => ?_)
    exact .update_bind (fun _ => rfl) (.pure trivial)

theorem quiet_label : Quiet host (host.typeName n.host) (label n) fun _ => True := by
  refine (quiet_typeTag n).bind fun tag _ => (quiet_hasHook tag .label).bind fun b _ => ?_
  cases b with
  | false => exact .pure trivial
  | true => exact .asked_bind fun s => ⟨_, s, rfl, .refl s, .inl rfl, trivial⟩

theorem quiet_isExternal : Quiet host (host.typeName n.host) (isExternal n) fun _ => True := by
  refine (quiet_typeTag n).bind fun tag _ => (quiet_hasHook tag .external).bind fun b _ => ?_
  cases b with
  | false => exact .pure trivial
  | true => exact .asked_bind fun s => ⟨_, s, rfl, .refl s, .inl rfl, trivial⟩

theorem quiet_key : Quiet host (host.typeName n.host) (key n) fun _ => True := by
  have keep : ∀ k, Quiet host (host.typeName n.host) (do
      update n fun s => { s with key := some k }
      return k) fun _ => True :=
    fun k => .update_bind (fun _ => rfl) (.pure trivial)
  apply Quiet.slot_bind
  intro x
  cases x.key with
  | some k => exact .pure trivial
  | none =>
    refine (quiet_typeTag n).bind fun tag _ => .get_bind fun s => ?_
    cases s.config.identify with
    | type => exact keep _
    | label =>
      refine (quiet_label n).bind fun l _ => ?_
      cases l with
      | none => exact keep _
      | some l => exact keep _

end

theorem quiet_targetOf {f : Fingerprint} (hf : f.type = name) :
    Quiet host name (targetOf f) fun _ => True := by
  subst hf
  have byType : Quiet host f.type (do
      let key ← do pure (NodeKey.type (← internType f.type))
      return { key, span := f.span, depth := f.depth.toNat : Target }) fun _ => True :=
    quiet_internType.bind fun tag _ => .pure trivial
  apply Quiet.get_bind
  intro s
  cases f.label with
  | none => exact byType
  | some l =>
    cases s.config.identify with
    | type => exact byType
    | label => exact .pure trivial

end

/-! ## Targets of a node and of its fingerprint -/

section
variable [DecidableEq ν] {host : Host ν}

omit [DecidableEq ν] in
theorem quiet_picture (n : Node ν) (depth : Nat) (span : Span) :
    Quiet host (host.typeName n.host) (picture n depth span) fun f => f.type = host.typeName n.host := by
  have finish : ∀ label, Quiet host (host.typeName n.host) (do
      return { type := ← typeName n, label, span, depth := depth.toUInt32, external := ← isExternal n })
      fun f : Fingerprint => f.type = host.typeName n.host :=
    fun label => .typeName_bind ((quiet_isExternal n).bind fun _ _ => .pure rfl)
  apply Quiet.get_bind
  intro s
  cases s.config.identify with
  | label => exact (quiet_label n).bind fun l _ => finish l
  | type => exact finish none

/-- After the search for a span, the fault of that search is the only one. -/
theorem exec_span_bind {name : String} {g : Span → Op ν β} {Q : β → Prop}
    (hg : ∀ span, Quiet host name (g span) Q) (n : Node ν) (s : Snapshot ν) :
    (∃ e, ((span n).exec host s).1 = .error e ∧ ((span n >>= g).exec host s).1 = .error e) ∨
    ∃ a x sp, ((span n).exec host s).1 = .ok sp ∧ (span n >>= g).exec host s = (.ok a, x) ∧
      s.types.Numbers name x.types := by
  have htypes : ((span n).exec host s).2.types = s.types := (blind_span n).types s
  rw [exec_bind]
  generalize (span n).exec host s = run at htypes
  obtain ⟨r, t⟩ := run
  cases r with
  | error e => exact .inl ⟨e, rfl, rfl⟩
  | ok sp =>
    obtain ⟨a, x, hrun, -, hnum, -⟩ := hg sp t
    refine .inr ⟨a, x, sp, rfl, hrun, ?_⟩
    rwa [show t.types = s.types from htypes] at hnum

end

end Op

open Op Snapshot

namespace Host

variable {A : Host ν} {B : Host μ} {v : ν} {u : μ}

theorem mark_eq_type {identify : Identity} {name : String} (h : A.mark identify v = .type name) :
    name = A.typeName v := by
  unfold mark at h
  split at h
  · cases h
  · exact (Mark.type.inj h).symm

theorem mark_eq_iff (identify : Identity) : A.mark identify v = B.mark identify u ↔
    match identify with
    | .type => A.typeName v = B.typeName u
    | .label => (∃ l, A.shownLabel v = some l ∧ B.shownLabel u = some l) ∨
        A.shownLabel v = none ∧ B.shownLabel u = none ∧ A.typeName v = B.typeName u := by
  unfold mark
  cases identify with
  | type => simp
  | label => cases A.shownLabel v <;> cases B.shownLabel u <;> simp [eq_comm]

end Host

/-- What is sought by a fingerprint of a node is sought by the node's mark. -/
theorem View.soughtOf_mark {w : View ν} {w' : View μ} {v : ν} {depth : Nat} {f : Fingerprint}
    (hid : w.config.identify = w'.config.identify) (hf : Pictures w v depth f) :
    (w'.soughtOf f).mark = w.mark v := by
  have hlabel := hf.label
  unfold View.soughtOf View.mark Host.mark
  rw [← hid]
  cases hi : w.config.identify with
  | type =>
    rw [hi] at hlabel
    rw [hlabel, hf.type]
  | label =>
    rw [hi] at hlabel
    rw [hlabel]
    cases w.host.shownLabel v with
    | none => exact congrArg Mark.type hf.type
    | some l => rfl

section
variable [DecidableEq ν] {w : View ν} {K : Scope w.host} {E : Fault → Prop} {s₀ : Snapshot ν} {n : Node ν}

theorem keeps_targetOf_fingerprint (hE : Excuses w.host K E) (hn : s₀.Knows n) (d : UInt32) :
    Keeps w K E s₀ (fingerprint n d.toNat >>= targetOf) (fun s target => Aims w s n d.toNat target) := by
  refine (keeps_fingerprint hE hn _).bind fun s f hs _ hf => (keeps_targetOf f).mono ?_ fun _ h => h
  intro t target _ _ ht
  obtain ⟨hkey, hspan, hdepth⟩ := ht
  refine ⟨?_, ?_, ?_⟩
  · rwa [View.soughtOf_mark rfl hf] at hkey
  · rw [hspan]
    exact hf.span
  · rw [hdepth, View.soughtOf, hf.depth]
    simp

end

namespace Snapshot

variable [DecidableEq ν]

/-- A fingerprint is looked for as the node is that it is of. -/
theorem Of.targetOf_fingerprint {w : View ν} {s : Snapshot ν} (hs : s.Of w (.all w.host)) {n : Node ν}
    (hn : s.Knows n) (d : UInt32) :
    ((fingerprint n d.toNat >>= targetOf).exec w.host s).1 = ((targetAt n d.toNat).exec w.host s).1 := by
  have hE := Excuses.all w.host
  -- The key comes first when the node is looked for. It changes nothing for the span.
  have hquiet : Quiet w.host (w.host.typeName n.host) (key n) fun _ => True := quiet_key n
  have hblind : Blind w.host (span n) := blind_span n
  obtain ⟨k, t, hkey, hplaces, hnum, -⟩ := hquiet s
  obtain ⟨hspan, -⟩ := hblind.same s t hplaces
  have hright : (targetAt n d.toNat).exec w.host s = (span n >>= fun sp =>
      (pure { key := k, span := sp, depth := d.toNat } : Op ν Target)).exec w.host t := by
    unfold targetAt
    rw [exec_bind, hkey]
  have hleft : fingerprint n d.toNat >>= targetOf =
      span n >>= fun sp => picture n d.toNat sp >>= targetOf := by
    rw [fingerprint, bind_assoc]
  have quietLeft : ∀ sp, Quiet w.host (w.host.typeName n.host) (picture n d.toNat sp >>= targetOf)
      fun _ => True :=
    fun sp => (quiet_picture n d.toNat sp).bind fun f hf => quiet_targetOf hf
  have quietRight : ∀ sp, Quiet w.host (w.host.typeName n.host)
      (pure { key := k, span := sp, depth := d.toNat } : Op ν Target) fun _ => True :=
    fun sp => .pure trivial
  rcases exec_span_bind quietLeft n s with ⟨e, he, hrun⟩ | ⟨a, x, sp, hsp, hrun, hx⟩
  · rcases exec_span_bind quietRight n t with ⟨e', he', hrun'⟩ | ⟨-, -, sp', hsp', -, -⟩
    · rw [hleft, hrun, hright, hrun']
      have hsame : Except.error e = Except.error e' := he.symm.trans (hspan.trans he')
      rw [Except.error.inj hsame]
    · rw [hspan, hsp'] at he
      cases he
  · rcases exec_span_bind quietRight n t with ⟨e', he', -⟩ | ⟨b, y, sp', -, hrun', hy⟩
    · rw [hspan, he'] at hsp
      cases hsp
    · obtain ⟨-, hofx, ha⟩ := (keeps_targetOf_fingerprint hE hn d).result (le_refl s) hs (hleft ▸ hrun)
      obtain ⟨-, -, hb⟩ := (keeps_targetAt hE hn d.toNat).result (le_refl s) hs (hright.trans hrun')
      have hkeys : a.key = b.key := key_eq_of_numbers hx (hnum.trans hy)
        (fun m hm => Host.mark_eq_type hm) ha.key hb.key
      have hspans : a.span = b.span := ha.span.unique hb.span
      have hdepths : a.depth = b.depth := ha.depth.trans hb.depth.symm
      rw [hleft, hrun, hright, hrun']
      obtain ⟨ka, sa, da⟩ := a
      obtain ⟨kb, sb, db⟩ := b
      cases hkeys
      cases hspans
      cases hdepths
      rfl

/-- In any two snapshots with the same way to identify nodes, a target made in the second one of a fingerprint
from the first one has the key of a node if and only if the two nodes have the same type name or, where labels
count and one of them shows a label, the same label. In one snapshot the target made of a node's fingerprint
is the target made of the node. -/
theorem History.fingerprint_identifies [DecidableEq μ] {A : Host ν} {B : Host μ} {a : ν} {b : μ}
    {s : Snapshot ν} {t : Snapshot μ} (hs : s.History A a) (ht : t.History B b)
    (hid : s.config.identify = t.config.identify) {n : Node ν} {m : Node μ} (hn : s.Knows n) (hm : t.Knows m)
    (d : UInt32) :
    (∀ f, ((fingerprint n d.toNat).exec A s).1 = .ok f →
      ∃ target k, ((do return (← targetOf f, ← key m)).exec B t).1 = .ok (target, k) ∧
        (target.key = k ↔ match s.config.identify with
          | .type => A.typeName n.host = B.typeName m.host
          | .label => (∃ l, A.shownLabel n.host = some l ∧ B.shownLabel m.host = some l) ∨
              A.shownLabel n.host = none ∧ B.shownLabel m.host = none ∧
                A.typeName n.host = B.typeName m.host)) ∧
    ((fingerprint n d.toNat >>= targetOf).exec A s).1 = ((targetAt n d.toNat).exec A s).1 := by
  let w : View ν := ⟨A, s.config, a⟩
  let w' : View μ := ⟨B, t.config, b⟩
  have hs' : s.Of w (.all A) := hs.of_all
  have ht' : t.Of w' (.all B) := ht.of_all
  refine ⟨?_, hs'.targetOf_fingerprint hn d⟩
  intro f hf
  have hpic : Pictures w n.host d.toNat f :=
    ((keeps_fingerprint (Excuses.all A) hn _).result (le_refl s) hs' (exec_eq_of_result hf)).2.2
  have hkeys : Keeps w' (.all B) (fun _ => False) t (do return (← targetOf f, ← key m))
      (fun x r => SameTarget x r.1 (w'.soughtOf f) ∧ x.Marks r.2 (w'.mark m.host)) := by
    refine (keeps_targetOf f).bind fun x target hx _ htarget => ?_
    refine Meets.bind (key_tells (hm.mono hx)).sure fun y k hy _ hk => Meets.pure fun z hz _ => ?_
    exact ⟨htarget.mono (le_trans hy hz), hk.mono hz⟩
  obtain ⟨r, hrun, hof, htarget, hk⟩ := hkeys.returns (le_refl t) ht'
  refine ⟨r.1, r.2, hrun, ?_⟩
  rw [key_eq_iff htarget.1 hk, View.soughtOf_mark hid hpic, View.mark, View.mark,
    ← Host.mark_eq_iff, hid]

/-! ## A name, and the same name in a tree with other types -/

def naming (unit name : String) : Host Bool where
  size := 2
  childCount v := .ok (if v then 0 else 1)
  child _ _ := .ok true
  parent v := .ok (if v then some false else none)
  typeName v := if v then name else unit
  packedSpan v := some (if v then ⟨5, 7⟩ else ⟨1, 9⟩)
  label v := if v then some "x" else none
  bounded := Host.bounded_of_fintype

def namingAsked (unit name : String) : Snapshot Bool :=
  ((Request.key true).op.exec (naming unit name) (ofRoot { identify := .label } (naming unit name) false)).2

def nameFingerprint : Fingerprint := { type := "Name", label := some "x", span := ⟨5, 7⟩, depth := 1 }

theorem fingerprint_identifies_name :
    ((fingerprint ⟨1, true⟩ 1).exec (naming "Decl" "Name") (namingAsked "Decl" "Name")).1 = .ok nameFingerprint ∧
      ∃ target k, ((do return (← targetOf nameFingerprint, ← key ⟨1, true⟩)).exec (naming "Unit" "Ident")
        (namingAsked "Unit" "Ident")).1 = .ok (target, k) ∧ target.key = k := by
  have hs : (namingAsked "Decl" "Name").History (naming "Decl" "Name") false :=
    (History.fresh _).request (.key true)
  have ht : (namingAsked "Unit" "Ident").History (naming "Unit" "Ident") false :=
    (History.fresh _).request (.key true)
  have hid : (namingAsked "Decl" "Name").config.identify = (namingAsked "Unit" "Ident").config.identify := by
    cbv
  have hlabel : (namingAsked "Decl" "Name").config.identify = .label := by cbv
  have hn : (namingAsked "Decl" "Name").handle? 1 = some true := by cbv
  have hm : (namingAsked "Unit" "Ident").handle? 1 = some true := by cbv
  have hf : ((fingerprint ⟨1, true⟩ 1).exec (naming "Decl" "Name") (namingAsked "Decl" "Name")).1 =
      .ok nameFingerprint := by decide +kernel
  refine ⟨hf, ?_⟩
  obtain ⟨htargets, -⟩ := History.fingerprint_identifies hs ht hid (n := ⟨1, true⟩) (m := ⟨1, true⟩) hn hm 1
  obtain ⟨target, k, hrun, hkey⟩ := htargets nameFingerprint hf
  rw [hlabel] at hkey
  exact ⟨target, k, hrun, hkey.2 (.inl ⟨"x", rfl, rfl⟩)⟩

end Snapshot

end Waymark
