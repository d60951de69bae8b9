import Waymark.Proofs.View.RoundTrip

/-!
# Spans of external nodes

External nodes have their spans in another text. Whatever these spans are, the locators of a coherent
tree lead back, if the spans of all other nodes are nested and none of them is borrowed from below.
-/

namespace Waymark

open Relation

variable {ν : Type}

/-- Spans of nodes that are not external are not turned around, and lie within those of such nodes above.
Where spans are looked for below first, these nodes have spans of their own. External nodes may have any
span. -/
structure Host.Placed (host : Host ν) (config : Config) (N : ν → Prop) : Prop where
  own : config.recovery.startsBelow = true → ∀ v, N v → host.isExternal v = false →
    (host.rawSpan config.positions v).isMeaningful = true
  ordered : ∀ v, N v → host.isExternal v = false → (host.rawSpan config.positions v).isMeaningful = true →
    (host.rawSpan config.positions v).start ≤ (host.rawSpan config.positions v).stop
  inside : ∀ a d, N a → TransGen host.IsChild a d → host.isExternal a = false →
    host.isExternal d = false → (host.rawSpan config.positions a).isMeaningful = true →
    (host.rawSpan config.positions d).isMeaningful = true →
    (host.rawSpan config.positions a).start ≤ (host.rawSpan config.positions d).start ∧
      (host.rawSpan config.positions d).stop ≤ (host.rawSpan config.positions a).stop

namespace View

variable {w : View ν} {N : ν → Prop} (hc : w.host.Coherent w.root N)
variable (hp : w.host.Placed w.config N)
include hc hp

/-- What a child that is looked for has as its span overlaps with the span of its parent. -/
theorem overlaps_of_placed {p v : ν} {t : Sought} (hnp : N p) (ha : w.Alone p v t)
    (hext : w.host.isExternal p = false) (hm : (w.rawSpan p).isMeaningful = true) :
    (w.rawSpan p).overlaps t.span = true := by
  obtain ⟨i, hi⟩ := ha.child
  have hnv := hc.closed.child p i v hnp hi
  by_cases hraw : (w.rawSpan v).isMeaningful = true
  · have hsv : w.rawSpan v = t.span := pure_eq_ok.1 ((if_pos hraw).symm.trans ha.span)
    have hin := hp.inside p v hnp (.single ⟨i, hi⟩) hext ha.notExternal hm hraw
    rw [← hsv]
    exact Span.overlaps_of_inside hin.1 (hp.ordered v hnv ha.notExternal hraw) hin.2
  · have hb : w.borrowedSpan w.config.recovery v = .ok t.span := (if_neg hraw).symm.trans ha.span
    have hparent := hc.parent_child p v hnp ⟨i, hi⟩
    rcases borrowedSpan_eq_ok hparent hm hb ha.meaningful with hs | ⟨hbelow, -⟩
    · rw [hs]
      exact Span.overlaps_self (hp.ordered p hnp hext hm)
    · exact absurd (hp.own hbelow v hnv ha.notExternal) hraw

theorem spares_of_placed : w.Spares N where
  child p v t hv ha := by
    apply isAway_eq_false
    intro hm
    have hsv : w.rawSpan v = t.span := pure_eq_ok.1 ((if_pos hm).symm.trans ha.span)
    rw [← hsv]
    exact Span.overlaps_self (hp.ordered v hv ha.notExternal hm)
  parent p v t hnp ha hext := by
    apply isAway_eq_false
    intro hm
    exact overlaps_of_placed hc hp hnp ha hext hm

end View

open Op Snapshot

/-- The locator that any snapshot gives for a node leads to that node in every snapshot with the same
settings, whatever spans external nodes have. -/
theorem Host.Placed.resolveSteps_locate [DecidableEq ν] {host : Host ν} {root : ν} {N : ν → Prop}
    {config : Config} (hp : host.Placed config N) (hc : host.Coherent root N) (hm : host.Measured N)
    {s t : Snapshot ν} (hs : s.History host root) (ht : t.History host root) (hsc : s.config = config)
    (htc : t.config = config) {n : Node ν} (hk : s.Knows n) (hv : N n.host) {l : Locator}
    (hl : ((locate n).exec host s).1 = .ok (some l)) :
    ∃ m, ((resolveSteps l.steps).exec host t).1 = .ok (some m) ∧
      ((resolveSteps l.steps).exec host t).2.find? n.host = some m := by
  let B := View.itself (w := ⟨host, config, root⟩) hc
  have hs' : s.Of B.copy B.Kept := Rebuild.of_history hs hsc
  have ht' : t.Of B.copy B.Kept := Rebuild.of_history ht htc
  have hstands : B.Stands s n n.host := ⟨⟨hk, rfl⟩, hv⟩
  have hlocate : B.view.locate n.host = .ok (some l) :=
    ((Rebuild.fits_locate hstands).agree hs').eq.symm.trans hl
  have hspares : B.view.Spares N := View.spares_of_placed (w := B.view) hc hp
  have hclear := View.leadsBack_of_spares (w := B.view) hc hspares hm n.host hv l hlocate
  have hfits : B.Fits t (resolveSteps l.steps) _ _ := Rebuild.fits_resolveSteps l.steps
  obtain ⟨_, hrun, hrel⟩ := (hfits.agree ht').exists_ok hclear.followAll
  cases hrel with
  | some hm => exact ⟨_, hrun, (hfits.after ht').arena.find?_eq_some_iff.2 hm.1⟩

/-! ## A header from another file -/

inductive Piece where
  | file
  | body
  | header
  | entry
  | expr
  deriving DecidableEq

namespace Piece

/-- The body, which may have no span, starts with a header that is far away. -/
def source (own : Option Span) : Host Piece where
  size := 5
  childCount v := .ok (match v with
    | file | header => 1
    | body => 2
    | entry | expr => 0)
  child v i := .ok (match v, i with
    | file, _ => body
    | body, 0 => header
    | header, _ => entry
    | _, _ => expr)
  parent v := .ok (match v with
    | file => none
    | body => some file
    | header | expr => some body
    | entry => some header)
  typeName v := if v = file then "File" else if v = body then "Body" else "Expr"
  packedSpan v := match v with
    | file => some ⟨1, 9⟩
    | body => own
    | header => some ⟨500, 600⟩
    | entry => some ⟨3, 4⟩
    | expr => some ⟨5, 8⟩
  external v := v == header
  bounded := ⟨[file, body, header, entry, expr], by simp, fun v _ => by cases v <;> simp⟩

theorem lists_source {own : Option Span} {p c : Piece} {i : Nat} (h : (source own).Lists p i c) :
    (p, i, c) ∈ [(file, 0, body), (body, 0, header), (body, 1, expr), (header, 0, entry)] := by
  obtain ⟨count, hcount, hi, hc⟩ := h
  cases p with
  | file | header =>
    obtain rfl : 1 = count := Except.ok.inj hcount
    obtain rfl : i = 0 := by omega
    cases hc
    simp
  | body =>
    obtain rfl : 2 = count := Except.ok.inj hcount
    obtain rfl | rfl : i = 0 ∨ i = 1 := by omega
    · cases hc
      simp
    · cases hc
      simp
  | entry | expr =>
    obtain rfl : 0 = count := Except.ok.inj hcount
    omega

theorem not_enters {own : Option Span} {v u : Piece} {o : Origin Piece} :
    ¬ (source own).Enters v u (some o) := by
  intro h
  cases h with
  | call _ ho => cases ho
  | proxy _ _ _ _ ho => cases ho

theorem coherent_source (own : Option Span) : (source own).Coherent file fun _ => True where
  closed := ⟨by simp, by simp, by simp, by simp⟩
  isNode_root := trivial
  childCount _ _ := ⟨_, rfl⟩
  child _ _ _ _ _ _ := ⟨_, rfl⟩
  parent _ _ := ⟨_, rfl⟩
  rooted v _ := by
    have hbody : ReflTransGen (source own).HasParent body file := .single rfl
    cases v with
    | file => exact .refl
    | body => exact hbody
    | header | expr => exact .head (b := body) rfl hbody
    | entry => exact .head (b := header) rfl (.head (b := body) rfl hbody)
  parent_root := rfl
  parent_child p c _ h := by
    obtain ⟨i, hi⟩ := h
    have hmem := lists_source hi
    simp only [List.mem_cons, Prod.mk.injEq, List.not_mem_nil, or_false] at hmem
    rcases hmem with ⟨rfl, -, rfl⟩ | ⟨rfl, -, rfl⟩ | ⟨rfl, -, rfl⟩ | ⟨rfl, -, rfl⟩ <;> rfl
  once p i j c _ hi hj := by
    have hmem := lists_source hi
    have hmem' := lists_source hj
    simp only [List.mem_cons, Prod.mk.injEq, List.not_mem_nil, or_false] at hmem hmem'
    grind
  honoured _ _ _ _ h := absurd h not_enters
  arguments v _ := ⟨v, fun _ ⟨_, _, _, _, ho, _⟩ => absurd ho not_enters⟩

theorem measured_source (own : Option Span) : (source own).Measured fun _ => True where
  wide v count _ h := by
    cases v <;> cases h <;> decide
  deep := by
    refine ⟨fun | file => 0 | body => 1 | header | expr => 2 | entry => 3, fun v _ => ⟨?_, ?_⟩⟩
    · cases v <;> decide
    · intro p hp
      cases v <;> cases hp <;> decide

theorem placed_source {config : Config} (h : config.positions = .packed) :
    (source (some ⟨2, 8⟩)).Placed config fun _ => True where
  own _ v _ _ := by
    rw [h]
    cases v <;> decide
  ordered v _ _ _ := by
    rw [h]
    cases v <;> decide
  inside a d _ had ha hd _ _ := by
    rw [h]
    revert ha hd
    obtain ⟨x, ⟨i, hi⟩, -⟩ := TransGen.head'_iff.1 had
    obtain ⟨y, -, ⟨j, hj⟩⟩ := TransGen.tail'_iff.1 had
    have hmem := lists_source hi
    have hmem' := lists_source hj
    simp only [List.mem_cons, Prod.mk.injEq, List.not_mem_nil, or_false] at hmem hmem'
    rcases hmem with ⟨rfl, -⟩ | ⟨rfl, -⟩ | ⟨rfl, -⟩ | ⟨rfl, -⟩ <;>
      rcases hmem' with ⟨-, -, rfl⟩ | ⟨-, -, rfl⟩ | ⟨-, -, rfl⟩ | ⟨-, -, rfl⟩ <;>
      decide

def fromBelow : Config := { recovery := .child }

def entryFingerprint : Fingerprint := { type := "Expr", span := ⟨3, 4⟩, depth := 3 }

def entryLocator : Locator := ⟨entryFingerprint, [.nearest entryFingerprint]⟩

def entryAsked : Snapshot Piece :=
  ((Request.node entry).op.exec (source (some ⟨2, 8⟩)) (ofRoot fromBelow (source (some ⟨2, 8⟩)) file)).2

/-- The entry lies below the header, which the search goes through. -/
theorem resolveSteps_locate_entry :
    ((locate ⟨1, entry⟩).exec (source (some ⟨2, 8⟩)) entryAsked).1 = .ok (some entryLocator) ∧
      ∃ m, ((resolveSteps entryLocator.steps).exec (source (some ⟨2, 8⟩))
        (ofRoot fromBelow (source (some ⟨2, 8⟩)) file)).1 = .ok (some m) ∧ m.host = entry := by
  have hs : entryAsked.History (source (some ⟨2, 8⟩)) file :=
    (History.fresh fromBelow).request (.node entry)
  have hl : ((locate ⟨1, entry⟩).exec (source (some ⟨2, 8⟩)) entryAsked).1 = .ok (some entryLocator) := by
    decide +kernel
  have hconfig : entryAsked.config = fromBelow := by cbv
  have hhandle : entryAsked.handle? 1 = some entry := by cbv
  have hknows : entryAsked.Knows ⟨1, entry⟩ := hhandle
  obtain ⟨m, hrun, hfound⟩ := Host.Placed.resolveSteps_locate (placed_source rfl) (coherent_source _)
    (measured_source _) hs (History.fresh fromBelow) hconfig rfl hknows trivial hl
  exact ⟨hl, m, hrun, host_of_find? hfound⟩

/-- A body without a span that takes it from the header is not found again: the file is passed over. -/
example : ((do
    match ← locate (← intern body) with
    | some l => return (← resolveSteps l.steps).isSome
    | none => return true : Op Piece Bool).exec (source none) (ofRoot fromBelow (source none) file)).1 =
      .ok false := by
  decide +kernel

end Piece

end Waymark
