import Waymark.Proofs.Route.Cuts
import Waymark.Proofs.Shift.Search

/-!
# Locators in a text that is moved

Locating goes the same way in a text and in the text moved by some words. The locators that come out
differ by the move, and where there is none in one of the texts, or a fault, there is the same in the other.
-/

namespace Waymark

open Snapshot

/-! ## Moved locators -/

section
variable (c : UInt32)

def Fingerprint.shift (f : Fingerprint) : Fingerprint := { f with span := f.span.shift c }

mutual

def Step.shift : Step → Step
  | .nearest f => .nearest (f.shift c)
  | .child index => .child index
  | .derived call => .derived call.shift

def Call.shift : Call → Call
  | ⟨name, args⟩ => ⟨name, Arg.shiftList args⟩

def Arg.shift : Arg → Arg
  | .collection items => .collection (Arg.shiftList items)
  | .node (some l) => .node (some l.shift)
  | .node none => .node none
  | .string s => .string s
  | .integer i => .integer i
  | .bool b => .bool b
  | .stream name => .stream name
  | .any => .any

def Arg.shiftList : List Arg → List Arg
  | [] => []
  | a :: as => a.shift :: Arg.shiftList as

def Locator.shift : Locator → Locator
  | ⟨result, steps⟩ => ⟨result.shift c, Step.shiftList steps⟩

def Step.shiftList : List Step → List Step
  | [] => []
  | step :: steps => step.shift :: Step.shiftList steps

end

variable {α : Type}

def Hop.shift : Hop α → Hop α
  | .structural n index findable => .structural n index findable
  | .derived n call => .derived n (call.shift c)

@[simp] theorem Hop.shift_node (h : Hop α) : (h.shift c).node = h.node := by
  cases h <;> rfl

@[simp] theorem Hop.shift_isFindable (h : Hop α) : (h.shift c).isFindable = h.isFindable := by
  cases h <;> rfl

@[simp] theorem Hop.shift_isStructural (h : Hop α) : (h.shift c).isStructural = h.isStructural := by
  cases h <;> rfl

end

namespace Op

variable {ν : Type} [DecidableEq ν] {c : UInt32} {host : Host ν} {s s' : Snapshot ν} {n : Node ν}

/-! ## Arguments of calls -/

def LocatesMoved (c : UInt32) (host : Host ν) (locate : Node ν → Op ν (Option Locator)) : Prop :=
  ∀ (s s' : Snapshot ν) (n : Node ν), Moved c host s s' → n.id < s.size →
    Moves c host s s' (locate n) (locate n) fun _ a b => b = a.map (Locator.shift c)

section
variable {locate : Node ν → Op ν (Option Locator)}

mutual

theorem moves_encodeValue (hl : LocatesMoved c host locate) : ∀ (v : Value ν) {s s' : Snapshot ν},
    Moved c host s s' →
    Moves c host s s' (encodeValue locate v) (encodeValue locate v) fun _ a b => b = a.map (Arg.shift c)
  | .string _, _, _, h | .integer _, _, _, h | .bool _, _, _, h | .stream _, _, _, h | .any, _, _, h
  | .node none, _, _, h => by
    rw [encodeValue]
    exact Moves.pure h rfl
  | .node (some v), s, s', h => by
    rw [encodeValue]
    refine (moves_intern h v).bind fun t t' m m' ht _ hm => ?_
    obtain ⟨rfl, hlt⟩ := hm
    refine (hl t t' m ht hlt).bind fun u u' l l' hu _ hll => ?_
    subst hll
    cases l with
    | none => exact Moves.pure hu rfl
    | some l => exact Moves.pure hu rfl
  | .collection items, s, s', h => by
    rw [encodeValue]
    refine (moves_encodeValues hl items h).bind fun t t' as bs ht _ hab => Moves.pure ht ?_
    subst hab
    cases as <;> rfl

theorem moves_encodeValues (hl : LocatesMoved c host locate) : ∀ (vs : List (Value ν))
    {s s' : Snapshot ν}, Moved c host s s' →
    Moves c host s s' (encodeValues locate vs) (encodeValues locate vs)
      fun _ a b => b = a.map (Arg.shiftList c)
  | [], _, _, h => by
    rw [encodeValues]
    exact Moves.pure h rfl
  | v :: vs, s, s', h => by
    rw [encodeValues]
    refine (moves_encodeValue hl v h).bind fun t t' a b ht _ hab => ?_
    subst hab
    cases a with
    | none => exact Moves.pure ht rfl
    | some a =>
      refine (moves_encodeValues hl vs ht).bind fun u u' as bs hu _ hab => Moves.pure hu ?_
      subst hab
      cases as <;> rfl

end

theorem moves_encodeCall (hl : LocatesMoved c host locate) (h : Moved c host s s') (o : Origin ν) :
    Moves c host s s' (encodeCall locate o) (encodeCall locate o) fun _ a b => b = a.map (Call.shift c) := by
  refine (moves_encodeValues hl o.args h).bind fun t t' as bs ht _ hab => ?_
  subst hab
  cases as with
  | none => exact Moves.note_bind ht fun _ _ hu _ => Moves.pure hu rfl
  | some as => exact Moves.pure ht rfl

end

/-! ## Hops -/

omit [DecidableEq ν] in
theorem steady_originOf (h : Moved c host s s') (p n : Node ν) : Steady c host s s' (originOf p n) :=
  Moves.asked_bind h fun _ _ ht _ => Moves.read_bind (steady_answer ht _)

theorem steady_indexFrom (p n : Node ν) : ∀ (left i : Nat) {s s' : Snapshot ν}, Moved c host s s' →
    Steady c host s s' (indexFrom p n left i)
  | 0, _, _, _, h => Moves.pure h rfl
  | left + 1, i, _, _, h => by
    refine (steady_child h p i).bind fun t t' m ht _ => ?_
    exact Moves.ite .rfl (fun _ => Moves.pure ht rfl) fun _ => steady_indexFrom p n left (i + 1) ht

theorem moves_hasTwin (n : Node ν) (k : NodeKey) {a b : Span} (hab : SpanMoves c a b) :
    ∀ (ms : List (Node ν)) {s s' : Snapshot ν}, Moved c host s s' →
    Moves c host s s' (hasTwin n k a ms) (hasTwin n k b ms) fun _ x y => x = y
  | [], _, _, h => Moves.pure h rfl
  | m :: ms, s, s', h => by
    rw [hasTwin, hasTwin]
    refine Moves.ite .rfl (fun _ => moves_hasTwin n k hab ms h) fun _ => ?_
    refine (steady_key h m).bind fun t t' k' ht _ => ?_
    refine Moves.ite .rfl (fun _ => ?_) fun _ => moves_hasTwin n k hab ms ht
    refine (moves_span ht m).bind fun u u' x y hu _ hxy => ?_
    refine Moves.ite (hxy.1.eq_iff hab) (fun _ => Moves.pure hu rfl) fun _ => ?_
    exact moves_hasTwin n k hab ms hu

def IsPlaced (s : Snapshot ν) (n : Node ν) : Prop := ∃ span, s.Spanned n span ∧ span.isMeaningful = true

omit [DecidableEq ν] in
theorem IsPlaced.later {t : Snapshot ν} (h : IsPlaced s n) (hst : s.Retains t) : IsPlaced t n := by
  obtain ⟨span, hspan, hm⟩ := h
  exact ⟨span, hst.spanned n span hspan, hm⟩

theorem moves_isFindable (h : Moved c host s s') (p : Node ν) (hn : n.id < s.size) :
    Moves c host s s' (isFindable p n) (isFindable p n) fun t a b => a = b ∧ (a = true → IsPlaced t n) := by
  refine (moves_span h n).bind fun t t' a b ht _ hab => ?_
  obtain ⟨hspan, hkept⟩ := hab
  refine Moves.ite (by rw [hspan.isMeaningful]) (fun _ => Moves.pure ht ⟨rfl, nofun⟩) fun hm => ?_
  have hplaced : IsPlaced t n := ⟨a, hkept hn, by simpa using hm⟩
  refine (steady_isExternal ht n).bind fun u u' external hu htu => ?_
  refine Moves.ite .rfl (fun _ => Moves.pure hu ⟨rfl, nofun⟩) fun _ => ?_
  refine (steady_key hu n).bind fun x x' k hx hux => ?_
  refine (steady_children hx p).bind fun y y' ms hy hxy => ?_
  refine (moves_hasTwin n k hspan ms hy).bind fun z z' twin twin' hz hyz htwin => ?_
  subst htwin
  have htz := htu.trans (hux.trans (hxy.trans hyz))
  exact Moves.pure hz ⟨rfl, fun _ => hplaced.later htz⟩

/-- The second hop, if there is one, is the first one moved, and it comes from a node of the snapshot. If it
is findable, its end is known to have a place. -/
structure HopMoves (c : UInt32) (s : Snapshot ν) (a b : Option (Hop (Node ν) × Node ν)) : Prop where
  eq : b = a.map fun x => (x.1.shift c, x.2)
  known : ∀ x ∈ a, x.2.id < s.size
  placed : ∀ x ∈ a, x.1.isFindable = true → IsPlaced s x.1.node

omit [DecidableEq ν] in
theorem hopMoves_none : HopMoves c s none none := ⟨rfl, nofun, nofun⟩

section
variable {locate : Node ν → Op ν (Option Locator)} (hl : LocatesMoved c host locate)
include hl

theorem moves_hopTo (h : Moved c host s s') {p : Node ν} (hp : p.id < s.size) (hn : n.id < s.size) :
    Moves c host s s' (hopTo locate p n) (hopTo locate p n) fun t => HopMoves c t := by
  have derived : ∀ {t t' : Snapshot ν} (o : Origin ν) {q : Node ν}, Moved c host t t' → q.id < t.size →
      Moves c host t t' (do return (← encodeCall locate o).map fun call => (Hop.derived n call, q))
        (do return (← encodeCall locate o).map fun call => (Hop.derived n call, q))
        fun t => HopMoves c t := by
    intro t t' o q ht hq
    refine (moves_encodeCall hl ht o).bind fun u u' a b hu htu hab => Moves.pure hu ?_
    subst hab
    cases a with
    | none => exact hopMoves_none
    | some call =>
      refine ⟨rfl, ?_, ?_⟩
      · rintro _ ⟨⟩
        exact Nat.lt_of_lt_of_le hq htu.size
      · rintro _ ⟨⟩
        exact nofun
  have refused : ∀ {t t' : Snapshot ν} (e : Event), Moved c host t t' →
      Moves c host t t' (do note e; pure none) (do note e; pure none) fun t => HopMoves c t :=
    fun e ht => Moves.note_bind ht fun _ _ hu _ => Moves.pure hu hopMoves_none
  refine (steady_originOf h p n).bind fun t t' o ht hst => ?_
  have hp' := Nat.lt_of_lt_of_le hp hst.size
  cases o with
  | some o => exact derived o ht hp'
  | none =>
    dsimp only
    refine (steady_childCount ht p).bind fun u u' count hu htu => ?_
    refine Moves.ite .rfl (fun _ => ?_) fun _ => ?_
    · refine (moves_parent hu p).bind fun x x' g g' hx _ hg => ?_
      obtain ⟨rfl, hg⟩ := hg
      cases g with
      | none => exact refused _ hx
      | some g =>
        refine (steady_originOf hx g n).bind fun y y' o' hy hxy => ?_
        cases o' with
        | some o' => exact derived o' hy (Nat.lt_of_lt_of_le (hg g rfl) hxy.size)
        | none => exact refused _ hy
    · refine (steady_childCount hu p).bind fun x x' count' hx hux => ?_
      refine (steady_indexFrom p n count' 0 hx).bind fun y y' i hy hxy => ?_
      have hsy := hst.trans (htu.trans (hux.trans hxy))
      cases i with
      | none => exact refused _ hy
      | some i =>
        refine (moves_isFindable hy p (Nat.lt_of_lt_of_le hn hsy.size)).bind fun z z' a b hz hyz hab => ?_
        obtain ⟨rfl, hplaced⟩ := hab
        refine Moves.pure hz ⟨rfl, ?_, ?_⟩
        · rintro _ ⟨⟩
          exact Nat.lt_of_lt_of_le hp (hsy.trans hyz).size
        · rintro _ ⟨⟩
          exact hplaced

def ArePlaced (s : Snapshot ν) (hops : List (Hop (Node ν))) : Prop :=
  ∀ h ∈ hops, h.isFindable = true → IsPlaced s h.node

omit [DecidableEq ν] hl in
theorem ArePlaced.later {t : Snapshot ν} {hops : List (Hop (Node ν))} (h : ArePlaced s hops)
    (hst : s.Retains t) : ArePlaced t hops :=
  fun x hx hf => (h x hx hf).later hst

theorem moves_climb : ∀ (fuel : Nat) {s s' : Snapshot ν} {n : Node ν} (below : List (Hop (Node ν))),
    Moved c host s s' → n.id < s.size → ArePlaced s below →
    Moves c host s s' (climb locate fuel n below) (climb locate fuel n (below.map (Hop.shift c)))
      fun t a b => b = a.map (fun x => (x.1, x.2.map (Hop.shift c))) ∧ ∀ x ∈ a, ArePlaced t x.2
  | 0, _, _, _, _, h, _, _ => Moves.throw h
  | fuel + 1, s, s', n, below, h, hn, hbelow => by
    refine (moves_parent h n).bind fun t t' p q ht hst hpq => ?_
    obtain ⟨rfl, hp⟩ := hpq
    cases p with
    | none =>
      refine Moves.pure ht ⟨rfl, ?_⟩
      rintro _ ⟨⟩
      exact hbelow.later hst
    | some p =>
      refine (moves_hopTo hl ht (hp p rfl) (Nat.lt_of_lt_of_le hn hst.size)).bind fun u u' a b hu htu hab => ?_
      obtain ⟨rfl, hknown, hplaced⟩ := hab
      cases a with
      | none => exact Moves.pure hu ⟨rfl, nofun⟩
      | some x =>
        obtain ⟨hop, up⟩ := x
        refine moves_climb fuel (hop :: below) hu (hknown _ rfl) fun y hy hf => ?_
        rcases List.mem_cons.1 hy with rfl | hy
        · exact hplaced _ rfl hf
        · exact hbelow.later (hst.trans htu) y hy hf

theorem moves_route (h : Moved c host s s') (hn : n.id < s.size) :
    Moves c host s s' (route locate n) (route locate n) fun t a b =>
      b = a.map (List.map (Hop.shift c)) ∧ ∀ hops ∈ a, ArePlaced t hops := by
  refine Moves.reach_bind h fun k => ?_
  refine (moves_climb hl k [] h hn nofun).bind fun t t' a b ht _ hab => ?_
  obtain ⟨rfl, hplaced⟩ := hab
  cases a with
  | none => exact Moves.pure ht ⟨rfl, nofun⟩
  | some x =>
    refine Moves.get_bind (Moves.ite (by rw [ht.root]) (fun _ => ?_) fun _ => ?_)
    · refine Moves.pure ht ⟨rfl, ?_⟩
      rintro _ ⟨⟩
      exact hplaced x rfl
    · exact Moves.typeName_bind (Moves.note_bind ht fun _ _ hu _ => Moves.pure hu ⟨rfl, nofun⟩)

end

/-! ## Shortcuts -/

section
variable {hops : List (Hop (Node ν))}

omit [DecidableEq ν] in
theorem getElem?_shift (k : Nat) : (hops.map (Hop.shift c))[k]? = hops[k]?.map (Hop.shift c) :=
  List.getElem?_map ..

omit [DecidableEq ν] in
theorem moves_startOf (h : Moved c host s s') (k : Nat) :
    Moves c host s s' (startOf hops k) (startOf (hops.map (Hop.shift c)) k) fun _ a b => a = b := by
  cases k with
  | zero => exact Moves.get_bind (Moves.pure h h.root.symm)
  | succ k =>
    refine Moves.get_bind (Moves.pure h ?_)
    rw [getElem?_shift, h.root]
    cases hops[k]? <;> simp

omit [DecidableEq ν] in
theorem moves_afterSearchRoot (tag : TypeTag) : ∀ (hops : List (Hop (Node ν))) (k : Nat)
    {s s' : Snapshot ν}, Moved c host s s' →
    Moves c host s s' (afterSearchRoot tag hops k) (afterSearchRoot tag (hops.map (Hop.shift c)) k)
      fun _ a b => a = b
  | [], _, _, _, h => Moves.pure h rfl
  | x :: xs, k, s, s', h => by
    rw [List.map_cons, afterSearchRoot, afterSearchRoot, Hop.shift_node]
    refine (steady_typeTag h x.node).bind fun t t' tag' ht _ => ?_
    refine Moves.ite .rfl (fun _ => Moves.pure ht rfl) fun _ => ?_
    exact moves_afterSearchRoot tag xs (k + 1) ht

theorem moves_shortcutFrom (anchor : Node ν) (start : Nat) : ∀ (left : Nat) {s s' : Snapshot ν},
    Moved c host s s' → ArePlaced s hops →
    Moves c host s s' (shortcutFrom hops anchor start left)
      (shortcutFrom (hops.map (Hop.shift c)) anchor start left) fun _ a b => a = b
  | 0, _, _, h, _ => Moves.pure h rfl
  | left + 1, s, s', h, hplaced => by
    rw [shortcutFrom, shortcutFrom, getElem?_shift]
    cases hk : hops[start + left + 1]? with
    | none => exact moves_shortcutFrom anchor start left h hplaced
    | some x =>
      simp only [Option.map_some, Hop.shift_isFindable, Hop.shift_node]
      refine Moves.ite .rfl (fun hf => ?_) fun _ => moves_shortcutFrom anchor start left h hplaced
      obtain ⟨span, hspan, hm⟩ := hplaced x (List.mem_of_getElem? hk) hf
      refine (moves_isFoundFrom h hspan hm anchor _).bind fun t t' found ht hst => ?_
      refine Moves.ite .rfl (fun _ => ?_) fun _ => ?_
      · exact Moves.typeName_bind (Moves.note_bind ht fun _ _ hu _ => Moves.pure hu rfl)
      · exact moves_shortcutFrom anchor start left ht (hplaced.later hst)

theorem moves_farthest (anchor : Node ν) (current : Nat) : ∀ (left : Nat) {s s' : Snapshot ν},
    Moved c host s s' → ArePlaced s hops →
    (∀ k h, current < k → k ≤ current + left → hops[k]? = some h → h.isFindable = true) →
    Moves c host s s' (farthest hops anchor current left)
      (farthest (hops.map (Hop.shift c)) anchor current left) fun _ a b => a = b ∧ current < a
  | 0, _, _, h, _, _ | 1, _, _, h, _, _ => Moves.pure h ⟨rfl, Nat.lt_succ_self _⟩
  | left + 2, s, s', h, hplaced, hall => by
    have rest : ∀ {t t'}, Moved c host t t' → s.Retains t → Moves c host t t'
        (farthest hops anchor current (left + 1))
        (farthest (hops.map (Hop.shift c)) anchor current (left + 1)) fun _ a b => a = b ∧ current < a :=
      fun ht hst => moves_farthest anchor current (left + 1) ht (hplaced.later hst)
        fun k x hk hle => hall k x hk (by omega)
    rw [farthest, farthest, getElem?_shift]
    cases hk : hops[current + left + 2]? with
    | none => exact rest h (.refl s)
    | some x =>
      simp only [Option.map_some, Hop.shift_node]
      have hf := hall _ x (by omega) (by omega) hk
      obtain ⟨span, hspan, hm⟩ := hplaced x (List.mem_of_getElem? hk) hf
      refine (moves_isFoundFrom h hspan hm anchor _).bind fun t t' found ht hst => ?_
      exact Moves.ite .rfl (fun _ => Moves.pure ht ⟨rfl, by omega⟩) fun _ => rest ht hst

theorem moves_shortcutsAlong (last : Nat) : ∀ (fuel current : Nat) {s s' : Snapshot ν},
    Moved c host s s' → ArePlaced s hops →
    (∀ k h, current ≤ k → k ≤ last → hops[k]? = some h → h.isFindable = true) →
    Moves c host s s' (shortcutsAlong hops last fuel current)
      (shortcutsAlong (hops.map (Hop.shift c)) last fuel current) fun _ a b => a = b
  | 0, _, _, _, h, _, _ => Moves.pure h rfl
  | fuel + 1, current, s, s', h, hplaced, hall => by
    rw [shortcutsAlong, shortcutsAlong]
    refine Moves.ite .rfl (fun _ => Moves.pure h rfl) fun hlt => ?_
    refine (moves_startOf h (current + 1)).bind fun t t' a b ht hst hab => ?_
    subst hab
    refine (moves_farthest a current (last - current) ht (hplaced.later hst) ?_).bind ?_
    · exact fun k x hk hle => hall k x (by omega) (by omega)
    intro u u' next next' hu htu hnext
    obtain ⟨rfl, hnext⟩ := hnext
    have rest : ∀ {x x'}, Moved c host x x' → u.Retains x → Moves c host x x'
        (shortcutsAlong hops last fuel next) (shortcutsAlong (hops.map (Hop.shift c)) last fuel next)
        fun _ a b => a = b :=
      fun hx hux => moves_shortcutsAlong last fuel next hx (hplaced.later (hst.trans (htu.trans hux)))
        fun k y hk => hall k y (by omega)
    refine Moves.ite .rfl (fun _ => ?_) fun _ => rest hu (.refl u)
    refine Moves.note_bind hu fun x x' hx hux => (rest hx hux).bind fun y y' a b hy _ hab => ?_
    exact Moves.pure hy (by rw [hab])

theorem moves_shortcutsFrom (h : Moved c host s s') (hplaced : ArePlaced s hops) (first stop : Nat) :
    Moves c host s s' (shortcutsFrom hops first stop) (shortcutsFrom (hops.map (Hop.shift c)) first stop)
      fun _ a b => a = b := by
  refine Moves.ite .rfl (fun _ => Moves.pure h rfl) fun _ => ?_
  refine (moves_startOf h first).bind fun t t' a b ht hst hab => ?_
  subst hab
  refine (moves_shortcutFrom a first _ ht (hplaced.later hst)).bind fun u u' top top' hu htu htop => ?_
  subst htop
  dsimp only
  generalize (top.map Shortcut.stop).getD first = kept
  have hflags : (((hops.map (Hop.shift c)).take stop).drop kept).map Hop.isFindable =
      ((hops.take stop).drop kept).map Hop.isFindable := by
    rw [← List.map_take, ← List.map_drop, List.map_map]
    exact List.map_congr_left fun y _ => Hop.shift_isFindable c y
  rw [hflags]
  generalize hlong : (Shortcut.runs _ kept none).filter _ = long
  refine Moves.bind (moves_mapM long hu fun r hr x x' hx hux => ?_) fun y y' as bs hy _ hab => ?_
  · obtain ⟨-, hlen, -, hall⟩ := Shortcut.findable_of_runs hlong hr
    refine moves_shortcutsAlong _ _ _ hx (hplaced.later (hst.trans (htu.trans hux))) fun k w hk hk' hw => ?_
    obtain ⟨w', hw', hf⟩ := hall k hk (by omega)
    obtain rfl : w' = w := Option.some.inj (hw'.symm.trans hw)
    exact hf
  · exact Moves.pure hy (by rw [hab])

theorem moves_shortcutsIn (h : Moved c host s s') (hplaced : ArePlaced s hops) (start stop : Nat) :
    Moves c host s s' (shortcutsIn hops start stop) (shortcutsIn (hops.map (Hop.shift c)) start stop)
      fun _ a b => a = b := by
  rw [shortcutsIn, shortcutsIn]
  refine Moves.get_bind ?_
  rw [h.searchRoot]
  dsimp only
  split
  · rename_i tag _
    have hafter := moves_afterSearchRoot tag (hops.take stop) 0 h
    rw [List.map_take] at hafter
    refine hafter.bind fun t t' first first' ht hst hfirst => ?_
    subst hfirst
    exact moves_shortcutsFrom ht (hplaced.later hst) first stop
  · exact moves_shortcutsFrom h hplaced _ stop

theorem moves_shortcuts (h : Moved c host s s') (hplaced : ArePlaced s hops) :
    Moves c host s s' (shortcuts hops) (shortcuts (hops.map (Hop.shift c))) fun _ a b => a = b := by
  have hflags : (hops.map (Hop.shift c)).map Hop.isStructural = hops.map Hop.isStructural := by
    rw [List.map_map]
    exact List.map_congr_left fun y _ => Hop.shift_isStructural c y
  unfold shortcuts
  rw [hflags]
  refine Moves.bind (moves_mapM _ h fun r _ t t' ht hst => ?_) fun t t' a b ht _ hab => ?_
  · exact moves_shortcutsIn ht (hplaced.later hst) r.1 r.2
  · exact Moves.pure ht (by rw [hab])

end

/-! ## Steps -/

theorem moves_fingerprint (h : Moved c host s s') (n : Node ν) (depth : Nat) :
    Moves c host s s' (fingerprint n depth) (fingerprint n depth) fun _ a b => b = a.shift c := by
  refine (moves_span h n).bind fun t t' a b ht _ hab => Moves.get_bind ?_
  obtain ⟨⟨rfl, -⟩, -⟩ := hab
  rw [ht.config]
  have finish : ∀ {u u'} (label : Option String), Moved c host u u' → Moves c host u u'
      (do return { type := ← typeName n, label, span := a, depth := depth.toUInt32,
                   external := ← isExternal n } : Op ν Fingerprint)
      (do return { type := ← typeName n, label, span := a.shift c, depth := depth.toUInt32,
                   external := ← isExternal n } : Op ν Fingerprint) fun _ f g => g = f.shift c := by
    intro u u' label hu
    exact Moves.typeName_bind ((steady_isExternal hu n).bind fun x x' external hx _ => Moves.pure hx rfl)
  cases t.config.identify with
  | label => exact (steady_label ht n).bind fun u u' label hu _ => finish label hu
  | type => exact finish none ht

theorem moves_stepsFrom (cuts : List Shortcut) : ∀ (hops : List (Hop (Node ν))) (k anchor : Nat)
    {s s' : Snapshot ν}, Moved c host s s' →
    Moves c host s s' (stepsFrom cuts hops k anchor) (stepsFrom cuts (hops.map (Hop.shift c)) k anchor)
      fun _ a b => b = Step.shiftList c a
  | [], _, _, _, _, h => Moves.pure h rfl
  | x :: xs, k, anchor, s, s', h => by
    have rest : ∀ {t t'} (step : Step), Moved c host t t' → Moves c host t t'
        (do return step :: (← stepsFrom cuts xs (k + 1) (k + 1)))
        (do return step.shift c :: (← stepsFrom cuts (xs.map (Hop.shift c)) (k + 1) (k + 1)))
        fun _ a b => b = Step.shiftList c a := by
      intro t t' step ht
      refine (moves_stepsFrom cuts xs (k + 1) (k + 1) ht).bind fun u u' a b hu _ hab => Moves.pure hu ?_
      rw [hab, Step.shiftList]
    rw [List.map_cons, stepsFrom, stepsFrom]
    refine Moves.ite .rfl (fun _ => moves_stepsFrom cuts xs (k + 1) anchor h) fun _ => ?_
    cases x with
    | derived n call => exact rest _ h
    | structural n index findable =>
      cases findable with
      | false => exact rest _ h
      | true =>
        refine (moves_fingerprint h n _).bind fun t t' f f' ht _ hf => ?_
        subst hf
        exact rest (.nearest f) ht

/-! ## Locators -/

theorem moves_locateAlong (h : Moved c host s s') {hops : List (Hop (Node ν))} (hplaced : ArePlaced s hops)
    (n : Node ν) : Moves c host s s' (locateAlong n hops) (locateAlong n (hops.map (Hop.shift c)))
      fun _ a b => b = a.map (Locator.shift c) := by
  rw [locateAlong, locateAlong, List.length_map]
  refine (moves_fingerprint h n _).bind fun t t' f f' ht hst hf => ?_
  subst hf
  refine Moves.bind (R := fun _ a b => b = Step.shiftList c a) ?_ fun u u' steps steps' hu _ hsteps => ?_
  · refine (moves_shortcuts ht (hplaced.later hst)).bind fun u u' cuts cuts' hu _ hcuts => ?_
    subst hcuts
    exact moves_stepsFrom cuts hops 0 0 hu
  · subst hsteps
    exact Moves.note_bind hu fun _ _ hx _ => Moves.pure hx rfl

theorem locatesMoved_locateWith {locate : Node ν → Op ν (Option Locator)} (hl : LocatesMoved c host locate) :
    LocatesMoved c host (locateWith locate) := by
  intro s s' n h hn
  refine (moves_route hl h hn).bind fun t t' a b ht _ hab => ?_
  obtain ⟨rfl, hplaced⟩ := hab
  cases a with
  | none => exact Moves.pure ht rfl
  | some hops => exact moves_locateAlong ht (hplaced hops rfl) n

theorem locatesMoved_locate : LocatesMoved c host locate := by
  have within : ∀ fuel, LocatesMoved c host (locateWithin fuel) := by
    intro fuel
    induction fuel with
    | zero => exact fun s s' n h _ => Moves.throw h
    | succ fuel ih => exact locatesMoved_locateWith ih
  exact fun s s' n h hn => Moves.reach_bind h fun k => within k s s' n h hn

def locatorOf (v : ν) : Op ν (Option Locator) := do locate (← intern v)

end Op

open Op

variable {ν : Type}

theorem Snapshot.moved_ofRoot {host : Host ν} {c : UInt32} {config : Config}
    (h : host.Shiftable c config.positions) (root : ν) :
    Moved c host (ofRoot config host root) (ofRoot config (host.shift c) root) where
  shiftable := h
  config := rfl
  root := rfl
  slots := by
    show #[{ host := root }] = Array.map (Slot.shift c) #[{ host := root }]
    simp [Slot.shift]
  interned := rfl
  types := rfl
  hooks := rfl
  searchRoot := rfl
  hasRoom i slot hi := by
    rw [(getElem?_ofRoot hi).2]
    exact Slot.hasRoom_new
  parents i slot p hi hp := by
    rw [(getElem?_ofRoot hi).2] at hp
    cases hp
  numbers v i hi := by
    obtain ⟨-, rfl⟩ : v = root ∧ i = 0 := by simpa [ofRoot] using hi
    exact Nat.one_pos

/-- If the whole text is moved by `c` words, and nothing in it moves past the last position, then the
locator of a node that a fresh snapshot gives is the one from before with all spans in it moved by `c`
words. There is none, or a fault, if and only if it was so before. -/
theorem Host.Shiftable.locatorOf_shift [DecidableEq ν] {host : Host ν} {c : UInt32} {config : Config}
    (h : host.Shiftable c config.positions) (root v : ν) :
    ((locatorOf v).exec (host.shift c) (ofRoot config (host.shift c) root)).1 =
      ((locatorOf v).exec host (ofRoot config host root)).1.map (Option.map (Locator.shift c)) := by
  have hmoves : Moves c host (ofRoot config host root) (ofRoot config (host.shift c) root) (locatorOf v)
      (locatorOf v) fun _ a b => b = a.map (Locator.shift c) := by
    refine (moves_intern (moved_ofRoot h root) v).bind fun t t' n m ht _ hnm => ?_
    obtain ⟨rfl, hlt⟩ := hnm
    exact locatesMoved_locate t t' n ht hlt
  unfold Moves at hmoves
  generalize (locatorOf v).exec host (ofRoot config host root) = r at hmoves ⊢
  generalize (locatorOf v).exec (host.shift c) (ofRoot config (host.shift c) root) = r' at hmoves ⊢
  cases hmoves with
  | ok _ _ hab =>
    subst hab
    rfl
  | error => rfl

/-! ## A statement beside one of no place, and the result of a call on it -/

inductive Spot where
  | file
  | body
  | blank
  | stmt
  | expr
  | value
  deriving DecidableEq

namespace Spot

def page : Host Spot where
  size := 6
  childCount v := .ok (match v with
    | file | stmt => 1
    | body => 2
    | blank | expr | value => 0)
  child v i := .ok (match v, i with
    | file, _ => body
    | body, 0 => blank
    | body, _ => stmt
    | _, _ => expr)
  parent v := .ok (match v with
    | file => none
    | body => some file
    | blank | stmt => some body
    | expr | value => some stmt)
  typeName v := match v with
    | file => "File"
    | body => "Body"
    | blank | stmt => "Stmt"
    | expr | value => "Expr"
  packedSpan v := match v with
    | file => some ⟨10, 90⟩
    | body => some ⟨20, 80⟩
    | stmt => some ⟨30, 40⟩
    | expr => some ⟨32, 38⟩
    | blank | value => none
  origin p v := .ok (if p = stmt ∧ v = value then some ⟨"value", [.node (some expr)]⟩ else none)
  bounded := ⟨[file, body, blank, stmt, expr, value], by simp, fun v _ => by cases v <;> simp⟩

theorem shiftable_page : page.Shiftable 1000 .packed where
  packed h := by cases h
  hasRoom v span h := by
    unfold Span.HasRoom
    cases v <;> cases h <;> decide

def exprFingerprint : Fingerprint := { type := "Expr", span := ⟨1032, 1038⟩, depth := 3 }

/-- The result of the call, in the moved text. It has no place, so its own span stays. -/
def movedLocator : Locator where
  result := { type := "Expr", span := .none, depth := 3 }
  steps := [.nearest { type := "Stmt", span := ⟨1030, 1040⟩, depth := 2 },
    .derived ⟨"value", [.node (some ⟨exprFingerprint, [.nearest exprFingerprint]⟩)]⟩]

theorem locatorOf_shift_value :
    ((locatorOf value).exec (page.shift 1000) (ofRoot { recovery := .fail } (page.shift 1000) file)).1 =
      .ok (some movedLocator) := by
  rw [Host.Shiftable.locatorOf_shift shiftable_page file value]
  decide +kernel

end Spot

end Waymark
