import Waymark.Proofs.Tree.Layout
import Waymark.Proofs.Tree.Scanning

/-!
# The tree grows while it is read

A scan hangs a node in the tree before it reads the body of the node, and puts label and flags on it there. The
arguments of calls wait until the end, since a label may come later than its use. The declaration that the readers
get is planted in one go. Both give the same tree, and every node and every call that the scan turns to is there by
then.
-/

namespace Waymark

open Sapling

/-! ## A tree that grows -/

namespace Scan

variable {text : List Char} {c : Cursor} {s s' : Scan} {g : Sapling}

/-- The tree that has grown so far is that of the sapling, and each derivation has its arguments waiting. -/
structure Bears (s : Scan) (g : Sapling) : Prop where
  tree : s.tree = some g.tree
  pending : s.pending = g.pending.mapIdx fun i args => (i, args)
  size : g.pending.size = g.tree.derived.size

theorem Bears.of_sameTree (h : s.Bears g) (hs : s.SameTree s') : s'.Bears g :=
  ⟨hs.tree.trans h.tree, hs.pending.trans h.pending, h.size⟩

theorem AtCursor.grow (h : s.AtCursor text c) (t : Option Tree) (pending : Array (Nat × List Term)) :
    AtCursor text c { s with tree := t, pending } :=
  ⟨h.pos, h.place, h.sound.offsets, h.sound.strides⟩

end Scan

namespace Scanner

open Scan Input

variable {α : Type} {text : List Char} {c : Cursor} {s s' : Scan} {g : Sapling} {t : Tree} {n : Nat}

namespace Attach

def number (g : Sapling) : Attach → Nat
  | root => 0
  | child _ | derived _ false _ _ => g.tree.size
  | derived _ true _ _ => g.tree.size + 1

def placed (head : TreeHead) (g : Sapling) : Attach → Sapling
  | root => { tree := .ofRoot head }
  | child owner => { g with tree := g.tree.addChild owner head }
  | derived owner false name args =>
    { tree := g.tree.addDerived owner name [] head, pending := g.pending.push args }
  | derived owner true name args =>
    { tree := g.tree.addProxied owner name [] head, pending := g.pending.push args }

def planted (g : Sapling) (a : Attach) : Declaration → Sapling
  | .node head body => plantBody (a.number g) body (a.placed head g)

def HasPlace (s : Scan) (g : Sapling) : Attach → Prop
  | root => s.tree = none ∧ s.pending = #[]
  | child owner => s.Bears g ∧ owner < g.tree.size
  | derived _ _ _ _ => s.Bears g

variable {a : Attach}

theorem HasPlace.of_sameTree (h : a.HasPlace s g) (hs : s.SameTree s') : a.HasPlace s' g := by
  cases a with
  | root => exact ⟨hs.tree.trans h.1, hs.pending.trans h.2⟩
  | child owner => exact ⟨h.1.of_sameTree hs, h.2⟩
  | derived owner proxied name args => exact Bears.of_sameTree h hs

theorem number_lt (a : Attach) (head : TreeHead) (g : Sapling) : a.number g < (a.placed head g).tree.size := by
  cases a with
  | root => simp [number, placed, Tree.ofRoot, Tree.size]
  | child owner => simp [number, placed, Tree.addChild, Tree.update, Tree.push, Tree.size]
  | derived owner proxied name args =>
    cases proxied <;> simp [number, placed, Tree.addProxied, Tree.addDerived, Tree.update, Tree.push, Tree.size]

/-- What is said about the node may be said later. -/
theorem update_placed (h : a.HasPlace s g) (head : TreeHead) (f : TreeHead → TreeHead) :
    (a.placed head g).tree.update (a.number g) (fun n => { n with toTreeHead := f n.toTreeHead }) =
      (a.placed (f head) g).tree := by
  cases a with
  | root => rfl
  | child owner =>
    have hlt : owner < g.tree.nodes.size := h.2
    simp only [number, placed, Tree.addChild, Tree.update, Tree.push, Tree.size, modify_push hlt]
    rw [modify_push_size (by simp)]
  | derived owner proxied name args =>
    cases proxied with
    | false => simp only [number, placed, Tree.addDerived, Tree.update, Tree.push, Tree.size, modify_push_size]
    | true =>
      have hsize : ∀ x : TreeNode, g.tree.nodes.size + 1 = (g.tree.nodes.push x).size := fun x => by simp
      simp only [number, placed, Tree.addProxied, Tree.addDerived, Tree.update, Tree.push, Tree.size,
        modify_push_size (hsize _)]

end Attach

/-! ## Heads -/

theorem outcome_touch_bind {β : Type} {f : TreeNode → TreeNode} (h : n < t.size) (q : Tree → Scanner β) :
    (touch t n f >>= q).outcome s = (q (t.update n f)).outcome s := by
  rw [touch, if_pos h]
  rfl

theorem outcome_grown_bind {β : Type} (h : s.tree = some t) (q : Tree → Scanner β) :
    (grown >>= q).outcome s = (q t).outcome s := by
  refine outcome_bind_ok ?_ q
  show (ofOption s.tree).outcome s = _
  rw [h]
  rfl

theorem bears_await {args : List Term} (h : s.Bears g) (hsize : t.derived.size = g.tree.derived.size + 1) :
    Bears { s with tree := some t, pending := s.pending.push (t.derived.size - 1, args) }
      { tree := t, pending := g.pending.push args } where
  tree := rfl
  pending := by simp [h.pending, hsize, h.size]
  size := by simp [h.size, hsize]

theorem outcome_attach {a : Attach} (head : TreeHead) (h : a.HasPlace s g) (hs : s.AtCursor text c) :
    ∃ s', (attach head a).outcome s = some (.ok (a.number g), s') ∧ s'.AtCursor text c ∧
      s'.Bears (a.placed head g) := by
  cases a with
  | root =>
    refine ⟨{ s with tree := some (.ofRoot head), pending := #[] }, ?_, hs.grow .., rfl, rfl, rfl⟩
    obtain ⟨pos, trail, strides, tree, pending⟩ := s
    obtain ⟨rfl, rfl⟩ := h
    rfl
  | child owner =>
    obtain ⟨hb, hlt⟩ := h
    have hlt' : owner < (g.tree.push head owner).size := by
      simp only [Tree.push, Tree.size, Array.size_push]
      exact Nat.lt_succ_of_lt hlt
    refine ⟨{ s with tree := some (g.tree.addChild owner head) }, ?_, hs.grow .., rfl, hb.pending, hb.size⟩
    rw [attach, outcome_grown_bind hb.tree, outcome_touch_bind hlt']
    rfl
  | derived owner proxied name args =>
    cases proxied with
    | false =>
      have hsize : (g.tree.addDerived owner name [] head).derived.size = g.tree.derived.size + 1 := by
        simp [Tree.addDerived, Tree.push]
      refine ⟨_, ?_, hs.grow .., bears_await h hsize⟩
      rw [attach, outcome_grown_bind h.tree]
      rfl
    | true =>
      have hsize : (g.tree.addProxied owner name [] head).derived.size = g.tree.derived.size + 1 := by
        simp [Tree.addProxied, Tree.addDerived, Tree.update, Tree.push]
      have hlt : g.tree.size + 1 < ((g.tree.push Tree.proxy owner).addDerived owner name [] head).size := by
        simp [Tree.addDerived, Tree.push, Tree.size]
      refine ⟨_, ?_, hs.grow .., bears_await h hsize⟩
      rw [attach, outcome_grown_bind h.tree]
      dsimp only
      rw [outcome_touch_bind hlt]
      rfl

theorem outcome_touch_placed {a : Attach} (h : a.HasPlace s' g) (head : TreeHead) (f : TreeHead → TreeHead) :
    (touch (a.placed head g).tree (a.number g) fun n => { n with toTreeHead := f n.toTreeHead }).outcome s =
      some (.ok (a.placed (f head) g).tree, s) := by
  rw [touch, if_pos (a.number_lt head g), Attach.update_placed h]
  rfl

theorem outcome_entitle {a : Attach} (h : a.HasPlace s' g) (type : String) (span : Option Span)
    (label : Option String) :
    (entitle (a.number g) (a.placed { type, span } g).tree label).outcome s =
      some (.ok (a.placed { type, label, span } g).tree, s) := by
  cases label with
  | none => rfl
  | some l => exact outcome_touch_placed h { type, span } fun head => { head with label := some l }

theorem outcome_mark {a : Attach} (h : a.HasPlace s' g) (head : TreeHead) (flag : String) :
    (∃ head', TreeReader.withFlag head flag = .ok head' ∧ head'.type = head.type ∧
      (mark (a.number g) (a.placed head g).tree flag).outcome s = some (.ok (a.placed head' g).tree, s)) ∨
    TreeReader.withFlag head flag = .error (.unknownFlag flag) ∧
      (mark (a.number g) (a.placed head g).tree flag).outcome s = some (.error (.fault (.unknownFlag flag)), s) := by
  unfold TreeReader.withFlag
  split
  · exact .inl ⟨_, rfl, rfl, outcome_touch_placed h head fun head => { head with external := true }⟩
  · exact .inl ⟨_, rfl, rfl, outcome_touch_placed h head fun head => { head with visible := some false }⟩
  · exact .inl ⟨_, rfl, rfl, outcome_touch_placed h head fun head => { head with visible := some true }⟩
  · refine .inr ⟨rfl, ?_⟩
    unfold mark
    split
    · contradiction
    · contradiction
    · contradiction
    · rfl

theorem outcome_marks {a : Attach} (h : a.HasPlace s' g) : ∀ (flags : List String) (head : TreeHead),
    (∃ head', flags.foldlM TreeReader.withFlag head = .ok head' ∧ head'.type = head.type ∧
      (flags.foldlM (mark (a.number g)) (a.placed head g).tree).outcome s = some (.ok (a.placed head' g).tree, s)) ∨
    ∃ flag, flags.foldlM TreeReader.withFlag head = .error (.unknownFlag flag) ∧
      (flags.foldlM (mark (a.number g)) (a.placed head g).tree).outcome s =
        some (.error (.fault (.unknownFlag flag)), s)
  | [], head => .inl ⟨head, rfl, rfl, rfl⟩
  | flag :: flags, head => by
    rw [List.foldlM_cons, List.foldlM_cons]
    rcases outcome_mark h head flag with ⟨head₁, hflag, htype, hmark⟩ | ⟨hflag, hmark⟩
    · rw [hflag, outcome_bind_ok hmark]
      rcases outcome_marks h flags head₁ with ⟨head', hflags, htype', hmarks⟩ | ⟨flag', hflags, hmarks⟩
      · exact .inl ⟨head', hflags, htype'.trans htype, hmarks⟩
      · exact .inr ⟨flag', hflags, hmarks⟩
    · rw [hflag, outcome_bind_error hmark]
      exact .inr ⟨flag, rfl, rfl⟩

theorem bears_placed {a : Attach} {head : TreeHead} (h : s.Bears (a.placed head g)) (head' : TreeHead) :
    Bears { s with tree := some (a.placed head' g).tree } (a.placed head' g) := by
  cases a with
  | root | child owner => exact ⟨rfl, h.pending, h.size⟩
  | derived owner proxied name args =>
    cases proxied with
    | false | true => exact ⟨rfl, h.pending, h.size⟩

theorem head_tracks (fuel : Nat) {a : Attach} (h : a.HasPlace s g) (hs : s.AtCursor text c) :
    Tracks text (fun head x s' => x = (a.number g, head.type) ∧ s'.Bears (a.placed head g))
      ((Input.head text a).outcome s) (TreeReader.head fuel c) := by
  obtain ⟨s₁, hskip, hs₁, hsame₁⟩ := outcome_skipBlanks hs
  rw [Input.head, outcome_bind_ok hskip]
  refine (word_follows _ s₁ hs₁).bind ?_
  rintro _ c₂ type s₂ - hs₂ ⟨rfl, hsame₂⟩
  refine (marks_follows fuel {} c₂ s₂ hs₂).bind ?_
  rintro _ c₃ m s₃ - hs₃ ⟨rfl, hsame₃⟩
  have hplace := h.of_sameTree ((hsame₁.trans hsame₂).trans hsame₃)
  obtain ⟨s₄, hattach, hs₄, hbears⟩ := outcome_attach { type, span := m.span } hplace hs₃
  rw [outcome_bind_ok hattach]
  rcases outcome_marks (s := s₄) hplace m.flags { type, label := m.label, span := m.span } with
    ⟨head, hflags, htype, hmarks⟩ | ⟨flag, hflags, hmarks⟩
  · have hdecorate : (decorate (a.number g) m.label m.flags).outcome s₄ =
        some (.ok (), { s₄ with tree := some (a.placed head g).tree }) := by
      rw [decorate, outcome_grown_bind hbears.tree, outcome_bind_ok (outcome_entitle hplace type m.span m.label),
        outcome_bind_ok hmarks]
      rfl
    dsimp only
    rw [outcome_bind_ok hdecorate, hflags]
    exact tracks_pure (hs₄.grow ..) ⟨by rw [htype], bears_placed hbears head⟩
  · have hdecorate : (decorate (a.number g) m.label m.flags).outcome s₄ =
        some (.error (.fault (.unknownFlag flag)), s₄) := by
      rw [decorate, outcome_grown_bind hbears.tree, outcome_bind_ok (outcome_entitle hplace type m.span m.label),
        outcome_bind_error hmarks]
    dsimp only
    rw [outcome_bind_error hdecorate, hflags]
    exact tracks_fault hs₄.sound trivial

/-! ## Nodes -/

end Scanner

/-- The reader of bodies at a character that does not close them. -/
theorem TreeReader.body_plain {c : Cursor} {fuel o : Nat} {type : String} {x : Char} {r : List Char}
    (hskip : c.skipBlanks = ⟨o, x :: r⟩) (hx : x ≠ '}') : TreeReader.body (fuel + 1) type c =
      if x == '.' || x == '~' then (do
        let ((name, args), c) ← TreeReader.call fuel ⟨o + 1, r⟩
        let (d, c) ← TreeReader.declaration fuel c
        let (es, c) ← TreeReader.body fuel type c
        return (.derived (x == '~') name args d :: es, c))
      else (do
        let (d, c) ← TreeReader.declaration fuel ⟨o, x :: r⟩
        let (es, c) ← TreeReader.body fuel type c
        return (.child d :: es, c)) := by
  rw [TreeReader.body, hskip]
  split
  · rename_i h
    cases h
  · rename_i h
    cases h
    exact absurd rfl hx
  · rename_i h
    cases h
    rfl

namespace Scanner

open Scan Input

variable {α : Type} {text : List Char} {c : Cursor} {s s' : Scan} {g : Sapling} {t : Tree} {n : Nat}

theorem size_le_plantEntry {owner : Nat} (e : Entry) (h : owner < g.tree.size) :
    g.tree.size ≤ (plantEntry owner e g).tree.size := by
  rw [plantEntry_eq e h, size_extend]
  exact Nat.le_add_right ..

theorem planted_child (owner : Nat) (d : Declaration) :
    (Attach.child owner).planted g d = plantEntry owner (.child d) g := by
  cases d
  rfl

theorem planted_derived (owner : Nat) (proxied : Bool) (name : String) (args : List Term) (d : Declaration) :
    (Attach.derived owner proxied name args).planted g d = plantEntry owner (.derived proxied name args d) g := by
  cases d
  cases proxied <;> rfl

mutual

theorem node_tracks : ∀ (fuel : Nat) {a : Attach} {c : Cursor} {s : Scan} {g : Sapling}, a.HasPlace s g →
    s.AtCursor text c →
    Tracks text (fun d _ s' => s'.Bears (a.planted g d)) ((node text a).outcome s) (TreeReader.declaration fuel c)
  | 0, _, _, _, _, _, _ => .inl rfl
  | fuel + 1, a, c, s, g, h, hs => by
    rw [node, outcome_here_bind, TreeReader.declaration]
    refine (head_tracks fuel h hs).bind ?_
    rintro head c₁ _ s₁ hhead hs₁ ⟨rfl, hb₁⟩
    obtain ⟨s₂, hskip, hs₂, hsame₂⟩ := outcome_skipBlanks hs₁
    have hlength₁ := (TreeReader.head_proceeds fuel c).length_le hhead
    have hlength₂ := c₁.length_skipBlanks
    dsimp only
    rw [outcome_bind_ok hskip]
    refine tracks_ifEat '{' hs₂ (fun c₃ s₃ heat hs₃ hsame₃ => ?_) fun heat => ?_
    · simp only [heat]
      have hlength₃ := Cursor.length_eat heat
      refine (body_tracks fuel head.type ((hb₁.of_sameTree hsame₂).of_sameTree hsame₃) (a.number_lt head g)
        hs₃).bind ?_
      rintro es c₄ _ s₄ hbody hs₄ hb₄
      have hlength₄ := (TreeReader.body_proceeds fuel head.type c₃).length_le hbody
      have hlt : c₄.rest.length < c.rest.length := by omega
      exact tracks_pure (a := ()) (hs.noted_after hs₄ hlt) (hb₄.of_sameTree (sameTree_noted s₄ _))
    · simp only [heat]
      exact tracks_pure (a := ()) (hs.noted_after hs₂ (by omega))
        ((hb₁.of_sameTree hsame₂).of_sameTree (sameTree_noted s₂ _))

theorem body_tracks : ∀ (fuel : Nat) (type : String) {n : Nat} {c : Cursor} {s : Scan} {g : Sapling}, s.Bears g →
    n < g.tree.size → s.AtCursor text c →
    Tracks text (fun es _ s' => s'.Bears (plantBody n es g)) ((body text n type).outcome s)
      (TreeReader.body fuel type c)
  | 0, _, _, _, _, _, _, _, _ => .inl rfl
  | fuel + 1, type, n, c, s, g, hb, hn, hs => by
    obtain ⟨s₁, hskip, hs₁, hsame₁⟩ := outcome_skipBlanks hs
    have hlength := c.length_skipBlanks
    -- A turn that has read a node goes on with the next one.
    have hnext : ∀ {e : Declaration → Entry} {a : Attach} {c₁ : Cursor} {s₁ : Scan}, c₁.rest.length ≤ c.rest.length →
        s₁.AtCursor text c₁ → a.HasPlace s₁ g → (∀ d, a.planted g d = plantEntry n (e d) g) →
        Tracks text (fun es _ s' => s'.Bears (plantBody n es g)) ((do
          node text a
          note s.pos
          body text n type).outcome s₁) (do
            let (d, c) ← TreeReader.declaration fuel c₁
            let (es, c) ← TreeReader.body fuel type c
            return (e d :: es, c)) := by
      intro e a c₁ s₁ hle hs₁ hplace he
      refine (node_tracks fuel hplace hs₁).bind ?_
      rintro d c₂ _ s₂ hread hs₂ hb₂
      rw [he] at hb₂
      have htaken := (TreeReader.declaration_proceeds fuel c₁).length_le hread
      have hlt : c₂.rest.length < c.rest.length := by omega
      have hn₂ := Nat.lt_of_lt_of_le hn (size_le_plantEntry (e d) hn)
      rw [outcome_note_bind]
      exact (body_tracks fuel type (hb₂.of_sameTree (sameTree_noted s₂ _)) hn₂
        (hs.noted_after hs₂ hlt)).map (e d :: ·)
        fun _ _ _ hb₃ => hb₃
    rw [body, outcome_here_bind, outcome_bind_ok hskip, outcome_peek_bind hs₁]
    rcases hc : c.skipBlanks with ⟨o, _ | ⟨x, r⟩⟩
    · rw [TreeReader.body, hc]
      exact tracks_fault hs₁.sound trivial
    rw [hc] at hs₁ hlength
    have hb₁ := hb.of_sameTree hsame₁
    dsimp only [List.head?]
    by_cases hclose : x = '}'
    · subst hclose
      rw [if_pos rfl, TreeReader.body, hc]
      exact tracks_pure (a := ()) (hs₁.advanced rfl) (hb₁.of_sameTree (sameTree_advanced s₁ 1))
    rw [if_neg hclose, TreeReader.body_plain hc hclose]
    by_cases hx : (x == '.' || x == '~') = true
    · rw [if_pos hx, if_pos hx, outcome_advance_bind]
      have hwidth : 1 = x.utf8Size := by
        rcases Bool.or_eq_true_iff.1 hx with hx | hx <;> rw [beq_iff_eq.1 hx] <;> rfl
      refine (call_follows fuel _ _ (hs₁.advanced hwidth)).bind ?_
      rintro _ c₂ ⟨name, args⟩ s₂ hcall hs₂ ⟨rfl, hsame₂⟩
      have htaken := (TreeReader.call_proceeds fuel ⟨o + 1, r⟩).length_le hcall
      have hle : c₂.rest.length ≤ c.rest.length := by
        simp only [List.length_cons] at hlength htaken
        omega
      exact hnext hle hs₂ ((hb₁.of_sameTree (sameTree_advanced s₁ 1)).of_sameTree hsame₂)
        (planted_derived n _ name args)
    · rw [if_neg hx, if_neg hx]
      exact hnext hlength hs₁ ⟨hb₁, hn⟩ (planted_child n)

end

theorem declaration_tracks (fuel : Nat) (hc : c.In text) :
    Tracks text (fun d _ s => s.Bears (Sapling.ofDeclaration d)) ((node text .root).outcome { pos := c.offset })
      (TreeReader.declaration fuel c) := by
  have htracks := node_tracks fuel (a := .root) (g := ⟨⟨#[], #[], none⟩, #[]⟩) ⟨rfl, rfl⟩ (atCursor_of_in hc)
  have hplanted : ∀ d, Attach.root.planted ⟨⟨#[], #[], none⟩, #[]⟩ d = Sapling.ofDeclaration d := by
    intro d
    cases d
    rfl
  simpa only [hplanted] using htracks

end Scanner

/-! ## Finishing -/

mutual

theorem Term.value_withDerived (t : Tree) (ds : Array Derivation) :
    ∀ a : Term, a.value { t with derived := ds } = a.value t
  | .string _ | .integer _ | .bool _ | .null | .any | .stream _ => by simp only [Term.value]
  | .ref label => by simp only [Term.value, Tree.findLabel?]
  | .collection items => by rw [Term.value, Term.value, Term.values_withDerived t ds items]

/-- Labels are looked up among the nodes alone. -/
theorem Term.values_withDerived (t : Tree) (ds : Array Derivation) :
    ∀ as : List Term, Term.values { t with derived := ds } as = Term.values t as
  | [] => by simp only [Term.values]
  | a :: as => by
    rw [Term.values, Term.values, Term.value_withDerived t ds a, Term.values_withDerived t ds as]

end

namespace Scanner

open Scan Input

variable {s : Scan} {t : Tree}

theorem modify_middle (done ds : List Derivation) (d : Derivation) (f : Derivation → Derivation) :
    (done ++ d :: ds).toArray.modify done.length f = ((done ++ [f d]) ++ ds).toArray := by
  have hmodify : (done ++ d :: ds).modify done.length f = done ++ f d :: ds :=
    List.modifyTailIdx_add (List.modifyHead f) 0 done (d :: ds)
  rw [List.modify_toArray, hmodify, List.append_assoc]
  rfl

/-- The derivations in `done` have their arguments, those in `ds` wait for them. -/
theorem outcome_settle : ∀ (args : List (List Term)) (ds done : List Derivation),
    ds.length = args.length →
    (settle (args.mapIdx fun i args => (done.length + i, args))
      { t with derived := (done ++ ds).toArray }).outcome s = (ofLabels (do
        let ds' ← (ds.zip args).mapM fun x => return { x.1 with args := ← Term.values t x.2 }
        return { t with derived := (done ++ ds').toArray })).outcome s
  | [], ds, done, h => by
    obtain rfl := List.length_eq_zero_iff.1 h
    rfl
  | a :: args, [], done, h => by cases h
  | a :: args, d :: ds, done, h => by
    have hlt : done.length < (done ++ d :: ds).toArray.size := by simp
    rw [List.mapIdx_cons, settle, Term.values_withDerived, List.zip_cons_cons, List.mapM_cons]
    dsimp only
    cases Term.values t a with
    | error label => rfl
    | ok values =>
      have hrest := outcome_settle args ds (done ++ [{ d with args := values }]) (Nat.succ.inj h)
      have hshift : (args.mapIdx fun i args => (done.length + (i + 1), args)) =
          args.mapIdx fun i args => ((done ++ [{ d with args := values }]).length + i, args) := by
        simp only [List.length_append, List.length_singleton, Nat.add_comm, Nat.add_left_comm]
      change (if done.length < (done ++ d :: ds).toArray.size then _ else lapse : Scanner Tree).outcome s = _
      rw [if_pos hlt, Nat.add_zero, modify_middle, hshift, hrest]
      cases (ds.zip args).mapM fun x => return { x.1 with args := ← Term.values t x.2 } with
      | error label => rfl
      | ok ds' =>
        simp only [List.append_assoc, List.singleton_append]
        rfl

/-- Every derivation gets its own arguments. -/
theorem outcome_settle_sapling (g : Sapling) (h : g.pending.size = g.tree.derived.size) :
    (settle (g.pending.mapIdx fun i args => (i, args)).toList g.tree).outcome s = (ofLabels (do
      let ds ← g.derivations
      return { g.tree with derived := ds.toArray })).outcome s := by
  have hsettle := outcome_settle (s := s) (t := g.tree) g.pending.toList g.tree.derived.toList [] h.symm
  simp only [List.length_nil, Nat.zero_add, List.nil_append, Array.toArray_toList] at hsettle
  rw [Array.toList_mapIdx]
  exact hsettle

/-- A scan that has got to the end of the text with a whole tree. -/
theorem outcome_settle_plant {d : Declaration} (h : s.Bears (Sapling.ofDeclaration d)) :
    ((do settle (← get).pending.toList (← grown)) : Scanner Tree).outcome s = (ofLabels d.plant).outcome s := by
  show (grown >>= settle s.pending.toList).outcome s = _
  rw [outcome_grown_bind h.tree, h.pending, outcome_settle_sapling _ h.size]
  rfl

end Scanner

end Waymark
