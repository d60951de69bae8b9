import Waymark.Proofs.Tree.Progress
import Waymark.Proofs.Tree.Reading
import Waymark.Tree.Scanner

/-!
# Scans follow the readers

A scan that stands where a reader stands comes to the same answer and the same place. On its way it stands
between whole characters only, and each call and each turn of a loop that it notes has taken some of them. This is
shown along the turns of the readers, of which there are enough.
-/

namespace Waymark

/-! ## Offsets -/

namespace Text

variable {text before after : List Char} {n : Nat}

@[simp] theorem byteLength_append (s t : List Char) : byteLength (s ++ t) = byteLength s + byteLength t := by
  induction s with
  | nil => simp [byteLength]
  | cons x s ih => simp [byteLength, ih, Nat.add_assoc]

theorem byteLength_pos {s : List Char} (h : s ≠ []) : 0 < byteLength s := by
  cases s with
  | nil => exact absurd rfl h
  | cons x s => exact Nat.add_pos_left x.utf8Size_pos _

theorem from?_eq_some_iff :
    from? n text = some after ↔ ∃ before, before ++ after = text ∧ byteLength before = n := by
  have hzero : ∀ text, from? 0 text = some after ↔ ∃ before, before ++ after = text ∧ byteLength before = 0 := by
    intro text
    have hfrom : from? 0 text = some text := by cases text <;> rfl
    rw [hfrom]
    constructor
    · intro h
      exact ⟨[], (Option.some.inj h).symm, rfl⟩
    · rintro ⟨before, rfl, h⟩
      cases before with
      | nil => rfl
      | cons x s => exact absurd h (Nat.ne_of_gt (byteLength_pos (List.cons_ne_nil x s)))
  induction text generalizing n with
  | nil =>
    cases n with
    | zero => exact hzero []
    | succ n =>
      constructor
      · intro h
        cases h
      · rintro ⟨before, h, hn⟩
        rw [(List.append_eq_nil_iff.1 h).1] at hn
        cases hn
  | cons x s ih =>
    have hx := x.utf8Size_pos
    cases n with
    | zero => exact hzero (x :: s)
    | succ n =>
      simp only [from?]
      split
      · rename_i hle
        refine ih.trans ⟨?_, ?_⟩
        · rintro ⟨before, rfl, h⟩
          exact ⟨x :: before, rfl, by rw [byteLength, h]; omega⟩
        · rintro ⟨before, h, hn⟩
          cases before with
          | nil => cases hn
          | cons y before =>
            cases h
            rw [byteLength] at hn
            exact ⟨before, rfl, by omega⟩
      · rename_i hle
        constructor
        · intro h
          cases h
        · rintro ⟨before, h, hn⟩
          cases before with
          | nil => cases hn
          | cons y before =>
            cases h
            rw [byteLength] at hn
            omega

theorem upTo?_append : ∀ (s t : List Char), upTo? (byteLength s) (s ++ t) = some s
  | [], t => by
    cases t <;> rfl
  | x :: s, t => by
    have hx := x.utf8Size_pos
    obtain ⟨n, hn⟩ : ∃ n, x.utf8Size + byteLength s = n + 1 := ⟨x.utf8Size + byteLength s - 1, by omega⟩
    simp only [byteLength, hn, List.cons_append, upTo?]
    rw [if_pos (by omega), show n + 1 - x.utf8Size = byteLength s by omega, upTo?_append s t]
    rfl

/-- A text can be cut exactly where whole characters end. -/
theorem isOffset_iff : IsOffset text n ↔ (from? n text).isSome = true := by
  rw [Option.isSome_iff_exists]
  constructor
  · rintro ⟨before, ⟨after, rfl⟩, rfl⟩
    exact ⟨after, from?_eq_some_iff.2 ⟨before, rfl, rfl⟩⟩
  · rintro ⟨after, h⟩
    obtain ⟨before, rfl, rfl⟩ := from?_eq_some_iff.1 h
    exact ⟨before, List.prefix_append .., rfl⟩

instance : Decidable (IsOffset text n) := decidable_of_iff _ isOffset_iff.symm

end Text

namespace Cursor

variable {text : List Char} {c c' : Cursor}

def In (text : List Char) (c : Cursor) : Prop := Text.from? c.offset text = some c.rest

theorem In.isOffset (h : c.In text) : Text.IsOffset text c.offset :=
  Text.isOffset_iff.2 (Option.isSome_iff_exists.2 ⟨c.rest, h⟩)

theorem rest_takeWhile (p : Char → Bool) (c : Cursor) : c.rest = (c.takeWhile p).1 ++ (c.takeWhile p).2.rest :=
  List.takeWhile_append_dropWhile.symm

theorem offset_takeWhile (p : Char → Bool) (c : Cursor) :
    (c.takeWhile p).2.offset = c.offset + Text.byteLength (c.takeWhile p).1 := rfl

/-- Two places in a text, of which the second has less after it. -/
theorem In.exists_between (h : c.In text) (h' : c'.In text) (hle : c'.rest.length ≤ c.rest.length) :
    ∃ s, c.rest = s ++ c'.rest ∧ c'.offset = c.offset + Text.byteLength s := by
  obtain ⟨before, rfl, hbefore⟩ := Text.from?_eq_some_iff.1 h
  obtain ⟨before', heq, hbefore'⟩ := Text.from?_eq_some_iff.1 h'
  rcases List.append_eq_append_iff.1 heq with ⟨s, rfl, hrest⟩ | ⟨s, rfl, hrest⟩
  · have hs : s = [] := by
      have hlength := congrArg List.length hrest
      rw [List.length_append] at hlength
      exact List.length_eq_zero_iff.1 (by omega)
    subst hs
    exact ⟨[], by simp [hrest], by simp [← hbefore, ← hbefore', Text.byteLength]⟩
  · exact ⟨s, hrest, by simp [← hbefore, ← hbefore']⟩

theorem In.offset_lt (h : c.In text) (h' : c'.In text) (hlt : c'.rest.length < c.rest.length) :
    c.offset < c'.offset := by
  obtain ⟨s, hrest, hoffset⟩ := h.exists_between h' (Nat.le_of_lt hlt)
  have hs : s ≠ [] := by
    rintro rfl
    rw [hrest] at hlt
    exact Nat.lt_irrefl _ hlt
  have hpos := Text.byteLength_pos hs
  omega

theorem In.offset_lt_iff (h : c.In text) : c.offset < Text.byteLength text ↔ c.rest ≠ [] := by
  obtain ⟨before, rfl, hbefore⟩ := Text.from?_eq_some_iff.1 h
  rw [Text.byteLength_append, ← hbefore]
  constructor
  · intro hlt hrest
    simp [hrest, Text.byteLength] at hlt
  · intro hrest
    exact Nat.lt_add_of_pos_right (Text.byteLength_pos hrest)

theorem In.next {x : Char} {o : Nat} {r : List Char} (h : In text ⟨o, x :: r⟩) : In text ⟨o + x.utf8Size, r⟩ := by
  obtain ⟨before, htext, hbefore⟩ := Text.from?_eq_some_iff.1 h
  refine Text.from?_eq_some_iff.2 ⟨before ++ [x], ?_, ?_⟩
  · rw [← htext, List.append_assoc]
    rfl
  · simp only [Text.byteLength_append, hbefore, Text.byteLength, Nat.add_zero]

end Cursor

/-! ## Scans in a text -/

namespace Scan

variable {text : List Char} {c : Cursor} {s s' s'' : Scan}

/-- Wherever the scan has been, whole characters were before it, and each call and each turn has taken some. -/
structure Sound (text : List Char) (s : Scan) : Prop where
  offsets : ∀ n ∈ s.pos :: s.trail, Text.IsOffset text n
  strides : ∀ m ∈ s.strides, m.1 < m.2

structure AtCursor (text : List Char) (c : Cursor) (s : Scan) : Prop where
  pos : s.pos = c.offset
  place : c.In text
  sound : s.Sound text

/-- A scan may begin at any place. -/
theorem atCursor_of_in (h : c.In text) : AtCursor text c { pos := c.offset } where
  pos := rfl
  place := h
  sound := ⟨fun _ hn => List.mem_singleton.1 hn ▸ h.isOffset, nofun⟩

structure SameTree (s s' : Scan) : Prop where
  tree : s'.tree = s.tree
  pending : s'.pending = s.pending

theorem sameTree_refl (s : Scan) : s.SameTree s := ⟨rfl, rfl⟩

theorem SameTree.trans (h : s.SameTree s') (h' : s'.SameTree s'') : s.SameTree s'' :=
  ⟨h'.tree.trans h.tree, h'.pending.trans h.pending⟩

theorem sameTree_advanced (s : Scan) (n : Nat) : s.SameTree (s.advanced n) := ⟨rfl, rfl⟩

theorem sameTree_noted (s : Scan) (start : Nat) : s.SameTree (s.noted start) := ⟨rfl, rfl⟩

theorem AtCursor.advanced {o n : Nat} {x : Char} {r : List Char} (h : s.AtCursor text ⟨o, x :: r⟩)
    (hn : n = x.utf8Size) : (s.advanced n).AtCursor text ⟨o + n, r⟩ := by
  subst hn
  have hpos : s.pos + x.utf8Size = o + x.utf8Size := congrArg (· + x.utf8Size) h.pos
  have hplace : Cursor.In text ⟨o + x.utf8Size, r⟩ := h.place.next
  refine ⟨hpos, hplace, ?_, h.sound.strides⟩
  intro m hm
  rcases List.mem_cons.1 hm with rfl | hm
  · rw [show (s.advanced x.utf8Size).pos = o + x.utf8Size from hpos]
    exact hplace.isOffset
  · exact h.sound.offsets m hm

theorem AtCursor.noted {start : Nat} (h : s.AtCursor text c) (hlt : start < c.offset) :
    (s.noted start).AtCursor text c where
  pos := h.pos
  place := h.place
  sound := by
    refine ⟨h.sound.offsets, ?_⟩
    intro m hm
    rcases List.mem_cons.1 hm with rfl | hm
    · exact h.pos ▸ hlt
    · exact h.sound.strides m hm

/-- What began at `c` and ended at `c'` may be noted if it has taken characters. -/
theorem AtCursor.noted_after {c' : Cursor} (h : s.AtCursor text c) (h' : s'.AtCursor text c')
    (hlt : c'.rest.length < c.rest.length) : (s'.noted s.pos).AtCursor text c' := by
  apply h'.noted
  rw [h.pos]
  exact h.place.offset_lt h'.place hlt

end Scan

/-- The offset that a fault tells is one in the text, and what it says to be left is what is left there. -/
def TreeFault.PointsInto (text : List Char) : TreeFault → Prop
  | .expectedName offset rest | .expectedChar _ offset rest | .trailing offset rest => Cursor.In text ⟨offset, rest⟩
  | .expectedNumber offset _ | .expectedColon offset | .expectedDash offset | .unterminated offset
  | .expectedStream offset => Text.IsOffset text offset
  | .badPosition _ | .unclosed _ | .unknownFlag _ | .unknownArgument _ | .endOfArguments | .unknownLabel _ => True
  | .exhausted => False

namespace Scanner

open Scan Input

variable {α β γ δ : Type} {text : List Char} {c c' : Cursor} {s s' : Scan}

/-! ## Outcomes -/

theorem outcome_bind_ok {p : Scanner α} {a : α} (h : p.outcome s = some (.ok a, s')) (q : α → Scanner β) :
    (p >>= q).outcome s = (q a).outcome s' := by
  show Option.bind (p.outcome s) (fun x => ExceptT.bindCont q x.1 x.2) = _
  rw [h]
  rfl

theorem outcome_bind_error {p : Scanner α} {e : Stop} (h : p.outcome s = some (.error e, s')) (q : α → Scanner β) :
    (p >>= q).outcome s = some (.error e, s') := by
  show Option.bind (p.outcome s) (fun x => ExceptT.bindCont q x.1 x.2) = _
  rw [h]
  rfl

@[simp] theorem outcome_pure (a : α) : (pure a : Scanner α).outcome s = some (.ok a, s) := rfl

@[simp] theorem outcome_here_bind (q : Nat → Scanner β) : (here >>= q).outcome s = (q s.pos).outcome s := rfl

@[simp] theorem outcome_advance_bind (n : Nat) (q : Unit → Scanner β) :
    (advance n >>= q).outcome s = (q ()).outcome (s.advanced n) := rfl

@[simp] theorem outcome_note_bind (start : Nat) (q : Unit → Scanner β) :
    (note start >>= q).outcome s = (q ()).outcome (s.noted start) := rfl

theorem outcome_rest (h : s.AtCursor text c) : (rest text).outcome s = some (.ok c.rest, s) := by
  have hfrom : Text.from? s.pos text = some c.rest := h.pos ▸ h.place
  simp [rest, hfrom, ofOption]

theorem outcome_rest_bind (h : s.AtCursor text c) (q : List Char → Scanner β) :
    (rest text >>= q).outcome s = (q c.rest).outcome s :=
  outcome_bind_ok (outcome_rest h) q

theorem outcome_peek_bind (h : s.AtCursor text c) (q : Option Char → Scanner β) :
    (peek text >>= q).outcome s = (q c.rest.head?).outcome s :=
  outcome_bind_ok (outcome_rest_bind h _) q

theorem outcome_since_bind {start : Cursor} {taken : List Char} (hstart : start.In text) (h : s.AtCursor text c)
    (hrest : start.rest = taken ++ c.rest) (q : List Char → Scanner β) :
    (since text start.offset >>= q).outcome s = (q taken).outcome s := by
  obtain ⟨t, ht, hoffset⟩ := hstart.exists_between h.place (by simp [hrest])
  obtain rfl : taken = t := List.append_cancel_right (hrest.symm.trans ht)
  have hfrom : Text.from? start.offset text = some start.rest := hstart
  have hslice : Text.slice? start.offset s.pos text = some taken := by
    rw [Text.slice?, h.pos, hoffset, if_pos (Nat.le_add_right ..), hfrom, hrest, Nat.add_sub_cancel_left]
    exact Text.upTo?_append ..
  exact outcome_bind_ok (by simp [since, hslice, ofOption]) q

/-! ## Blanks, words and numbers -/

theorem outcome_passWhile {p : Char → Bool} {width : Char → Nat} (hwidth : ∀ x, p x = true → width x = x.utf8Size) :
    ∀ {c : Cursor} {s : Scan}, s.AtCursor text c →
      ∃ s', (passWhile text p width).outcome s = some (.ok (), s') ∧ s'.AtCursor text (c.takeWhile p).2 ∧
        s.SameTree s' := by
  intro c
  obtain ⟨o, r⟩ := c
  induction r generalizing o with
  | nil =>
    intro s h
    refine ⟨s, ?_, h, sameTree_refl s⟩
    rw [passWhile, outcome_here_bind, outcome_peek_bind h]
    rfl
  | cons x r ih =>
    intro s h
    by_cases hx : p x = true
    · have hlt : s.pos < o + width x := by
        rw [h.pos, hwidth x hx]
        exact Nat.lt_add_of_pos_right x.utf8Size_pos
      have hnext := (h.advanced (hwidth x hx)).noted hlt
      obtain ⟨s', hpass, hs', hsame⟩ := ih (o + width x) hnext
      refine ⟨s', ?_, ?_, ((sameTree_advanced s _).trans (sameTree_noted _ _)).trans hsame⟩
      · rw [passWhile, outcome_here_bind, outcome_peek_bind h]
        simpa [hx] using hpass
      · rw [hwidth x hx] at hs'
        simpa [Cursor.takeWhile, hx, Text.byteLength, Nat.add_assoc] using hs'
    · refine ⟨s, ?_, ?_, sameTree_refl s⟩
      · rw [passWhile, outcome_here_bind, outcome_peek_bind h]
        simp [hx]
      · simpa [Cursor.takeWhile, hx, Text.byteLength] using h

theorem outcome_skipBlanks (h : s.AtCursor text c) : ∃ s', (skipBlanks text).outcome s = some (.ok (), s') ∧
    s'.AtCursor text c.skipBlanks ∧ s.SameTree s' :=
  outcome_passWhile (fun _ _ => rfl) h

theorem outcome_eat (x : Char) (h : s.AtCursor text c) :
    (∃ c' s', c.eat x = some c' ∧ (eat text x).outcome s = some (.ok true, s') ∧ s'.AtCursor text c' ∧
      s.SameTree s') ∨
      c.eat x = none ∧ (eat text x).outcome s = some (.ok false, s) := by
  obtain ⟨o, r⟩ := c
  rw [eat, outcome_peek_bind h]
  cases r with
  | nil => exact .inr ⟨rfl, rfl⟩
  | cons y r =>
    by_cases hy : y = x
    · subst hy
      refine .inl ⟨⟨o + y.utf8Size, r⟩, s.advanced y.utf8Size, ?_, ?_, h.advanced rfl, sameTree_advanced s _⟩
      · simp [Cursor.eat]
      · show Scanner.outcome (if some y = some y then _ else _) s = _
        rw [if_pos rfl]
        rfl
    · refine .inr ⟨?_, ?_⟩
      · simp [Cursor.eat, hy]
      · simp [hy]

/-! ## Following -/

/-- The scan has come to the answer of a reader. `V` says what it has for what the reader got. Nothing is said
about a reader that gave up. -/
def Tracks (text : List Char) (V : β → α → Scan → Prop) (m : Option (Except Stop α × Scan)) :
    Except TreeFault (β × Cursor) → Prop
  | .ok (b, c) => ∃ a s, m = some (.ok a, s) ∧ s.AtCursor text c ∧ V b a s
  | .error f => f = .exhausted ∨ ∃ s, m = some (.error (.fault f), s) ∧ s.Sound text ∧ f.PointsInto text

theorem tracks_pure {V : β → α → Scan → Prop} {a : α} {b : β} (hs : s.AtCursor text c) (hV : V b a s) :
    Tracks text V ((pure a : Scanner α).outcome s) (.ok (b, c)) :=
  ⟨a, s, rfl, hs, hV⟩

theorem tracks_fault {V : β → α → Scan → Prop} {f : TreeFault} (hs : s.Sound text) (hf : f.PointsInto text) :
    Tracks text V ((fault f : Scanner α).outcome s) (.error f) :=
  .inr ⟨s, rfl, hs, hf⟩

theorem Tracks.imp {V W : β → α → Scan → Prop} {m : Option (Except Stop α × Scan)}
    {r : Except TreeFault (β × Cursor)} (h : Tracks text V m r) (hVW : ∀ b a s, V b a s → W b a s) :
    Tracks text W m r := by
  cases r with
  | error f => exact h
  | ok x =>
    obtain ⟨a, s, hm, hs, hV⟩ := h
    exact ⟨a, s, hm, hs, hVW _ _ _ hV⟩

theorem Tracks.map {V : β → α → Scan → Prop} {W : δ → α → Scan → Prop} {m : Option (Except Stop α × Scan)}
    {r : Except TreeFault (β × Cursor)} (h : Tracks text V m r) (f : β → δ) (hVW : ∀ b a s, V b a s → W (f b) a s) :
    Tracks text W m (r >>= fun x => pure (f x.1, x.2)) := by
  cases r with
  | error e => exact h
  | ok x =>
    obtain ⟨a, s, hm, hs, hV⟩ := h
    exact ⟨a, s, hm, hs, hVW _ _ _ hV⟩

theorem Tracks.bind {V : β → α → Scan → Prop} {W : δ → γ → Scan → Prop} {p : Scanner α} {q : α → Scanner γ}
    {r : Except TreeFault (β × Cursor)} {k : β × Cursor → Except TreeFault (δ × Cursor)}
    (h : Tracks text V (p.outcome s) r) (hk : ∀ b c a s', r = .ok (b, c) → s'.AtCursor text c → V b a s' →
      Tracks text W ((q a).outcome s') (k (b, c))) :
    Tracks text W ((p >>= q).outcome s) (r >>= k) := by
  cases r with
  | error f =>
    rcases h with h | ⟨s', hp, hs', hf⟩
    · exact .inl h
    · exact .inr ⟨s', outcome_bind_error hp q, hs', hf⟩
  | ok x =>
    obtain ⟨a, s', hp, hs', hV⟩ := h
    rw [outcome_bind_ok hp q]
    exact hk x.1 x.2 a s' rfl hs' hV

def Follows (text : List Char) (p : Scanner α) (R : TreeReader α) : Prop :=
  ∀ c s, s.AtCursor text c → Tracks text (fun b a s' => a = b ∧ s.SameTree s') (p.outcome s) (R c)

theorem Follows.bind {p : Scanner α} {R : TreeReader α} {q : α → Scanner β}
    {k : α × Cursor → Except TreeFault (β × Cursor)} (hp : Follows text p R) (hs : s.AtCursor text c)
    (hk : ∀ a c' s', R c = .ok (a, c') → s'.AtCursor text c' →
      Tracks text (fun b a s'' => a = b ∧ s'.SameTree s'') ((q a).outcome s') (k (a, c'))) :
    Tracks text (fun b a s' => a = b ∧ s.SameTree s') ((p >>= q).outcome s) (R c >>= k) := by
  refine (hp c s hs).bind ?_
  rintro b c' _ s' hR hs' ⟨rfl, hsame⟩
  refine (hk _ c' s' hR hs').imp ?_
  rintro b a s'' ⟨rfl, hsame'⟩
  exact ⟨rfl, hsame.trans hsame'⟩

theorem tracks_ifEat {V : β → α → Scan → Prop} {p q : Scanner α} {r : Except TreeFault (β × Cursor)} (x : Char)
    (hs : s.AtCursor text c)
    (hyes : ∀ c' s', c.eat x = some c' → s'.AtCursor text c' → s.SameTree s' → Tracks text V (p.outcome s') r)
    (hno : c.eat x = none → Tracks text V (q.outcome s) r) :
    Tracks text V ((do if ← eat text x then p else q).outcome s) r := by
  rcases outcome_eat x hs with ⟨c', s', heat, hout, hs', hsame⟩ | ⟨heat, hout⟩
  · rw [outcome_bind_ok hout, if_pos rfl]
    exact hyes c' s' heat hs' hsame
  · rw [outcome_bind_ok hout, if_neg nofun]
    exact hno heat

theorem expect_follows (x : Char) : Follows text (expect text x) (TreeReader.expect x) := by
  intro c s hs
  obtain ⟨s₁, hskip, hs₁, hsame⟩ := outcome_skipBlanks hs
  rw [expect, outcome_bind_ok hskip]
  refine tracks_ifEat x hs₁ (fun c' s₂ heat hs₂ hsame' => ?_) fun heat => ?_
  · have hread : TreeReader.expect x c = .ok ((), c') := by simp only [TreeReader.expect, heat]
    rw [hread]
    exact tracks_pure hs₂ ⟨rfl, hsame.trans hsame'⟩
  · have hread : TreeReader.expect x c = .error (.expectedChar x c.skipBlanks.offset c.skipBlanks.rest) := by
      simp only [TreeReader.expect, heat]
    rw [outcome_here_bind, outcome_rest_bind hs₁, hs₁.pos, hread]
    exact tracks_fault hs₁.sound hs₁.place

theorem word_follows : Follows text (word text) TreeReader.word := by
  intro c s hs
  obtain ⟨s₁, hpass, hs₁, hsame⟩ := outcome_passWhile (p := TreeReader.isWordChar) (fun _ _ => rfl) hs
  have hrest := c.rest_takeWhile TreeReader.isWordChar
  have hoffset := c.offset_takeWhile TreeReader.isWordChar
  rw [word, outcome_here_bind, outcome_bind_ok hpass, outcome_here_bind, TreeReader.word]
  generalize c.takeWhile TreeReader.isWordChar = taken at *
  obtain ⟨w, c'⟩ := taken
  dsimp only at hs₁ hrest hoffset
  cases w with
  | nil =>
    have hstay : s.pos = s₁.pos := by
      rw [hs.pos, hs₁.pos, hoffset]
      rfl
    rw [if_pos hstay, outcome_rest_bind hs₁, hs.pos, ← show c.rest = c'.rest from hrest]
    exact tracks_fault hs₁.sound hs.place
  | cons x w =>
    have hlt := Text.byteLength_pos (List.cons_ne_nil x w)
    have hne : s.pos ≠ s₁.pos := by
      rw [hs.pos, hs₁.pos, hoffset]
      omega
    rw [if_neg hne, hs.pos, outcome_since_bind hs.place hs₁ hrest]
    exact tracks_pure hs₁ ⟨rfl, hsame⟩

theorem utf8Size_of_isDigit {x : Char} (h : x.isDigit = true) : 1 = x.utf8Size := by
  have hle : x.val ≤ '9'.val := by
    simp only [Char.isDigit, Bool.and_eq_true, decide_eq_true_eq] at h
    exact h.2
  exact (Char.utf8Size_eq_one_iff.2 (UInt32.le_trans hle (by decide))).symm

theorem integerOf_digits {digits : List Char} (h : ∀ x ∈ digits, x.isDigit = true) :
    integerOf digits = TreeReader.integerOf false digits := by
  unfold integerOf
  split
  · exact absurd (h '-' (List.mem_cons_self ..)) (by decide)
  · rfl

theorem outcome_sign (h : s.AtCursor text c) : ∃ s', (sign text).outcome s = some (.ok (), s') ∧ s.SameTree s' ∧
    ((∃ c', c.eat '-' = some c' ∧ c.rest = '-' :: c'.rest ∧ s'.AtCursor text c') ∨ c.eat '-' = none ∧ s' = s) := by
  obtain ⟨o, r⟩ := c
  rw [sign, outcome_peek_bind h]
  cases r with
  | nil => exact ⟨s, rfl, sameTree_refl s, .inr ⟨rfl, rfl⟩⟩
  | cons y r =>
    by_cases hy : y = '-'
    · subst hy
      exact ⟨s.advanced 1, rfl, sameTree_advanced s 1, .inl ⟨⟨o + 1, r⟩, rfl, rfl, h.advanced rfl⟩⟩
    · refine ⟨s, ?_, sameTree_refl s, .inr ⟨?_, rfl⟩⟩
      · simp [hy]
      · simp [Cursor.eat, hy]

/-- The digits from `c₁` on, after a sign that was read from `c` on. -/
theorem outcome_digits (before : List Char) {c₁ : Cursor} (hc : c.In text) (hrest : c.rest = before ++ c₁.rest)
    (h : s.AtCursor text c₁) : ∃ s', s'.AtCursor text (c₁.takeWhile Char.isDigit).2 ∧ s.SameTree s' ∧
      (do passWhile text Char.isDigit fun _ => 1
          ofNumber c.offset (integerOf (← since text c.offset))).outcome s =
        (ofNumber c.offset (integerOf (before ++ (c₁.takeWhile Char.isDigit).1))).outcome s' := by
  obtain ⟨s', hpass, hs', hsame⟩ := outcome_passWhile (p := Char.isDigit) (fun _ => utf8Size_of_isDigit) h
  refine ⟨s', hs', hsame, ?_⟩
  rw [outcome_bind_ok hpass, outcome_since_bind hc hs']
  rw [hrest, List.append_assoc, ← c₁.rest_takeWhile]

theorem number_follows : Follows text (number text) TreeReader.number := by
  intro c s hs
  obtain ⟨s₁, hsign, hsame, ⟨c₁, heat, hrest, hs₁⟩ | ⟨heat, rfl⟩⟩ := outcome_sign hs
  · obtain ⟨s₂, hs₂, hsame', hout⟩ := outcome_digits ['-'] hs.place hrest hs₁
    have hparse : integerOf (['-'] ++ (c₁.takeWhile Char.isDigit).1) =
      TreeReader.integerOf true (c₁.takeWhile Char.isDigit).1 := rfl
    rw [number, outcome_here_bind, outcome_bind_ok hsign, hs.pos, hout, hparse]
    simp only [TreeReader.number, heat]
    cases TreeReader.integerOf true (c₁.takeWhile Char.isDigit).1 with
    | ok i => exact tracks_pure (a := i) hs₂ ⟨rfl, hsame.trans hsame'⟩
    | error cause => exact tracks_fault (f := .expectedNumber c.offset cause) hs₂.sound hs.place.isOffset
  · obtain ⟨s₂, hs₂, hsame', hout⟩ := outcome_digits [] hs.place rfl hs
    have hparse : integerOf ([] ++ (c.takeWhile Char.isDigit).1) =
      TreeReader.integerOf false (c.takeWhile Char.isDigit).1 :=
      integerOf_digits fun x hx => List.mem_takeWhile_imp hx
    rw [number, outcome_here_bind, outcome_bind_ok hsign, hs.pos, hout, hparse]
    simp only [TreeReader.number, heat]
    cases TreeReader.integerOf false (c.takeWhile Char.isDigit).1 with
    | ok i => exact tracks_pure (a := i) hs₂ ⟨rfl, hsame'⟩
    | error cause => exact tracks_fault (f := .expectedNumber c.offset cause) hs₂.sound hs.place.isOffset

/-! ## Heads -/

theorem pointsInto_coordinate {i : Int64} {f : TreeFault} (h : TreeReader.coordinate i = .error f) :
    f.PointsInto text := by
  unfold TreeReader.coordinate at h
  split at h
  · cases h
    trivial
  · split at h
    · cases h
    · cases h
      trivial

theorem position_follows : Follows text (position text) TreeReader.position := by
  intro c s hs
  refine number_follows.bind hs fun line c₁ s₁ _ hs₁ => ?_
  refine tracks_ifEat ':' hs₁ (fun c₂ s₂ heat hs₂ hsame => ?_) fun heat => ?_
  · simp only [heat]
    refine (number_follows c₂ s₂ hs₂).bind ?_
    rintro _ c₃ column s₃ - hs₃ ⟨rfl, hsame'⟩
    dsimp only [coordinate]
    cases hline : TreeReader.coordinate line with
    | error f => exact tracks_fault hs₃.sound (pointsInto_coordinate hline)
    | ok l =>
      cases hcolumn : TreeReader.coordinate column with
      | error f => exact tracks_fault hs₃.sound (pointsInto_coordinate hcolumn)
      | ok k => exact tracks_pure hs₃ ⟨rfl, hsame.trans hsame'⟩
  · simp only [heat]
    rw [outcome_here_bind, hs₁.pos]
    exact tracks_fault hs₁.sound hs₁.place.isOffset

theorem span_follows : Follows text (span text) TreeReader.span := by
  intro c s hs
  refine position_follows.bind hs fun start c₁ s₁ _ hs₁ => ?_
  refine tracks_ifEat '-' hs₁ (fun c₂ s₂ heat hs₂ hsame => ?_) fun heat => ?_
  · simp only [heat]
    refine (position_follows c₂ s₂ hs₂).bind ?_
    rintro _ c₃ stop s₃ - hs₃ ⟨rfl, hsame'⟩
    exact tracks_pure hs₃ ⟨rfl, hsame.trans hsame'⟩
  · simp only [heat]
    rw [outcome_here_bind, hs₁.pos]
    exact tracks_fault hs₁.sound hs₁.place.isOffset

theorem marks_follows : ∀ (fuel : Nat) (m : TreeReader.Marks), Follows text (marks text m) (TreeReader.marks fuel m)
  | 0, _, _, _, _ => .inl rfl
  | fuel + 1, m, c, s, hs => by
    have hturn : ∀ {α : Type} {p : Scanner α} {R : TreeReader α} (add : α → TreeReader.Marks) {x : Char}
        {c₁ : Cursor} {s₁ : Scan}, Follows text p R → (∀ c, TreeReader.Proceeds 1 True c (R c)) →
        c.eat x = some c₁ → s₁.AtCursor text c₁ → s.SameTree s₁ →
        Tracks text (fun b a s' => a = b ∧ s.SameTree s') ((do
          let w ← p
          note s.pos
          marks text (add w)).outcome s₁) (R c₁ >>= fun y => TreeReader.marks fuel (add y.1) y.2) := by
      intro α p R add x c₁ s₁ hp hR heat hs₁ hsame
      refine (hp c₁ s₁ hs₁).bind ?_
      rintro _ c₂ w s₂ hread hs₂ ⟨rfl, hsame'⟩
      have hlength := Cursor.length_eat heat
      have htaken := (hR c₁).length_le hread
      refine (marks_follows fuel (add w) c₂ _ (hs.noted_after hs₂ (by omega))).imp ?_
      rintro _ _ s₃ ⟨rfl, hsame₃⟩
      exact ⟨rfl, (hsame.trans hsame').trans ((sameTree_noted s₂ _).trans hsame₃)⟩
    rw [marks, outcome_here_bind]
    unfold TreeReader.marks
    refine tracks_ifEat '#' hs (fun c₁ s₁ heat hs₁ hsame => ?_) fun hlabel => ?_
    · simp only [heat]
      exact hturn _ word_follows TreeReader.word_proceeds heat hs₁ hsame
    refine tracks_ifEat '@' hs (fun c₁ s₁ heat hs₁ hsame => ?_) fun hspan => ?_
    · simp only [hlabel, heat]
      exact hturn _ span_follows TreeReader.span_proceeds heat hs₁ hsame
    refine tracks_ifEat '!' hs (fun c₁ s₁ heat hs₁ hsame => ?_) fun hflag => ?_
    · simp only [hlabel, hspan, heat]
      exact hturn _ word_follows TreeReader.word_proceeds heat hs₁ hsame
    simp only [hlabel, hspan, hflag]
    exact tracks_pure hs ⟨rfl, sameTree_refl s⟩

/-! ## Arguments -/

theorem wordTerm_follows : Follows text (wordTerm text) TreeReader.wordTerm := by
  intro c s hs
  refine word_follows.bind hs fun w c₁ s₁ _ hs₁ => ?_
  dsimp only
  split
  · exact tracks_pure hs₁ ⟨rfl, sameTree_refl s₁⟩
  · exact tracks_pure hs₁ ⟨rfl, sameTree_refl s₁⟩
  · exact tracks_pure hs₁ ⟨rfl, sameTree_refl s₁⟩
  · exact tracks_pure hs₁ ⟨rfl, sameTree_refl s₁⟩
  · refine tracks_ifEat ':' hs₁ (fun c₂ s₂ heat hs₂ hsame => ?_) fun heat => ?_
    · simp only [heat]
      refine (word_follows c₂ s₂ hs₂).bind ?_
      rintro _ c₃ name s₃ - hs₃ ⟨rfl, hsame'⟩
      exact tracks_pure hs₃ ⟨rfl, hsame.trans hsame'⟩
    · simp only [heat]
      rw [outcome_here_bind, hs₁.pos]
      exact tracks_fault hs₁.sound hs₁.place.isOffset
  · unfold termOf
    split
    · contradiction
    · contradiction
    · contradiction
    · contradiction
    · contradiction
    · exact tracks_fault hs₁.sound trivial

theorem quoted_follows : Follows text (quoted text) TreeReader.quoted := by
  intro c s hs
  obtain ⟨s₁, hpass, hs₁, hsame⟩ := outcome_passWhile (p := (· != '"')) (fun _ _ => rfl) hs
  rw [quoted, outcome_here_bind, outcome_bind_ok hpass, hs.pos,
    outcome_since_bind hs.place hs₁ (c.rest_takeWhile _), TreeReader.quoted]
  refine tracks_ifEat '"' hs₁ (fun c₂ s₂ heat hs₂ hsame' => ?_) fun heat => ?_
  · simp only [heat]
    exact tracks_pure hs₂ ⟨rfl, hsame.trans hsame'⟩
  · simp only [heat]
    exact tracks_fault hs₁.sound hs.place.isOffset

/-- At the first character that is no blank. -/
theorem bareTerm_tracks {fuel : Nat} (hterms : Follows text (terms text ']') (TreeReader.terms fuel ']'))
    (hs : s.AtCursor text c.skipBlanks) :
    Tracks text (fun b a s' => a = b ∧ s.SameTree s') ((bareTerm text).outcome s)
      (TreeReader.term (fuel + 1) c) := by
  rw [bareTerm, outcome_peek_bind hs]
  rcases hc : c.skipBlanks with ⟨o, _ | ⟨x, r⟩⟩
  · rw [TreeReader.term, hc]
    exact tracks_fault hs.sound trivial
  rw [hc] at hs
  dsimp only [List.head?]
  by_cases hquote : x = '"'
  · subst hquote
    rw [if_pos rfl, TreeReader.term, hc]
    exact (quoted_follows _ _ (hs.advanced rfl)).imp fun _ _ s' h => ⟨h.1, (sameTree_advanced s 1).trans h.2⟩
  by_cases hdollar : x = '$'
  · subst hdollar
    rw [if_neg hquote, if_pos rfl, TreeReader.term, hc]
    refine (word_follows _ _ (hs.advanced rfl)).bind ?_
    rintro _ c₁ w s₁ - hs₁ ⟨rfl, hsame⟩
    exact tracks_pure hs₁ ⟨rfl, (sameTree_advanced s 1).trans hsame⟩
  by_cases hopen : x = '['
  · subst hopen
    rw [if_neg hquote, if_neg hdollar, if_pos rfl, TreeReader.term, hc]
    refine (hterms _ _ (hs.advanced rfl)).bind ?_
    rintro _ c₁ items s₁ - hs₁ ⟨rfl, hsame⟩
    exact tracks_pure hs₁ ⟨rfl, (sameTree_advanced s 1).trans hsame⟩
  rw [if_neg hquote, if_neg hdollar, if_neg hopen, TreeReader.term_plain hc ⟨hquote, hdollar, hopen⟩]
  by_cases hx : (x.isDigit || x == '-') = true
  · rw [if_pos hx, if_pos hx]
    refine (number_follows _ _ hs).bind ?_
    rintro _ c₁ i s₁ - hs₁ ⟨rfl, hsame⟩
    exact tracks_pure hs₁ ⟨rfl, hsame⟩
  · rw [if_neg hx, if_neg hx]
    exact wordTerm_follows _ _ hs

mutual

theorem term_follows : ∀ fuel : Nat, Follows text (term text) (TreeReader.term fuel)
  | 0, _, _, _ => .inl rfl
  | fuel + 1, c, s, hs => by
    obtain ⟨s₁, hskip, hs₁, hsame⟩ := outcome_skipBlanks hs
    -- The scan notes the argument once it has it, for which the reader does nothing.
    rw [term, outcome_here_bind, outcome_bind_ok hskip, ← bind_pure (TreeReader.term (fuel + 1) c)]
    refine (bareTerm_tracks (terms_follows fuel ']') hs₁).bind ?_
    rintro _ c₂ t s₂ hread hs₂ ⟨rfl, hsame'⟩
    have htaken := (TreeReader.term_proceeds (fuel + 1) c).length_le hread
    rw [outcome_note_bind]
    exact tracks_pure (hs.noted_after hs₂ htaken) ⟨rfl, (hsame.trans hsame').trans (sameTree_noted s₂ _)⟩

theorem terms_follows : ∀ (fuel : Nat) (close : Char),
    Follows text (terms text close) (TreeReader.terms fuel close)
  | 0, _, _, _, _ => .inl rfl
  | fuel + 1, close, c, s, hs => by
    obtain ⟨s₁, hskip, hs₁, hsame⟩ := outcome_skipBlanks hs
    rw [terms, outcome_here_bind, outcome_bind_ok hskip, TreeReader.terms]
    refine tracks_ifEat close hs₁ (fun c₂ s₂ heat hs₂ hsame' => ?_) fun heat => ?_
    · simp only [heat]
      exact tracks_pure hs₂ ⟨rfl, hsame.trans hsame'⟩
    · simp only [heat]
      refine (term_follows fuel c.skipBlanks s₁ hs₁).bind ?_
      rintro _ c₂ t s₂ hread hs₂ ⟨rfl, hsame₂⟩
      have hlength := c.length_skipBlanks
      have htaken := (TreeReader.term_proceeds fuel c.skipBlanks).length_le hread
      rw [outcome_note_bind]
      refine (terms_follows fuel close c₂ _ (hs.noted_after hs₂ (by omega))).bind ?_
      rintro _ c₃ ts s₃ - hs₃ ⟨rfl, hsame₃⟩
      exact tracks_pure hs₃ ⟨rfl, (hsame.trans hsame₂).trans ((sameTree_noted s₂ _).trans hsame₃)⟩

end

theorem call_follows (fuel : Nat) : Follows text (call text) (TreeReader.call fuel) := by
  intro c s hs
  rw [call, outcome_here_bind]
  refine word_follows.bind hs fun name c₁ s₁ h₁ hs₁ => ?_
  refine (expect_follows '(').bind hs₁ fun _ c₂ s₂ h₂ hs₂ => ?_
  refine (terms_follows fuel ')').bind hs₂ fun args c₃ s₃ h₃ hs₃ => ?_
  refine (expect_follows '=').bind hs₃ fun _ c₄ s₄ h₄ hs₄ => ?_
  have hlength₁ := (TreeReader.word_proceeds c).length_le h₁
  have hlength₂ := (TreeReader.expect_proceeds '(' c₁).length_le h₂
  have hlength₃ := (TreeReader.terms_proceeds fuel ')' c₂).length_le h₃
  have hlength₄ := (TreeReader.expect_proceeds '=' c₃).length_le h₄
  rw [outcome_note_bind]
  exact tracks_pure (hs.noted_after hs₄ (by omega)) ⟨rfl, sameTree_noted s₄ _⟩

end Scanner

end Waymark
