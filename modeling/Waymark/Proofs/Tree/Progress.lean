import Waymark.Tree.Reader

/-!
# Reading a tree takes characters

Whatever a reader gets, it has taken characters for it. So two turns for each character are enough, and the
reader never gives up for lack of them.
-/

namespace Waymark

namespace Cursor

variable {c c' : Cursor}

theorem length_takeWhile (p : Char → Bool) (c : Cursor) :
    (c.takeWhile p).1.length + (c.takeWhile p).2.rest.length = c.rest.length := by
  simp only [takeWhile, ← List.length_append, List.takeWhile_append_dropWhile]

theorem length_skipBlanks (c : Cursor) : c.skipBlanks.rest.length ≤ c.rest.length :=
  (List.dropWhile_sublist _).length_le

theorem length_eat {x : Char} (h : c.eat x = some c') : c'.rest.length + 1 = c.rest.length := by
  unfold eat at h
  split at h
  · rename_i hrest
    split at h
    · cases h
      rw [hrest, List.length_cons]
    · cases h
  · cases h

end Cursor

namespace TreeReader

/-! ## Answers -/

section
variable {α β : Type} {n : Nat} {enough enough' : Prop} {c c' : Cursor} {r : Except TreeFault (α × Cursor)}

/-- An answer at `c` for which `n` characters or more were taken. A reader that had `enough` turns does not
give up. -/
def Proceeds (n : Nat) (enough : Prop) (c : Cursor) : Except TreeFault (α × Cursor) → Prop
  | .ok (_, c') => c'.rest.length + n ≤ c.rest.length
  | .error f => enough → f ≠ .exhausted

theorem Proceeds.imp (h : Proceeds n enough c r) (he : enough' → enough) : Proceeds n enough' c r := by
  cases r with
  | error f => exact fun h' => h (he h')
  | ok x => exact h

theorem Proceeds.length_le {a : α} (h : Proceeds n enough c r) (hr : r = .ok (a, c')) :
    c'.rest.length + n ≤ c.rest.length := by
  subst hr
  exact h

theorem proceeds_after (c' : Cursor) (hc : c'.rest.length ≤ c.rest.length) (h : Proceeds n enough c' r) :
    Proceeds n enough c r := by
  cases r with
  | error f => exact h
  | ok x => exact Nat.le_trans h hc

/-- The same if it does not matter how much was taken. -/
theorem Proceeds.loose (h : Proceeds n enough c r) : Proceeds 0 enough c r := by
  cases r with
  | error f => exact h
  | ok x => exact Nat.le_trans (Nat.add_le_add_left (Nat.zero_le n) _) h

theorem Proceeds.bind {k : α × Cursor → Except TreeFault (β × Cursor)} (h : Proceeds n enough c r)
    (hk : ∀ a c', c'.rest.length + n ≤ c.rest.length → Proceeds 0 enough c' (k (a, c'))) :
    Proceeds n enough c (r >>= k) := by
  cases r with
  | error f => exact h
  | ok x =>
    have hx : x.2.rest.length + n ≤ c.rest.length := h
    have hrest := hk x.1 x.2 hx
    show Proceeds n enough c (k x)
    cases hkx : k x with
    | error f => rwa [hkx] at hrest
    | ok y =>
      rw [hkx] at hrest
      have hy : y.2.rest.length ≤ x.2.rest.length := hrest
      show y.2.rest.length + n ≤ c.rest.length
      omega

theorem proceeds_eat {x : Char} (heat : c.eat x = some c') (h : Proceeds n enough c' r) :
    Proceeds n enough c r := by
  have hlength := Cursor.length_eat heat
  exact proceeds_after c' (by omega) h

theorem proceeds_error {f : TreeFault} (h : f ≠ .exhausted) :
    Proceeds n enough c (.error f : Except TreeFault (α × Cursor)) := fun _ => h

theorem proceeds_pure (a : α) (c : Cursor) : Proceeds 0 enough c (pure (a, c)) := Nat.le_refl _

end

/-! ## Words and numbers -/

theorem word_proceeds (c : Cursor) : Proceeds 1 True c (word c) := by
  have hlength := c.length_takeWhile isWordChar
  unfold word
  split
  · exact proceeds_error nofun
  · rename_i w c' hw htake
    rw [htake] at hlength
    have hpos : 0 < w.length := List.length_pos_iff.2 hw
    show c'.rest.length + 1 ≤ c.rest.length
    dsimp only at hlength
    omega

theorem expect_proceeds (x : Char) (c : Cursor) : Proceeds 1 True c (expect x c) := by
  have hskip := c.length_skipBlanks
  dsimp only [expect]
  cases heat : c.skipBlanks.eat x with
  | none => exact proceeds_error nofun
  | some c' =>
    have hlength := Cursor.length_eat heat
    show c'.rest.length + 1 ≤ c.rest.length
    omega

theorem ne_nil_of_integerOf {negative : Bool} {digits : List Char} {i : Int64}
    (h : integerOf negative digits = .ok i) : digits ≠ [] := by
  rintro rfl
  cases negative <;> cases h

theorem length_digits {negative : Bool} {c : Cursor} {i : Int64}
    (h : integerOf negative (c.takeWhile Char.isDigit).1 = .ok i) :
    (c.takeWhile Char.isDigit).2.rest.length + 1 ≤ c.rest.length := by
  have hlength := c.length_takeWhile Char.isDigit
  have hpos := List.length_pos_iff.2 (ne_nil_of_integerOf h)
  omega

theorem number_proceeds (c : Cursor) : Proceeds 1 True c (number c) := by
  unfold number
  cases heat : c.eat '-' with
  | none =>
    dsimp only
    split
    · exact length_digits ‹_›
    · exact proceeds_error nofun
  | some c' =>
    refine proceeds_eat heat ?_
    dsimp only
    split
    · exact length_digits ‹_›
    · exact proceeds_error nofun

/-! ## Heads -/

theorem coordinate_ne_exhausted (i : Int64) : coordinate i ≠ .error .exhausted := by
  unfold coordinate
  split
  · nofun
  · split <;> nofun

theorem position_proceeds (c : Cursor) : Proceeds 1 True c (position c) := by
  refine (number_proceeds c).bind fun line c₁ _ => ?_
  dsimp only
  cases heat : c₁.eat ':' with
  | none => exact proceeds_error nofun
  | some c₂ =>
    refine proceeds_eat heat ((number_proceeds c₂).loose.bind fun column c₃ _ => ?_)
    dsimp only
    cases hline : coordinate line with
    | error f => exact proceeds_error fun hf => coordinate_ne_exhausted line (hf ▸ hline)
    | ok l =>
      cases hcolumn : coordinate column with
      | error f => exact proceeds_error fun hf => coordinate_ne_exhausted column (hf ▸ hcolumn)
      | ok k => exact proceeds_pure (l, k) c₃

theorem span_proceeds (c : Cursor) : Proceeds 1 True c (span c) := by
  refine (position_proceeds c).bind fun _ c₁ _ => ?_
  dsimp only
  cases heat : c₁.eat '-' with
  | none => exact proceeds_error nofun
  | some c₂ => exact proceeds_eat heat ((position_proceeds c₂).loose.bind fun _ c₃ _ => proceeds_pure _ c₃)

theorem marks_proceeds : ∀ (fuel : Nat) (m : Marks) (c : Cursor),
    Proceeds 0 (c.rest.length < fuel) c (marks fuel m c)
  | 0, _, _ => fun h => absurd h (Nat.not_lt_zero _)
  | fuel + 1, m, c => by
    have hturn : ∀ {α : Type} {R : TreeReader α} (add : α → Marks) {x : Char} {c' : Cursor}, c.eat x = some c' →
        (∀ c, Proceeds 1 True c (R c)) →
        Proceeds 0 (c.rest.length < fuel + 1) c (R c' >>= fun y => marks fuel (add y.1) y.2) := by
      intro α R add x c' heat hR
      have hlength := Cursor.length_eat heat
      refine proceeds_eat heat (((hR c').imp fun _ => trivial).loose.bind fun a c₁ h₁ => ?_)
      exact (marks_proceeds fuel (add a) c₁).imp (by omega)
    unfold marks
    split
    · exact hturn (fun w => { m with label := some w }) ‹_› word_proceeds
    · exact hturn (fun s => { m with span := some s }) ‹_› span_proceeds
    · exact hturn (fun w => { m with flags := m.flags ++ [w] }) ‹_› word_proceeds
    · exact proceeds_pure m c

theorem foldlM_withFlag_ne_exhausted : ∀ (flags : List String) (h : TreeHead),
    flags.foldlM withFlag h ≠ .error .exhausted
  | [], _ => nofun
  | flag :: flags, h => by
    rw [List.foldlM_cons]
    cases hflag : withFlag h flag with
    | error f =>
      unfold withFlag at hflag
      split at hflag
      · cases hflag
      · cases hflag
      · cases hflag
      · cases hflag
        nofun
    | ok h' => exact foldlM_withFlag_ne_exhausted flags h'

theorem head_proceeds (fuel : Nat) (c : Cursor) : Proceeds 1 (c.rest.length ≤ fuel) c (head fuel c) := by
  have hskip := c.length_skipBlanks
  refine proceeds_after c.skipBlanks hskip ?_
  refine ((word_proceeds c.skipBlanks).imp fun _ => trivial).bind fun type c₁ h₁ => ?_
  have hmarks : Proceeds 0 (c.rest.length ≤ fuel) c₁ (marks fuel {} c₁) :=
    (marks_proceeds fuel {} c₁).imp (by omega)
  refine hmarks.bind fun m c₂ _ => ?_
  dsimp only
  cases hflags : m.flags.foldlM withFlag { type, label := m.label, span := m.span } with
  | error f => exact proceeds_error fun hf => foldlM_withFlag_ne_exhausted _ _ (hf ▸ hflags)
  | ok h => exact proceeds_pure h c₂

/-! ## Arguments -/

theorem wordTerm_proceeds (c : Cursor) : Proceeds 1 True c (wordTerm c) := by
  refine (word_proceeds c).bind fun w c₁ _ => ?_
  dsimp only
  split
  · exact proceeds_pure _ c₁
  · exact proceeds_pure _ c₁
  · exact proceeds_pure _ c₁
  · exact proceeds_pure _ c₁
  · cases heat : c₁.eat ':' with
    | none => exact proceeds_error nofun
    | some c₂ => exact proceeds_eat heat ((word_proceeds c₂).loose.bind fun _ c₃ _ => proceeds_pure _ c₃)
  · exact proceeds_error nofun

theorem quoted_proceeds (c : Cursor) : Proceeds 1 True c (quoted c) := by
  have htake := c.length_takeWhile (· != '"')
  dsimp only [quoted]
  cases heat : (c.takeWhile (· != '"')).2.eat '"' with
  | none => exact proceeds_error nofun
  | some c' =>
    have hlength := Cursor.length_eat heat
    show c'.rest.length + 1 ≤ c.rest.length
    omega

mutual

theorem term_proceeds : ∀ (fuel : Nat) (c : Cursor), Proceeds 1 (2 * c.rest.length + 1 ≤ fuel) c (term fuel c)
  | 0, _ => fun h => absurd h (Nat.not_succ_le_zero _)
  | fuel + 1, c => by
    have hskip := c.length_skipBlanks
    unfold term
    split
    · exact proceeds_error nofun
    · rename_i offset r hc
      rw [hc, List.length_cons] at hskip
      refine proceeds_after ⟨offset + 1, r⟩ (Nat.le_of_succ_le hskip) ?_
      exact (quoted_proceeds _).imp fun _ => trivial
    · rename_i offset r hc
      rw [hc, List.length_cons] at hskip
      refine proceeds_after ⟨offset + 1, r⟩ (Nat.le_of_succ_le hskip) ?_
      exact ((word_proceeds _).imp fun _ => trivial).bind fun _ c₁ _ => proceeds_pure _ c₁
    · rename_i offset r hc
      rw [hc, List.length_cons] at hskip
      have hterms : Proceeds 1 (2 * c.rest.length + 1 ≤ fuel + 1) ⟨offset + 1, r⟩ (terms fuel ']' ⟨offset + 1, r⟩) :=
        (terms_proceeds fuel ']' ⟨offset + 1, r⟩).imp (by dsimp only; omega)
      refine proceeds_after ⟨offset + 1, r⟩ (Nat.le_of_succ_le hskip) ?_
      exact hterms.bind fun _ c₁ _ => proceeds_pure _ c₁
    · rename_i offset x r _ _ _ hc
      rw [hc] at hskip
      refine proceeds_after ⟨offset, x :: r⟩ hskip ?_
      split
      · exact ((number_proceeds _).imp fun _ => trivial).bind fun _ c₁ _ => proceeds_pure _ c₁
      · exact (wordTerm_proceeds _).imp fun _ => trivial

theorem terms_proceeds : ∀ (fuel : Nat) (close : Char) (c : Cursor),
    Proceeds 1 (2 * c.rest.length + 2 ≤ fuel) c (terms fuel close c)
  | 0, _, _ => fun h => absurd h (Nat.not_succ_le_zero _)
  | fuel + 1, close, c => by
    have hskip := c.length_skipBlanks
    unfold terms
    cases heat : c.skipBlanks.eat close with
    | some c' =>
      have hlength := Cursor.length_eat heat
      show c'.rest.length + 1 ≤ c.rest.length
      omega
    | none =>
      refine proceeds_after c.skipBlanks hskip ?_
      refine ((term_proceeds fuel c.skipBlanks).imp (by omega)).bind fun t c₁ h₁ => ?_
      exact ((terms_proceeds fuel close c₁).imp (by omega)).loose.bind fun ts c₂ _ => proceeds_pure _ c₂

end

theorem call_proceeds (fuel : Nat) (c : Cursor) : Proceeds 1 (2 * c.rest.length ≤ fuel) c (call fuel c) := by
  refine ((word_proceeds c).imp fun _ => trivial).bind fun name c₁ h₁ => ?_
  refine ((expect_proceeds '(' c₁).imp fun _ => trivial).loose.bind fun _ c₂ h₂ => ?_
  refine ((terms_proceeds fuel ')' c₂).imp (by omega)).loose.bind fun args c₃ _ => ?_
  exact ((expect_proceeds '=' c₃).imp fun _ => trivial).loose.bind fun _ c₄ _ => proceeds_pure _ c₄

/-! ## Nodes -/

mutual

theorem declaration_proceeds : ∀ (fuel : Nat) (c : Cursor),
    Proceeds 1 (2 * c.rest.length + 1 ≤ fuel) c (declaration fuel c)
  | 0, _ => fun h => absurd h (Nat.not_succ_le_zero _)
  | fuel + 1, c => by
    refine ((head_proceeds fuel c).imp (by omega)).bind fun h c₁ h₁ => ?_
    have hskip := c₁.length_skipBlanks
    dsimp only
    cases heat : c₁.skipBlanks.eat '{' with
    | none => exact hskip
    | some c₂ =>
      have hlength := Cursor.length_eat heat
      refine proceeds_after c₂ (by omega) ?_
      exact ((body_proceeds fuel h.type c₂).imp (by omega)).loose.bind fun _ c₃ _ => proceeds_pure _ c₃

theorem body_proceeds : ∀ (fuel : Nat) (type : String) (c : Cursor),
    Proceeds 1 (2 * c.rest.length + 2 ≤ fuel) c (body fuel type c)
  | 0, _, _ => fun h => absurd h (Nat.not_succ_le_zero _)
  | fuel + 1, type, c => by
    have hskip := c.length_skipBlanks
    -- Each turn reads a node, which takes a character. So the next turn has less before it.
    have hnext : ∀ (c₁ : Cursor) (es : Declaration → List Entry → List Entry),
        c₁.rest.length ≤ c.rest.length → Proceeds 1 (2 * c.rest.length + 2 ≤ fuel + 1) c₁ (do
          let (d, c) ← declaration fuel c₁
          let (more, c) ← body fuel type c
          return (es d more, c)) := by
      intro c₁ es h₁
      refine ((declaration_proceeds fuel c₁).imp (by omega)).bind fun d c₂ h₂ => ?_
      exact ((body_proceeds fuel type c₂).imp (by omega)).loose.bind fun _ c₃ _ => proceeds_pure _ c₃
    unfold body
    split
    · exact proceeds_error nofun
    · rename_i offset r hc
      rwa [hc] at hskip
    · rename_i offset x r _ hc
      rw [hc] at hskip
      split
      · rw [List.length_cons] at hskip
        refine proceeds_after ⟨offset + 1, r⟩ (Nat.le_of_succ_le hskip) ?_
        refine ((call_proceeds fuel ⟨offset + 1, r⟩).imp (by dsimp only; omega)).bind fun p c₁ h₁ => ?_
        exact (hnext c₁ (fun d es => .derived (x == '~') p.1 p.2 d :: es) (by dsimp only at h₁; omega)).loose
      · refine proceeds_after ⟨offset, x :: r⟩ hskip ?_
        exact hnext ⟨offset, x :: r⟩ (fun d es => .child d :: es) hskip

end

end TreeReader

end Waymark
