import Mathlib
import Waymark.Span

/-!
# Spans

When two spans are equal and when they overlap, and what becomes of both if the whole text is moved.
-/

namespace Waymark

theorem Position.gap_eq_zero {p q : Position} (h : p.gap q = 0) : p = q := by
  unfold gap at h
  split at h
  · rename_i hle
    rw [UInt32.le_iff_toNat_le] at hle
    exact UInt32.toNat_inj.1 (by omega)
  · rename_i hle
    rw [UInt32.le_iff_toNat_le] at hle
    omega

theorem Position.gap_self (p : Position) : p.gap p = 0 := by
  simp [gap]

namespace Span

theorem distance_eq_zero {s t : Span} : s.distance t = 0 ↔ s = t := by
  constructor
  · intro h
    have hgaps : s.start.gap t.start + s.stop.gap t.stop = 0 := by
      simp only [distance, maxDistance] at h
      omega
    have hstart := Position.gap_eq_zero (Nat.eq_zero_of_add_eq_zero_right hgaps)
    have hstop := Position.gap_eq_zero (Nat.eq_zero_of_add_eq_zero_left hgaps)
    cases s
    cases t
    simp_all
  · rintro rfl
    simp [distance, Position.gap_self]

theorem overlaps_of_inside {a d : Span} (hstart : a.start ≤ d.start) (hd : d.start ≤ d.stop)
    (hstop : d.stop ≤ a.stop) : a.overlaps d = true := by
  simp only [overlaps, Bool.and_eq_true, decide_eq_true_eq]
  exact ⟨UInt32.le_trans hstart hd, UInt32.le_trans hd hstop⟩

theorem overlaps_self {a : Span} (h : a.start ≤ a.stop) : a.overlaps a = true :=
  overlaps_of_inside (UInt32.le_refl _) h (UInt32.le_refl _)

/-! ## Moving the text -/

/-- The span after the text was moved by `c` words. The span of no place stays. -/
def shift (c : UInt32) (s : Span) : Span :=
  if s.isMeaningful then ⟨s.start + c, s.stop + c⟩ else s

def HasRoom (c : UInt32) (s : Span) : Prop :=
  s.isMeaningful = true → s.start.toNat + c.toNat < 2 ^ 32 ∧ s.stop.toNat + c.toNat < 2 ^ 32

variable {c : UInt32} {s t : Span}

theorem toNat_add_of_lt {p : Position} (h : p.toNat + c.toNat < 2 ^ 32) :
    (p + c).toNat = p.toNat + c.toNat := by
  rw [UInt32.toNat_add, Nat.mod_eq_of_lt h]

theorem hasRoom_none : HasRoom c .none := nofun

@[simp] theorem shift_none : shift c .none = .none := rfl

theorem shift_of_meaningful (h : s.isMeaningful = true) : s.shift c = ⟨s.start + c, s.stop + c⟩ := if_pos h

theorem shift_of_not_meaningful (h : ¬ s.isMeaningful = true) : s.shift c = s := if_neg h

theorem isMeaningful_iff : s.isMeaningful = true ↔ s.start.toNat ≠ 0 ∨ s.stop.toNat ≠ 0 := by
  simp [isMeaningful, ← UInt32.toNat_inj]

theorem isMeaningful_shift (hs : s.HasRoom c) : (s.shift c).isMeaningful = s.isMeaningful := by
  by_cases hm : s.isMeaningful = true
  · obtain ⟨hstart, hstop⟩ := hs hm
    rw [shift_of_meaningful hm, hm, isMeaningful_iff, toNat_add_of_lt hstart, toNat_add_of_lt hstop]
    rw [isMeaningful_iff] at hm
    omega
  · rw [shift_of_not_meaningful hm]

theorem shift_inj (hs : s.HasRoom c) (ht : t.HasRoom c) : s.shift c = t.shift c ↔ s = t := by
  constructor
  · intro h
    have hm : s.isMeaningful = t.isMeaningful := by
      rw [← isMeaningful_shift hs, ← isMeaningful_shift ht, h]
    by_cases hsm : s.isMeaningful = true
    · rw [shift_of_meaningful hsm, shift_of_meaningful (hm ▸ hsm)] at h
      obtain ⟨hstart, hstop⟩ := Span.mk.inj h
      cases s
      cases t
      simp_all
    · rwa [shift_of_not_meaningful hsm, shift_of_not_meaningful (hm ▸ hsm)] at h
  · intro h
    rw [h]

theorem overlaps_shift (hs : s.HasRoom c) (ht : t.HasRoom c) (hsm : s.isMeaningful = true)
    (htm : t.isMeaningful = true) : (s.shift c).overlaps (t.shift c) = s.overlaps t := by
  obtain ⟨hs₁, hs₂⟩ := hs hsm
  obtain ⟨ht₁, ht₂⟩ := ht htm
  rw [shift_of_meaningful hsm, shift_of_meaningful htm]
  simp only [overlaps, UInt32.le_iff_toNat_le, toNat_add_of_lt, hs₁, hs₂, ht₁, ht₂, Nat.add_le_add_iff_right]

end Span

end Waymark
