import Waymark.Proofs.Snapshot.History
import Waymark.Proofs.Span
import Waymark.Tree.Reader

/-!
# The order of packed positions

A later place in the text has a larger word, as long as the lines can be told apart. Lines past the last
one that a word has room for all count as that line. Of two places on such lines only the columns are
left, and they may stand the other way around. A span with such ends is turned around, and a search passes
over the node that has it.
-/

namespace Waymark

/-! ## Words -/

namespace Position

theorem toNat_pack (line column : UInt32) :
    (pack line column).toNat = min line.toNat 1048575 * 4096 + min column.toNat 4095 := by
  have hline : (min line maxLine).toNat = min line.toNat 1048575 := UInt32.toNat_min ..
  have hcolumn : (min column maxColumn).toNat = min column.toNat 4095 := UInt32.toNat_min ..
  have hshift : (min line maxLine <<< columnBits).toNat = min line.toNat 1048575 <<< 12 := by
    rw [UInt32.toNat_shiftLeft, hline]
    refine Nat.mod_eq_of_lt ?_
    have hbits : 2 ^ (columnBits.toNat % 32) = 4096 := by decide
    rw [Nat.shiftLeft_eq, hbits]
    omega
  have hlow : min column.toNat 4095 < 2 ^ 12 := by omega
  rw [pack, UInt32.toNat_or, hshift, hcolumn, ← Nat.shiftLeft_add_eq_or_of_lt hlow, Nat.shiftLeft_eq]

theorem toNat_line (p : Position) : p.line.toNat = p.toNat / 4096 := by
  rw [line, UInt32.toNat_shiftRight, Nat.shiftRight_eq_div_pow]
  rfl

theorem toNat_column (p : Position) : p.column.toNat = p.toNat % 4096 := by
  rw [column, UInt32.toNat_and]
  exact Nat.and_two_pow_sub_one_eq_mod p.toNat 12

/-- Nothing is lost when a word is taken apart. -/
theorem pack_line_column (p : Position) : pack p.line p.column = p := by
  have hlt : p.toNat < 4294967296 := p.toNat_lt
  apply UInt32.toNat_inj.1
  rw [toNat_pack, toNat_line, toNat_column]
  omega

end Position

/-! ## Ends of spans -/

namespace LineColumns

/-- The start does not follow the end in the text. -/
def Ordered (lc : LineColumns) : Prop :=
  lc.startLine < lc.stopLine ∨ lc.startLine = lc.stopLine ∧ lc.startColumn ≤ lc.stopColumn

def InRange (lc : LineColumns) : Prop :=
  (lc.startLine ≤ Position.maxLine ∧ lc.startColumn ≤ Position.maxColumn) ∧
    lc.stopLine ≤ Position.maxLine ∧ lc.stopColumn ≤ Position.maxColumn

/-- Both lines count as the last one, and on it the end comes before the start. -/
def Crossed (lc : LineColumns) : Prop :=
  Position.maxLine ≤ lc.startLine ∧ lc.startLine < lc.stopLine ∧
    min lc.stopColumn Position.maxColumn < min lc.startColumn Position.maxColumn

instance (lc : LineColumns) : Decidable lc.Ordered := inferInstanceAs (Decidable (_ ∨ _))

instance (lc : LineColumns) : Decidable lc.InRange := inferInstanceAs (Decidable (_ ∧ _))

instance (lc : LineColumns) : Decidable lc.Crossed := inferInstanceAs (Decidable (_ ∧ _))

theorem toNat_maxLine : Position.maxLine.toNat = 1048575 := rfl

theorem toNat_maxColumn : Position.maxColumn.toNat = 4095 := rfl

variable {lc : LineColumns}

theorem Ordered.toNat (h : lc.Ordered) : lc.startLine.toNat < lc.stopLine.toNat ∨
    lc.startLine.toNat = lc.stopLine.toNat ∧ lc.startColumn.toNat ≤ lc.stopColumn.toNat := by
  rwa [Ordered, UInt32.lt_iff_toNat_lt, UInt32.le_iff_toNat_le, ← UInt32.toNat_inj] at h

theorem crossed_iff : lc.Crossed ↔ 1048575 ≤ lc.startLine.toNat ∧ lc.startLine.toNat < lc.stopLine.toNat ∧
    min lc.stopColumn.toNat 4095 < min lc.startColumn.toNat 4095 := by
  rw [Crossed, UInt32.le_iff_toNat_le, UInt32.lt_iff_toNat_lt, UInt32.lt_iff_toNat_lt, UInt32.toNat_min,
    UInt32.toNat_min, toNat_maxLine, toNat_maxColumn]

theorem pack_le_iff (h : lc.Ordered) :
    Position.pack lc.startLine lc.startColumn ≤ Position.pack lc.stopLine lc.stopColumn ↔ ¬ lc.Crossed := by
  rw [UInt32.le_iff_toNat_le, Position.toNat_pack, Position.toNat_pack, crossed_iff]
  rcases h.toNat with hline | ⟨hline, hcolumn⟩
  · omega
  · rw [hline]
    omega

theorem pack_lt (h : lc.Ordered) (hin : lc.InRange)
    (hne : (lc.startLine, lc.startColumn) ≠ (lc.stopLine, lc.stopColumn)) :
    Position.pack lc.startLine lc.startColumn < Position.pack lc.stopLine lc.stopColumn := by
  simp only [InRange, UInt32.le_iff_toNat_le, toNat_maxLine, toNat_maxColumn] at hin
  rw [ne_eq, Prod.mk.injEq, ← UInt32.toNat_inj, ← UInt32.toNat_inj] at hne
  rw [UInt32.lt_iff_toNat_lt, Position.toNat_pack, Position.toNat_pack]
  rcases h.toNat with hline | ⟨hline, hcolumn⟩
  · omega
  · rw [hline]
    omega

theorem toSpan_ordered (h : lc.Ordered) : lc.toSpan.start ≤ lc.toSpan.stop ↔ ¬ lc.Crossed := pack_le_iff h

theorem isMeaningful_of_crossed (h : lc.Crossed) : lc.toSpan.isMeaningful = true := by
  rw [crossed_iff] at h
  rw [Span.isMeaningful_iff]
  left
  show (Position.pack _ _).toNat ≠ 0
  rw [Position.toNat_pack]
  omega

end LineColumns

/-- A span holds one of its own positions unless it is turned around. -/
theorem Span.overlaps_self_iff {s : Span} : s.overlaps s = true ↔ s.start ≤ s.stop := by
  rw [overlaps, Bool.and_self, decide_eq_true_eq]

/-- Whether a search for what has the span passes over what has it. -/
theorem LineColumns.away_iff {lc : LineColumns} (h : lc.Ordered) :
    (lc.toSpan.isMeaningful && !lc.toSpan.overlaps lc.toSpan) = decide lc.Crossed := by
  rw [Bool.eq_iff_iff, Bool.and_eq_true, Bool.not_eq_true', ← Bool.not_eq_true, Span.overlaps_self_iff,
    toSpan_ordered h, not_not, decide_eq_true_eq]
  exact ⟨fun hc => hc.2, fun hc => ⟨isMeaningful_of_crossed hc, hc⟩⟩

/-! ## Hosts and texts -/

open Op Snapshot

/-- A span in a text has the ends that are written there. -/
theorem TreeReader.span_of_positions {c c₁ c₂ c₃ : Cursor} {lc : LineColumns}
    (hstart : position c = .ok ((lc.startLine, lc.startColumn), c₁)) (hdash : c₁.eat '-' = some c₂)
    (hstop : position c₂ = .ok ((lc.stopLine, lc.stopColumn), c₃)) : span c = .ok (lc.toSpan, c₃) := by
  rw [span, hstart]
  simp only [bind, Except.bind, hdash, hstop]
  rfl

section
variable {ν : Type} [DecidableEq ν] {host : Host ν} {root : ν} {s : Snapshot ν} {n : Node ν}

theorem Snapshot.History.rawSpan_eq (h : s.History host root) (hn : s.Knows n) :
    ((rawSpan n).exec host s).1 = .ok (host.rawSpan s.config.positions n.host) := by
  obtain ⟨_, hrun, -, rfl⟩ := (rawSpan_tells (w := ⟨host, s.config, root⟩) hn).sure.returns (le_refl s) h.of_all
  exact hrun

theorem Snapshot.History.isAway_eq (h : s.History host root) (hn : s.Knows n) (target : Target) :
    ((isAway target n).exec host s).1 = .ok ((host.rawSpan s.config.positions n.host).isMeaningful &&
      !(host.rawSpan s.config.positions n.host).overlaps target.span) := by
  obtain ⟨_, hrun, -, rfl⟩ := (keeps_isAway (w := ⟨host, s.config, root⟩) hn target).returns (le_refl s) h.of_all
  exact hrun

end

/-- Of two places in the text the later one has the larger word, unless both lines count as the last one
and the columns stand the other way around; places that fit into words and differ have different words. So
a span whose start does not follow its end keeps them in order with the same exception, whether it comes
from a host that counts lines and columns apart or from the text of a tree. In the order it has a position
in common with itself, and a search for its node does not pass over that node. -/
theorem LineColumns.packed_in_order (lc : LineColumns) (h : lc.Ordered) :
    (Position.pack lc.startLine lc.startColumn ≤ Position.pack lc.stopLine lc.stopColumn ↔ ¬ lc.Crossed) ∧
    (lc.InRange → (lc.startLine, lc.startColumn) ≠ (lc.stopLine, lc.stopColumn) →
      Position.pack lc.startLine lc.startColumn < Position.pack lc.stopLine lc.stopColumn) ∧
    (lc.toSpan.start ≤ lc.toSpan.stop ↔ ¬ lc.Crossed) ∧
    (lc.toSpan.overlaps lc.toSpan = true ↔ ¬ lc.Crossed) ∧
    (∀ (ν : Type) [DecidableEq ν] (host : Host ν) (root : ν) (s : Snapshot ν) (n : Node ν),
      s.History host root → s.config.positions = .lineColumn → s.Knows n →
      host.lineColumns n.host = some lc → ((rawSpan n).exec host s).1 = .ok lc.toSpan ∧
        ∀ target : Target, target.span = lc.toSpan →
          ((isAway target n).exec host s).1 = .ok (decide lc.Crossed)) ∧
    ∀ c c₁ c₂ c₃ : Cursor, TreeReader.position c = .ok ((lc.startLine, lc.startColumn), c₁) →
      c₁.eat '-' = some c₂ → TreeReader.position c₂ = .ok ((lc.stopLine, lc.stopColumn), c₃) →
      TreeReader.span c = .ok (lc.toSpan, c₃) := by
  refine ⟨pack_le_iff h, pack_lt h, toSpan_ordered h, Span.overlaps_self_iff.trans (toSpan_ordered h), ?_, ?_⟩
  · intro ν _ host root s n hs hpositions hn hlc
    have hraw : host.rawSpan s.config.positions n.host = lc.toSpan := by
      rw [hpositions, Host.rawSpan, Host.reportedSpan, hlc]
      rfl
    refine ⟨by rw [hs.rawSpan_eq hn, hraw], fun target htarget => ?_⟩
    rw [hs.isAway_eq hn, hraw, htarget, away_iff h]
  · intro c c₁ c₂ c₃ hstart hdash hstop
    exact TreeReader.span_of_positions hstart hdash hstop

/-- From a column that a word has no room for to a line that it has no room for. -/
def LineColumns.clamped : LineColumns := ⟨3, 5000, 1048580, 2⟩

theorem LineColumns.packed_in_order_clamped : clamped.Ordered ∧
    Position.pack 3 5000 ≤ Position.pack 1048580 2 ∧
    ∃ c, TreeReader.span ⟨0, "3:5000-1048580:2".toList⟩ = .ok (clamped.toSpan, c) ∧
      clamped.toSpan.overlaps clamped.toSpan = true := by
  have hordered : clamped.Ordered := by decide
  have hcrossed : ¬ clamped.Crossed := by decide
  have hstart : TreeReader.position ⟨0, "3:5000-1048580:2".toList⟩ =
      .ok ((3, 5000), ⟨6, "-1048580:2".toList⟩) := by cbv
  have hstop : TreeReader.position ⟨7, "1048580:2".toList⟩ = .ok ((1048580, 2), ⟨16, []⟩) := by cbv
  obtain ⟨hpack, -, -, hoverlaps, -, hread⟩ := packed_in_order clamped hordered
  exact ⟨hordered, hpack.2 hcrossed, _, hread _ _ _ _ hstart rfl hstop, hoverlaps.2 hcrossed⟩

/-- From the last line that a word has room for to the one after it, further to the left. -/
def LineColumns.crossing : LineColumns := ⟨1048575, 5, 1048576, 3⟩

def crossingHost : Host Unit where
  size := 1
  childCount _ := .ok 0
  child _ _ := .error "no children"
  parent _ := .ok none
  typeName _ := "Root"
  lineColumns _ := some .crossing
  bounded := ⟨[()], by simp, fun _ _ => by simp⟩

/-- The start comes first in the text but has the larger word, and the root is not found by a search for
it. -/
theorem LineColumns.packed_crossing : crossing.Ordered ∧
    ¬ Position.pack 1048575 5 ≤ Position.pack 1048576 3 ∧
    ¬ crossing.toSpan.start ≤ crossing.toSpan.stop ∧
    crossing.toSpan.overlaps crossing.toSpan = false ∧
    ((do uniqueMatch ⟨0, ()⟩ (← targetAt ⟨0, ()⟩ 0) : Op Unit _).exec crossingHost
      (ofRoot { positions := .lineColumn } crossingHost ())).1 = .ok none := by
  refine ⟨by decide, by decide, by decide, by decide, ?_⟩
  decide +kernel

end Waymark
