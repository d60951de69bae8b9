/-!
# Packed positions and spans

A position packs a line and a column into one 32-bit word, the line in the upper twenty bits and
the column in the lower twelve. A span is a pair of positions. The span `0:0-0:0` means that a node
has no place in the text, which is usual for nodes that a tool makes up.
-/

namespace Waymark

/-! ## Positions -/

/-- A line and a column in one word. The order of words is the order of the text, up to the last line and the
last column that fit. -/
abbrev Position := UInt32

namespace Position

def columnBits : UInt32 := 12

def maxColumn : UInt32 := 4095

def maxLine : UInt32 := 1048575

/-- Lines and columns that do not fit are brought down to the largest that do. -/
def pack (line column : UInt32) : Position :=
  (min line maxLine <<< columnBits) ||| min column maxColumn

def line (p : Position) : UInt32 := p >>> columnBits

def column (p : Position) : UInt32 := p &&& maxColumn

def gap (p q : Position) : Nat :=
  if p ≤ q then q.toNat - p.toNat else p.toNat - q.toNat

def text (p : Position) : String :=
  toString p.line.toNat ++ ":" ++ toString p.column.toNat

end Position

/-! ## Spans -/

/-- Where a node begins and ends, both ends included. -/
structure Span where
  start : Position
  stop : Position
  deriving DecidableEq, Repr, Inhabited

namespace Span

def none : Span := ⟨0, 0⟩

def ofLineColumns (startLine startColumn stopLine stopColumn : UInt32) : Span :=
  ⟨.pack startLine startColumn, .pack stopLine stopColumn⟩

def isMeaningful (s : Span) : Bool := s.start != 0 || s.stop != 0

def overlaps (s t : Span) : Bool := s.start ≤ t.stop && t.start ≤ s.stop

def contains (s : Span) (p : Position) : Bool := s.start ≤ p && p ≤ s.stop

def maxDistance : Nat := 4294967295

def distance (s t : Span) : Nat :=
  min (s.start.gap t.start + s.stop.gap t.stop) maxDistance

def text (s : Span) : String := s.start.text ++ "-" ++ s.stop.text

end Span

/-- A span as a host that counts lines and columns apart gives it. -/
structure LineColumns where
  startLine : UInt32
  startColumn : UInt32
  stopLine : UInt32
  stopColumn : UInt32
  deriving DecidableEq, Repr, Inhabited

def LineColumns.toSpan (lc : LineColumns) : Span :=
  .ofLineColumns lc.startLine lc.startColumn lc.stopLine lc.stopColumn

end Waymark
