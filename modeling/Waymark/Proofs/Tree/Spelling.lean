import Waymark.Proofs.Packing
import Waymark.Tree.Reader

/-!
# How trees are written

The text form of a declaration, as a relation between the two. A text may have blanks and commas in many
places. Between arguments and between the nodes of a body there is at least one of them.

The small readers are here too: each of them gets what was written and stops after it, unless what comes
next could belong to it.
-/

namespace Waymark

/-! ## Characters -/

namespace TreeText

def isBlank (c : Char) : Bool := CharClass.blank.has c || c == ','

def Blanks (s : List Char) : Prop := ∀ c ∈ s, isBlank c = true

structure Gap (s : List Char) : Prop where
  nonempty : s ≠ []
  blanks : Blanks s

structure IsWord (w : String) : Prop where
  nonempty : w.toList ≠ []
  chars : ∀ c ∈ w.toList, CharClass.isAlphanumeric c = true ∨ c = '_'

end TreeText

open TreeText

/-! ## Heads -/

inductive Flag where
  | external
  | hidden
  | visible
  deriving DecidableEq

namespace Flag

def text : Flag → String
  | external => "external"
  | hidden => "hidden"
  | visible => "visible"

def shown? : Flag → Option Bool
  | external => none
  | hidden => some false
  | visible => some true

end Flag

inductive HeadMark where
  | label (name : String)
  | span (s : Span)
  | flag (f : Flag)

namespace HeadMark

def text : HeadMark → List Char
  | label name => '#' :: name.toList
  | span s => '@' :: s.text.toList
  | flag f => '!' :: f.text.toList

def Proper : HeadMark → Prop
  | label name => IsWord name
  | span _ | flag _ => True

def label? : HeadMark → Option String
  | label name => some name
  | span _ | flag _ => none

def span? : HeadMark → Option Span
  | span s => some s
  | label _ | flag _ => none

def flag? : HeadMark → Option Flag
  | flag f => some f
  | label _ | span _ => none

end HeadMark

/-- The head with these marks. Of several labels or spans the last one counts, and of several flags that tell
whether the node is shown the last one too. -/
def TreeHead.marked (type : String) (marks : List HeadMark) : TreeHead where
  type
  label := (marks.filterMap HeadMark.label?).getLast?
  span := (marks.filterMap HeadMark.span?).getLast?
  external := (marks.filterMap HeadMark.flag?).contains .external
  visible := ((marks.filterMap HeadMark.flag?).filterMap Flag.shown?).getLast?

def TreeText.headText (type : String) (marks : List HeadMark) : List Char :=
  type.toList ++ marks.flatMap HeadMark.text

/-! ## Arguments and nodes -/

def Term.keywords : List (String × Term) :=
  [("true", .bool true), ("false", .bool false), ("null", .null), ("any", .any)]

mutual

inductive Term.Spelled : Term → List Char → Prop
  | string {s : String} : '"' ∉ s.toList → Term.Spelled (.string s) ('"' :: (s.toList ++ ['"']))
  | integer (i : Int64) : Term.Spelled (.integer i) (toString i.toInt).toList
  | keyword {w : String} {a : Term} : (w, a) ∈ Term.keywords → Term.Spelled a w.toList
  | stream {name : String} : IsWord name → Term.Spelled (.stream name) ("out:".toList ++ name.toList)
  | ref {label : String} : IsWord label → Term.Spelled (.ref label) ('$' :: label.toList)
  | collection {items : List Term} {y : List Char} : Term.SpelledAll items y →
      Term.Spelled (.collection items) ('[' :: (y ++ [']']))

inductive Term.SpelledAll : List Term → List Char → Prop
  | nil {b : List Char} : Blanks b → Term.SpelledAll [] b
  | one {a : Term} {b x : List Char} : Blanks b → Term.Spelled a x → Term.SpelledAll [a] (b ++ x)
  | cons {a : Term} {as : List Term} {b x g y : List Char} : Blanks b → Term.Spelled a x → Gap g →
      Term.SpelledAll as y → Term.SpelledAll (a :: as) (b ++ (x ++ (g ++ y)))

end

mutual

inductive Declaration.Spelled : Declaration → List Char → Prop
  | bare {type : String} {marks : List HeadMark} : IsWord type → (∀ m ∈ marks, m.Proper) →
      Declaration.Spelled (.node (.marked type marks) []) (headText type marks)
  | body {type : String} {marks : List HeadMark} {es : List Entry} {b y : List Char} : IsWord type →
      (∀ m ∈ marks, m.Proper) → Blanks b → Entry.SpelledAll es y →
      Declaration.Spelled (.node (.marked type marks) es) (headText type marks ++ (b ++ '{' :: (y ++ ['}'])))

inductive Entry.Spelled : Entry → List Char → Prop
  | child {d : Declaration} {x : List Char} : Declaration.Spelled d x → Entry.Spelled (.child d) x
  | derived {proxied : Bool} {name : String} {args : List Term} {d : Declaration} {b b' b'' y x : List Char} :
      IsWord name → Blanks b → Term.SpelledAll args y → Blanks b' → Blanks b'' → Declaration.Spelled d x →
      Entry.Spelled (.derived proxied name args d) ((if proxied then '~' else '.') ::
        (name.toList ++ (b ++ '(' :: (y ++ ')' :: (b' ++ '=' :: (b'' ++ x))))))

inductive Entry.SpelledAll : List Entry → List Char → Prop
  | nil {b : List Char} : Blanks b → Entry.SpelledAll [] b
  | one {e : Entry} {b x : List Char} : Blanks b → Entry.Spelled e x → Entry.SpelledAll [e] (b ++ x)
  | cons {e : Entry} {es : List Entry} {b x g y : List Char} : Blanks b → Entry.Spelled e x → Gap g →
      Entry.SpelledAll es y → Entry.SpelledAll (e :: es) (b ++ (x ++ (g ++ y)))

end

def Declaration.Text (d : Declaration) (text : List Char) : Prop :=
  ∃ b x b', Blanks b ∧ d.Spelled x ∧ Blanks b' ∧ text = b ++ (x ++ b')

/-! ## Blanks and words -/

namespace CharClass

variable {k l : CharClass} {c : Char}

theorem has_iff : k.has c = true ↔ ∃ r ∈ k.ranges, r.1 ≤ c.toNat ∧ c.toNat ≤ r.2 := by
  simp [has]

theorem has_eq_false_of_apart (h : ∀ r ∈ k.ranges, ∀ q ∈ l.ranges, r.2 < q.1 ∨ q.2 < r.1)
    (hc : k.has c = true) : l.has c = false := by
  by_contra hl
  obtain ⟨r, hr, hin⟩ := has_iff.1 hc
  obtain ⟨q, hq, hin'⟩ := has_iff.1 (Bool.eq_true_of_not_eq_false hl)
  have hapart := h r hr q hq
  omega

end CharClass

namespace TreeText

open TreeReader

def goesOn (c : Char) : Bool := isWordChar c || c == '#' || c == '@' || c == '!'

def Ends (s : List Char) : Prop := ∀ c ∈ s.head?, isWordChar c = false

def Stops (s : List Char) : Prop := ∀ c ∈ s.head?, goesOn c = false

theorem Stops.ends {s : List Char} (h : Stops s) : Ends s := by
  intro c hc
  have hno := h c hc
  simp only [goesOn, Bool.or_eq_false_iff] at hno
  exact hno.1.1.1

theorem Ends.not_isDigit {s : List Char} (h : Ends s) : ∀ c ∈ s.head?, c.isDigit = false := by
  intro c hc
  have hword := h c hc
  simp only [isWordChar, Char.isAlphanum, Bool.or_eq_false_iff] at hword
  exact hword.1.1.2

/-- Only letters and digits of the first 128 characters are alphanumeric. -/
theorem isAlphanum_of_isAlphanumeric {c : Char} (h : CharClass.isAlphanumeric c = true) (hc : c.toNat ≤ 0x7f) :
    c.isAlphanum = true := by
  have htable : ∀ r ∈ CharClass.alphabetic.ranges ++ CharClass.numeric.ranges,
      ∀ n ∈ List.range' r.1 (min r.2 0x7f + 1 - r.1), (Char.ofNat n).isAlphanum = true := by decide +kernel
  have hmem : ∃ r ∈ CharClass.alphabetic.ranges ++ CharClass.numeric.ranges, r.1 ≤ c.toNat ∧ c.toNat ≤ r.2 := by
    rw [CharClass.isAlphanumeric, Bool.or_eq_true, CharClass.has_iff, CharClass.has_iff] at h
    rcases h with ⟨r, hr, hin⟩ | ⟨r, hr, hin⟩
    · exact ⟨r, List.mem_append_left _ hr, hin⟩
    · exact ⟨r, List.mem_append_right _ hr, hin⟩
  obtain ⟨r, hr, hlow, hhigh⟩ := hmem
  have hc := htable r hr c.toNat (List.mem_range'_1.2 (by omega))
  rwa [Char.ofNat_toNat] at hc

theorem isWordChar_of_alphanumeric {c : Char} (h : CharClass.isAlphanumeric c = true) : isWordChar c = true := by
  rcases Nat.lt_or_ge 0x7f c.toNat with hlt | hle
  · simp [isWordChar, h, hlt]
  · simp [isWordChar, isAlphanum_of_isAlphanumeric h hle]

theorem isAlphanumeric_eq_false_of_blank {c : Char} (h : CharClass.blank.has c = true) :
    CharClass.isAlphanumeric c = false := by
  have hapart : (CharClass.blank.ranges.all fun r => (CharClass.alphabetic.ranges ++ CharClass.numeric.ranges).all
      fun q => Nat.blt r.2 q.1 || Nat.blt q.2 r.1) = true := by decide +kernel
  simp only [List.all_eq_true, Bool.or_eq_true, Nat.blt_eq] at hapart
  have halphabetic := CharClass.has_eq_false_of_apart
    (fun r hr q hq => hapart r hr q (List.mem_append_left _ hq)) h
  have hnumeric := CharClass.has_eq_false_of_apart
    (fun r hr q hq => hapart r hr q (List.mem_append_right _ hq)) h
  rw [CharClass.isAlphanumeric, halphabetic, hnumeric]
  rfl

theorem goesOn_eq_false_of_isBlank {c : Char} (h : isBlank c = true) : goesOn c = false := by
  rw [isBlank, Bool.or_eq_true, beq_iff_eq] at h
  rcases h with h | rfl
  · have hplain : ∀ r ∈ CharClass.blank.ranges, ∀ n ∈ List.range' r.1 (r.2 + 1 - r.1),
        ((Char.ofNat n).isAlphanum || Char.ofNat n == '_' || Char.ofNat n == '#' || Char.ofNat n == '@' ||
          Char.ofNat n == '!') = false := by decide +kernel
    obtain ⟨r, hr, hin⟩ := CharClass.has_iff.1 h
    have hc := hplain r hr c.toNat (List.mem_range'_1.2 (by omega))
    rw [Char.ofNat_toNat] at hc
    simp only [Bool.or_eq_false_iff] at hc
    simp [goesOn, isWordChar, isAlphanumeric_eq_false_of_blank h, hc]
  · decide

theorem isBlank_eq_false_of_isWordChar {c : Char} (h : isWordChar c = true) : isBlank c = false := by
  by_contra hblank
  have hno := goesOn_eq_false_of_isBlank (Bool.eq_true_of_not_eq_false hblank)
  simp [goesOn, h] at hno

theorem IsWord.isWordChar {w : String} (h : IsWord w) : ∀ c ∈ w.toList, TreeReader.isWordChar c = true := by
  intro c hc
  rcases h.chars c hc with hc | rfl
  · exact isWordChar_of_alphanumeric hc
  · rfl

theorem isWord_of_all {w : String} (hne : w.toList ≠ []) (h : w.toList.all CharClass.isAlphanumeric = true) :
    IsWord w :=
  ⟨hne, fun c hc => .inl (List.all_eq_true.1 h c hc)⟩

/-- A word begins with a character that is no blank and no sign. -/
theorem IsWord.exists_cons {w : String} (h : IsWord w) :
    ∃ c s, w.toList = c :: s ∧ TreeReader.isWordChar c = true := by
  obtain ⟨c, s, hw⟩ := List.exists_cons_of_ne_nil h.nonempty
  exact ⟨c, s, hw, h.isWordChar c (by simp [hw])⟩

theorem stops_nil : Stops [] := nofun

theorem stops_cons {c : Char} {s : List Char} (h : goesOn c = false) : Stops (c :: s) := by
  rintro _ ⟨⟩
  exact h

theorem Blanks.stops {b s : List Char} (hb : Blanks b) (hs : Stops s) : Stops (b ++ s) := by
  cases b with
  | nil => exact hs
  | cons c b => exact stops_cons (goesOn_eq_false_of_isBlank (hb c (by simp)))

theorem Gap.stops {g : List Char} (hg : Gap g) (s : List Char) : Stops (g ++ s) := by
  obtain ⟨c, g', rfl⟩ := List.exists_cons_of_ne_nil hg.nonempty
  exact stops_cons (goesOn_eq_false_of_isBlank (hg.blanks c (by simp)))

end TreeText

/-! ## Cursors -/

namespace Cursor

variable {c : Cursor} {b s t : List Char} {x : Char}

/-- From here on the text is `s`, but for blanks before it. -/
def RestUpToBlanks (c : Cursor) (s : List Char) : Prop := c.skipBlanks.rest = s.dropWhile isBlank

theorem restUpToBlanks_self (o : Nat) (s : List Char) : RestUpToBlanks ⟨o, s⟩ s := rfl

theorem dropWhile_blanks (hb : Blanks b) (s : List Char) :
    (b ++ s).dropWhile isBlank = s.dropWhile isBlank :=
  List.dropWhile_append_of_pos hb

theorem RestUpToBlanks.of_blanks (hb : Blanks b) (h : c.RestUpToBlanks (b ++ s)) : c.RestUpToBlanks s :=
  h.trans (dropWhile_blanks hb s)

theorem RestUpToBlanks.skipBlanks (h : c.RestUpToBlanks s) : c.skipBlanks.RestUpToBlanks s := by
  have hidem : (c.rest.dropWhile isBlank).dropWhile isBlank = c.rest.dropWhile isBlank :=
    List.dropWhile_idempotent ..
  exact hidem.trans h

theorem RestUpToBlanks.exists_skip (h : c.RestUpToBlanks (x :: s)) (hx : isBlank x = false) :
    ∃ o, c.skipBlanks = ⟨o, x :: s⟩ := by
  rw [RestUpToBlanks, List.dropWhile_cons_of_neg (by simp [hx])] at h
  exact ⟨c.skipBlanks.offset, by rw [← h]⟩

theorem takeWhile_append {p : Char → Bool} (hs : ∀ y ∈ s, p y = true) (ht : ∀ y ∈ t.head?, p y = false)
    (o : Nat) : takeWhile p ⟨o, s ++ t⟩ = (s, ⟨o + Text.byteLength s, t⟩) := by
  have hstop : t.takeWhile p = [] ∧ t.dropWhile p = t := by
    cases t with
    | nil => exact ⟨rfl, rfl⟩
    | cons y t => simp [ht y rfl]
  simp only [takeWhile, List.takeWhile_append_of_pos hs, List.dropWhile_append_of_pos hs, hstop,
    List.append_nil]

theorem eat_cons (x : Char) (o : Nat) (s : List Char) : eat x ⟨o, x :: s⟩ = some ⟨o + x.utf8Size, s⟩ := by
  simp [eat]

theorem eat_eq_none {y : Char} (h : ∀ x ∈ s.head?, x ≠ y) (o : Nat) : eat y ⟨o, s⟩ = none := by
  cases s with
  | nil => rfl
  | cons x s => simp [eat, h x rfl]

end Cursor

namespace TreeReader

variable {α : Type} {R : TreeReader α} {a : α} {s t : List Char}

/-- At a place before `s` the reader gets `a`, and `t` is left. -/
def Reads (R : TreeReader α) (s : List Char) (a : α) (t : List Char) : Prop :=
  ∀ o, ∃ o', R ⟨o, s⟩ = .ok (a, ⟨o', t⟩)

/-- The same for a reader that first passes over blanks, and blanks may be left. -/
def Gets (R : TreeReader α) (s : List Char) (a : α) (t : List Char) : Prop :=
  ∀ c : Cursor, c.RestUpToBlanks s → ∃ c', R c = .ok (a, c') ∧ c'.RestUpToBlanks t

theorem Gets.blanks {b : List Char} (h : Gets R s a t) (hb : Blanks b) : Gets R (b ++ s) a t :=
  fun c hc => h c (hc.of_blanks hb)

/-! ## Words and numbers -/

theorem reads_word {w : String} (hw : IsWord w) (ht : Ends t) : Reads word (w.toList ++ t) w t := by
  intro o
  have htake := Cursor.takeWhile_append hw.isWordChar ht o
  refine ⟨o + Text.byteLength w.toList, ?_⟩
  simp only [word, htake]
  split
  · rename_i hnil
    exact absurd (congrArg Prod.fst hnil) hw.nonempty
  · rename_i hcons
    cases hcons
    rw [String.ofList_toList]

theorem gets_expect {x : Char} (hx : isBlank x = false) (s : List Char) : Gets (expect x) (x :: s) () s := by
  intro c hc
  obtain ⟨o, hskip⟩ := hc.exists_skip hx
  refine ⟨⟨o + x.utf8Size, s⟩, ?_, Cursor.restUpToBlanks_self ..⟩
  simp only [expect, hskip, Cursor.eat_cons]

theorem takeWhile_toDigits (n : Nat) (ht : ∀ c ∈ t.head?, c.isDigit = false) (o : Nat) :
    Cursor.takeWhile Char.isDigit ⟨o, Nat.toDigits 10 n ++ t⟩ =
      (Nat.toDigits 10 n, ⟨o + Text.byteLength (Nat.toDigits 10 n), t⟩) :=
  Cursor.takeWhile_append (fun _ hc => Nat.isDigit_of_mem_toDigits (by decide) (by decide) hc) ht o

theorem integerOf_toDigits (negative : Bool) (n : Nat) : integerOf negative (Nat.toDigits 10 n) =
    if negative then if Int64.minValue.toInt ≤ -(n : Int) then .ok (.ofInt (-n)) else .error .tooSmall
    else if (n : Int) ≤ Int64.maxValue.toInt then .ok (.ofInt n) else .error .tooLarge := by
  have hvalue : Nat.ofDigitChars 10 (Nat.toDigits 10 n) 0 = n := Nat.ofDigitChars_ten_toDigits
  cases hdigits : Nat.toDigits 10 n with
  | nil => exact absurd hdigits Nat.toDigits_ne_nil
  | cons c s =>
    rw [hdigits] at hvalue
    cases negative <;> simp [integerOf, hvalue]

theorem reads_natural {n : Nat} (hn : (n : Int) ≤ Int64.maxValue.toInt)
    (ht : ∀ c ∈ t.head?, c.isDigit = false) : Reads number (Nat.toDigits 10 n ++ t) (.ofInt n) t := by
  intro o
  have heat : Cursor.eat '-' ⟨o, Nat.toDigits 10 n ++ t⟩ = none := by
    apply Cursor.eat_eq_none
    rintro c hc rfl
    rw [List.head?_append_of_ne_nil _ Nat.toDigits_ne_nil] at hc
    have hdigit := Nat.isDigit_of_mem_toDigits (b := 10) (by decide) (by decide) (List.mem_of_mem_head? hc)
    exact absurd hdigit (by decide)
  refine ⟨o + Text.byteLength (Nat.toDigits 10 n), ?_⟩
  simp only [number, heat, takeWhile_toDigits n ht, integerOf_toDigits, if_pos hn, Bool.false_eq_true,
    if_false]

theorem reads_negative {n : Nat} (hn : Int64.minValue.toInt ≤ -(n : Int))
    (ht : ∀ c ∈ t.head?, c.isDigit = false) :
    Reads number ('-' :: (Nat.toDigits 10 n ++ t)) (.ofInt (-n)) t := by
  intro o
  refine ⟨o + Char.utf8Size '-' + Text.byteLength (Nat.toDigits 10 n), ?_⟩
  simp only [number, Cursor.eat_cons, takeWhile_toDigits n ht, integerOf_toDigits, if_pos hn, if_true]

theorem reads_integer (i : Int64) (ht : ∀ c ∈ t.head?, c.isDigit = false) :
    Reads number ((toString i.toInt).toList ++ t) i t := by
  have hmax := i.toInt_le
  have hmin := i.minValue_le_toInt
  have hback := i.ofInt_toInt
  generalize i.toInt = n at *
  subst hback
  cases n with
  | ofNat n =>
    have htext : (toString (Int.ofNat n)).toList = Nat.toDigits 10 n := Nat.toList_repr
    rw [htext]
    exact reads_natural hmax ht
  | negSucc n =>
    have htext : (toString (Int.negSucc n)).toList = '-' :: Nat.toDigits 10 (n + 1) := by
      show ("-" ++ Nat.repr (n + 1)).toList = _
      rw [String.toList_append, Nat.toList_repr]
      rfl
    rw [htext]
    exact reads_negative hmin ht

/-! ## Spans -/

theorem coordinate_ofInt (n : UInt32) : coordinate (.ofInt n.toNat) = .ok n := by
  have hlt : n.toNat < 2 ^ 32 := n.toNat_lt
  have hint : (Int64.ofInt n.toNat).toInt = n.toNat := Int64.toInt_ofInt_of_le (by omega) (by omega)
  rw [coordinate, hint, if_neg (by omega), Int.toNat_natCast, if_pos n.toNat_lt, UInt32.ofNat_toNat]

theorem reads_position (p : Position) (ht : ∀ c ∈ t.head?, c.isDigit = false) :
    Reads position (p.text.toList ++ t) (p.line, p.column) t := by
  have hfits : ∀ n : UInt32, (n.toNat : Int) ≤ Int64.maxValue.toInt := by
    intro n
    have hlt : n.toNat < 2 ^ 32 := n.toNat_lt
    have hmax : Int64.maxValue.toInt = 2 ^ 63 - 1 := by decide
    omega
  have htext : p.text.toList ++ t =
      Nat.toDigits 10 p.line.toNat ++ ':' :: (Nat.toDigits 10 p.column.toNat ++ t) := by
    have hcolon : ":".toList = [':'] := rfl
    have hdigits : ∀ n : Nat, (toString n).toList = Nat.toDigits 10 n := fun n => Nat.toList_repr
    simp only [Position.text, String.toList_append, hdigits, hcolon, List.append_assoc, List.cons_append,
      List.nil_append]
  rw [htext]
  intro o
  have hcolon : ∀ c ∈ (':' :: (Nat.toDigits 10 p.column.toNat ++ t)).head?, c.isDigit = false := by
    rintro _ ⟨⟩
    decide
  obtain ⟨o₁, hline⟩ := reads_natural (hfits p.line) hcolon o
  obtain ⟨o₂, hcolumn⟩ := reads_natural (hfits p.column) ht (o₁ + Char.utf8Size ':')
  refine ⟨o₂, ?_⟩
  simp only [position, hline, Cursor.eat_cons, hcolumn, coordinate_ofInt, bind, Except.bind, pure,
    Except.pure]

theorem reads_span (s : Span) (ht : ∀ c ∈ t.head?, c.isDigit = false) : Reads span (s.text.toList ++ t) s t := by
  have htext : s.text.toList ++ t = s.start.text.toList ++ '-' :: (s.stop.text.toList ++ t) := by
    have hdash : "-".toList = ['-'] := rfl
    simp only [Span.text, String.toList_append, hdash, List.append_assoc, List.cons_append, List.nil_append]
  rw [htext]
  intro o
  have hdash : ∀ c ∈ ('-' :: (s.stop.text.toList ++ t)).head?, c.isDigit = false := by
    rintro _ ⟨⟩
    decide
  obtain ⟨o₁, hstart⟩ := reads_position s.start hdash o
  obtain ⟨o₂, hstop⟩ := reads_position s.stop ht (o₁ + Char.utf8Size '-')
  refine ⟨o₂, ?_⟩
  simp only [span, hstart, Cursor.eat_cons, hstop, bind, Except.bind, pure, Except.pure, Span.ofLineColumns,
    Position.pack_line_column]

/-! ## Marks -/

def Marks.add (m : Marks) : HeadMark → Marks
  | .label name => { m with label := some name }
  | .span s => { m with span := some s }
  | .flag f => { m with flags := m.flags ++ [f.text] }

theorem isWord_text (f : Flag) : IsWord f.text := by
  cases f <;> exact isWord_of_all (by decide) (by decide)

/-- A mark does not go on with the next one. -/
theorem ends_marks (ht : Stops t) : ∀ ms : List HeadMark, Ends (ms.flatMap HeadMark.text ++ t)
  | [] => ht.ends
  | m :: ms => by
    cases m <;> rintro _ ⟨⟩ <;> decide

theorem reads_marks (ht : Stops t) : ∀ {ms : List HeadMark} {fuel : Nat} (m : Marks), (∀ x ∈ ms, x.Proper) →
    ms.length < fuel → Reads (marks fuel m) (ms.flatMap HeadMark.text ++ t) (ms.foldl Marks.add m) t
  | _, 0, _, _, hfuel => absurd hfuel (Nat.not_lt_zero _)
  | [], fuel + 1, m, _, _ => by
    intro o
    have hnone : ∀ y, goesOn y = true → Cursor.eat y ⟨o, t⟩ = none := by
      intro y hy
      apply Cursor.eat_eq_none
      rintro x hx rfl
      exact absurd (ht x hx) (by simp [hy])
    refine ⟨o, ?_⟩
    simp [marks, hnone '#' (by decide), hnone '@' (by decide), hnone '!' (by decide)]
  | x :: ms, fuel + 1, m, hms, hfuel => by
    intro o
    have hrest : ∀ m, Reads (marks fuel m) (ms.flatMap HeadMark.text ++ t) (ms.foldl Marks.add m) t :=
      fun m => reads_marks ht m (fun y hy => hms y (by simp [hy])) (by simp at hfuel; omega)
    have hends := ends_marks ht ms
    rw [List.flatMap_cons, List.append_assoc, List.foldl_cons]
    cases x with
    | label name =>
      obtain ⟨o₁, hword⟩ := reads_word (hms (.label name) (by simp)) hends (o + Char.utf8Size '#')
      obtain ⟨o₂, hmarks⟩ := hrest (m.add (.label name)) o₁
      refine ⟨o₂, ?_⟩
      simp only [marks, HeadMark.text, List.cons_append, Cursor.eat_cons, hword, bind, Except.bind]
      exact hmarks
    | span s =>
      obtain ⟨o₁, hspan⟩ := reads_span s hends.not_isDigit (o + Char.utf8Size '@')
      obtain ⟨o₂, hmarks⟩ := hrest (m.add (.span s)) o₁
      have hnone : Cursor.eat '#' ⟨o, '@' :: (s.text.toList ++ (ms.flatMap HeadMark.text ++ t))⟩ = none := rfl
      refine ⟨o₂, ?_⟩
      simp only [marks, HeadMark.text, List.cons_append, hnone, Cursor.eat_cons, hspan, bind, Except.bind]
      exact hmarks
    | flag f =>
      obtain ⟨o₁, hword⟩ := reads_word (isWord_text f) hends (o + Char.utf8Size '!')
      obtain ⟨o₂, hmarks⟩ := hrest (m.add (.flag f)) o₁
      have hnone : ∀ y, y ≠ '!' →
          Cursor.eat y ⟨o, '!' :: (f.text.toList ++ (ms.flatMap HeadMark.text ++ t))⟩ = none := by
        intro y hy
        exact Cursor.eat_eq_none (by rintro _ ⟨⟩; exact hy.symm) o
      refine ⟨o₂, ?_⟩
      simp only [marks, HeadMark.text, List.cons_append, hnone '#' (by decide), hnone '@' (by decide),
        Cursor.eat_cons, hword, bind, Except.bind]
      exact hmarks

/-! ## Heads -/

theorem getLast?_cons_or {β : Type} (x : β) (l : List β) (y : Option β) :
    (x :: l).getLast?.or y = l.getLast?.or (some x) := by
  cases h : l.getLast? <;> simp [List.getLast?_cons, h]

/-- The marks that were read one after the other, field by field. -/
theorem foldl_add : ∀ (ms : List HeadMark) (m : Marks), ms.foldl Marks.add m =
    { label := (ms.filterMap HeadMark.label?).getLast?.or m.label
      span := (ms.filterMap HeadMark.span?).getLast?.or m.span
      flags := m.flags ++ (ms.filterMap HeadMark.flag?).map Flag.text }
  | [], m => by simp
  | x :: ms, m => by
    rw [List.foldl_cons, foldl_add ms]
    cases x with
    | label name =>
      simp [Marks.add, List.filterMap_cons, HeadMark.label?, HeadMark.span?, HeadMark.flag?, getLast?_cons_or]
    | span s =>
      simp [Marks.add, List.filterMap_cons, HeadMark.label?, HeadMark.span?, HeadMark.flag?, getLast?_cons_or]
    | flag f => simp [Marks.add, List.filterMap_cons, HeadMark.label?, HeadMark.span?, HeadMark.flag?]

theorem foldlM_withFlag : ∀ (fs : List Flag) (h : TreeHead), (fs.map Flag.text).foldlM withFlag h =
    .ok { h with
      external := h.external || fs.contains .external
      visible := (fs.filterMap Flag.shown?).getLast?.or h.visible }
  | [], h => by simp [pure, Except.pure]
  | f :: fs, h => by
    rw [List.map_cons, List.foldlM_cons]
    cases f with
    | external =>
      show List.foldlM withFlag { h with external := true } (fs.map Flag.text) = _
      rw [foldlM_withFlag fs]
      simp [Flag.shown?]
    | hidden =>
      show List.foldlM withFlag { h with visible := some false } (fs.map Flag.text) = _
      rw [foldlM_withFlag fs]
      simp [Flag.shown?, getLast?_cons_or]
    | visible =>
      show List.foldlM withFlag { h with visible := some true } (fs.map Flag.text) = _
      rw [foldlM_withFlag fs]
      simp [Flag.shown?, getLast?_cons_or]

theorem head_of_headText {type : String} {ms : List HeadMark} {fuel : Nat} {c : Cursor} (htype : IsWord type)
    (hms : ∀ m ∈ ms, m.Proper) (hfuel : ms.length < fuel) (ht : Stops t)
    (hc : c.RestUpToBlanks (headText type ms ++ t)) : ∃ o, head fuel c = .ok (.marked type ms, ⟨o, t⟩) := by
  obtain ⟨x, s, hx, hword⟩ := htype.exists_cons
  have htext : headText type ms ++ t = x :: (s ++ (ms.flatMap HeadMark.text ++ t)) := by
    rw [headText, hx, List.append_assoc, List.cons_append]
  rw [htext] at hc
  obtain ⟨o, hskip⟩ := hc.exists_skip (isBlank_eq_false_of_isWordChar hword)
  rw [← List.cons_append, ← hx] at hskip
  obtain ⟨o₁, htypeName⟩ := reads_word htype (ends_marks ht ms) o
  obtain ⟨o₂, hmarks⟩ := reads_marks ht {} hms hfuel o₁
  refine ⟨o₂, ?_⟩
  rw [foldl_add] at hmarks
  simp only [head, hskip, htypeName, hmarks, foldlM_withFlag, List.nil_append, bind, Except.bind]
  simp [TreeHead.marked, pure, Except.pure]

theorem length_headText {type : String} (htype : IsWord type) (ms : List HeadMark) :
    ms.length < (headText type ms).length := by
  have htext : ∀ m : HeadMark, 0 < m.text.length := by
    rintro (_ | _ | _) <;> exact Nat.succ_pos _
  have hmarks : ms.length ≤ (ms.flatMap HeadMark.text).length := by
    induction ms with
    | nil => exact Nat.le_refl _
    | cons m ms ih =>
      have hm := htext m
      rw [List.flatMap_cons, List.length_append, List.length_cons]
      omega
  have hpos := List.length_pos_iff.2 htype.nonempty
  rw [headText, List.length_append]
  omega

end TreeReader

end Waymark
