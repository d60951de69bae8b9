import Mathlib
import Waymark.Json.Reader
import Waymark.Json.Writer

/-!
# Reading what was written

The written form of a value is cut into the tokens of the value, and these tokens are put together
to the value again. Only integers beyond 64 bits do not come back, so they are excluded.
-/

namespace Waymark.Json

/-! ## The tokens of a value -/

mutual

def tokens : Json → List Token
  | .null => [.null]
  | .bool b => [.bool b]
  | .integer i => [.integer i]
  | .real fits => [.real fits]
  | .text s => [.text s]
  | .array items => .openBracket :: tokensItems items
  | .object fields => .openBrace :: tokensFields fields

def tokensItems : List Json → List Token
  | [] => [.closeBracket]
  | [x] => x.tokens ++ [.closeBracket]
  | x :: y :: xs => x.tokens ++ .comma :: tokensItems (y :: xs)

def tokensFields : List (Option String × Json) → List Token
  | [] => [.closeBrace]
  | [(k, x)] => .text k :: .colon :: x.tokens ++ [.closeBrace]
  | (k, x) :: y :: xs => .text k :: .colon :: x.tokens ++ .comma :: tokensFields (y :: xs)

end

mutual

def inRange : Json → Bool
  | .integer i => decide (Int64.minValue.toInt ≤ i) && decide (i < UInt64.size)
  | .array items => inRangeItems items
  | .object fields => inRangeFields fields
  | _ => true

def inRangeItems : List Json → Bool
  | [] => true
  | x :: xs => x.inRange && inRangeItems xs

def inRangeFields : List (Option String × Json) → Bool
  | [] => true
  | (_, x) :: xs => x.inRange && inRangeFields xs

end

/-! ## Scanning -/

namespace Token

/-- What may follow a number without becoming part of it. -/
def Ends (s : List Char) : Prop :=
  ∀ c ∈ s.head?, c.isDigit = false ∧ c ≠ '.' ∧ c ≠ 'e' ∧ c ≠ 'E'

theorem ends_nil : Ends [] := by intro c hc; cases hc

theorem ends_comma (s : List Char) : Ends (',' :: s) := by
  intro c hc; cases hc; decide

theorem ends_bracket (s : List Char) : Ends (']' :: s) := by
  intro c hc; cases hc; decide

theorem ends_brace (s : List Char) : Ends ('}' :: s) := by
  intro c hc; cases hc; decide

theorem scan_nil : scan [] = some [] := by rw [scan]

theorem scan_first {c : Char} {s r : List Char} {t : Token} (hb : isBlank c = false)
    (h : first (c :: s) = some (t, r)) : scan (c :: s) = (scan r).map (t :: ·) := by
  rw [scan]
  simp only [hb, Bool.false_eq_true, ite_false]
  split
  · rename_i h'; rw [h] at h'; cases h'
  · rename_i h'; rw [h] at h'; cases h'; rfl

/-! ### Numbers -/

theorem takeWhile_digits {ds r : List Char} (hd : ∀ c ∈ ds, c.isDigit = true) (hr : Ends r) :
    (ds ++ r).takeWhile Char.isDigit = ds := by
  rw [List.takeWhile_append_of_pos hd]
  cases r with
  | nil => simp
  | cons c r => simp [(hr c rfl).1]

theorem dropWhile_digits {ds r : List Char} (hd : ∀ c ∈ ds, c.isDigit = true) (hr : Ends r) :
    (ds ++ r).dropWhile Char.isDigit = r := by
  rw [List.dropWhile_append_of_pos hd]
  cases r with
  | nil => rfl
  | cons c r => simp [(hr c rfl).1]

theorem numberTail_ends {r : List Char} (hr : Ends r) (negative : Bool) (ds : List Char) :
    numberTail negative ds r = some (integral negative ds, r) := by
  unfold numberTail
  split
  · exact absurd rfl (hr '.' rfl).2.1
  · rw [if_neg]
    rintro (h | h)
    · exact (hr _ h).2.2.1 rfl
    · exact (hr _ h).2.2.2 rfl

/-- A positive number does not begin with a zero. -/
theorem toDigits_head {n : Nat} (hn : 0 < n) : ∀ c ∈ (Nat.toDigits 10 n).head?, c ≠ '0' := by
  induction n using Nat.strongRecOn with
  | ind n ih =>
    intro c hc
    by_cases h : n < 10
    · rw [Nat.toDigits_of_lt_base h] at hc
      cases hc
      have hz : ∀ m < 10, 0 < m → Nat.digitChar m ≠ '0' := by decide
      exact hz n h hn
    · rw [Nat.toDigits_of_base_le (by decide) (by omega)] at hc
      refine ih (n / 10) (by omega) (by omega) c ?_
      cases hd : Nat.toDigits 10 (n / 10) with
      | nil => exact absurd hd Nat.toDigits_ne_nil
      | cons d ds => rw [hd] at hc; exact hc

theorem toDigits_ne_zero_cons (n : Nat) (d : Char) (ds : List Char) :
    Nat.toDigits 10 n ≠ '0' :: d :: ds := by
  intro h
  by_cases hn : 0 < n
  · exact toDigits_head hn '0' (by rw [h]; rfl) rfl
  · rw [Nat.eq_zero_of_not_pos hn, Nat.toDigits_zero] at h
    cases h

theorem digits_toDigits (n : Nat) : ∀ c ∈ Nat.toDigits 10 n, c.isDigit = true :=
  fun _ hc => Nat.isDigit_of_mem_toDigits (by decide) (by decide) hc

/-- A whole number after its sign. -/
theorem number_digits {s r : List Char} {negative : Bool} {n : Nat}
    (hs : minus s = (negative, Nat.toDigits 10 n ++ r)) (hr : Ends r) :
    number s = some (integral negative (Nat.toDigits 10 n), r) := by
  unfold number
  simp only [hs, takeWhile_digits (digits_toDigits n) hr, dropWhile_digits (digits_toDigits n) hr]
  split
  · rename_i h; exact absurd h Nat.toDigits_ne_nil
  · rename_i h; exact absurd h (toDigits_ne_zero_cons n _ _)
  · exact numberTail_ends hr _ _

theorem minus_toDigits (n : Nat) (r : List Char) :
    minus (Nat.toDigits 10 n ++ r) = (false, Nat.toDigits 10 n ++ r) := by
  unfold minus
  split
  · rename_i s h
    have hm : '-' ∈ Nat.toDigits 10 n := by
      cases hd : Nat.toDigits 10 n with
      | nil => exact absurd hd Nat.toDigits_ne_nil
      | cons c ds => rw [hd] at h; cases h; exact List.mem_cons_self ..
    exact absurd (digits_toDigits n _ hm) (by decide)
  · rfl

theorem number_writeInteger {i : Int} (hi : (Json.integer i).inRange = true) {r : List Char}
    (hr : Ends r) : number (writeInteger i ++ r) = some (.integer i, r) := by
  simp only [inRange, Bool.and_eq_true, decide_eq_true_eq] at hi
  unfold writeInteger
  by_cases hneg : i < 0
  · rw [if_pos hneg, List.cons_append, number_digits rfl hr]
    have hi' : -(i.natAbs : Int) = i := by omega
    have h0 : i.natAbs ≠ 0 := by omega
    simp only [integral, Nat.ofDigitChars_ten_toDigits, hi', h0, hi.1, Bool.not_true, Bool.false_and,
      Bool.false_eq_true, ite_false, bne_iff_ne, ne_eq, not_false_eq_true, Bool.true_and,
      Bool.and_true, decide_true, ite_true]
  · rw [if_neg hneg, number_digits (minus_toDigits _ r) hr]
    have hi' : (i.natAbs : Int) = i := by omega
    have hlt : i.natAbs < UInt64.size := by omega
    simp [integral, Nat.ofDigitChars_ten_toDigits, hi', hlt]

/-- A digit or a minus sign begins a number and nothing else. -/
theorem first_eq_number {c : Char} (hc : c.isDigit = true ∨ c = '-') (s : List Char) :
    first (c :: s) = number (c :: s) := by
  unfold first
  split
  all_goals first
    | rfl
    | rename_i h; cases h; exact absurd hc (by decide)

theorem writeInteger_cons (i : Int) :
    ∃ c s, writeInteger i = c :: s ∧ (c.isDigit = true ∨ c = '-') := by
  unfold writeInteger
  split
  · exact ⟨_, _, rfl, Or.inr rfl⟩
  · cases hd : Nat.toDigits 10 i.natAbs with
    | nil => exact absurd hd Nat.toDigits_ne_nil
    | cons c ds =>
      refine ⟨c, ds, rfl, Or.inl (digits_toDigits i.natAbs c ?_)⟩
      rw [hd]; exact List.mem_cons_self ..

theorem not_isBlank_of_number {c : Char} (hc : c.isDigit = true ∨ c = '-') : isBlank c = false := by
  by_cases hb : isBlank c = true
  · simp only [isBlank, Bool.or_eq_true, beq_iff_eq] at hb
    rcases hb with ((rfl | rfl) | rfl) | rfl <;> (revert hc; decide)
  · simpa using hb

theorem scan_integer {i : Int} (hi : (Json.integer i).inRange = true) {r : List Char} (hr : Ends r) :
    scan (writeInteger i ++ r) = (scan r).map (.integer i :: ·) := by
  have hn := number_writeInteger hi hr
  obtain ⟨c, s, hw, hc⟩ := writeInteger_cons i
  rw [hw, List.cons_append] at hn ⊢
  exact scan_first (not_isBlank_of_number hc) ((first_eq_number hc _).trans hn)

/-! ### Strings -/

theorem hexUnit_control : ∀ n < 32,
    hexUnit '0' '0' (Nat.digitChar (n / 16)) (Nat.digitChar (n % 16)) = some n := by decide

/-- A character that is not spelled out stands for itself. -/
theorem literal_plain {c : Char} (h : 0x20 ≤ c.toNat) (hq : c ≠ '"') (hb : c ≠ '\\')
    (acc s : List Char) : literal none (some acc) (c :: s) = literal none (some (c :: acc)) s := by
  rw [literal]
  · have hc : (decide (c.toNat < 0x20) || c == '\\') = false := by simp [hb]; omega
    simp [hc, settle]
  · exact hq
  · intro a b c' d s' hs _; exact hb hs
  · intro c' s' hs _; exact hb hs

theorem literal_writeChar (c : Char) (acc s : List Char) :
    literal none (some acc) (writeChar c ++ s) = literal none (some (c :: acc)) s := by
  unfold writeChar
  split
  all_goals first
    | rfl
    | skip
  split
  · rename_i h
    have hh : isHighHalf c.toNat = false := by simp [isHighHalf]; omega
    have hl : isLowHalf c.toNat = false := by simp [isLowHalf]; omega
    rw [literal.eq_def]
    simp [hexUnit_control c.toNat h, hh, hl]
  · rename_i hq hb _ _ _ _ _ h
    exact literal_plain (by omega) (fun e => hq e) (fun e => hb e) acc s

theorem literal_flatMap (cs acc s : List Char) :
    literal none (some acc) (cs.flatMap writeChar ++ '"' :: s) =
      some (some (String.ofList (acc.reverse ++ cs)), s) := by
  induction cs generalizing acc with
  | nil => simp [literal, settle]
  | cons c cs ih =>
    rw [List.flatMap_cons, List.append_assoc, literal_writeChar, ih]
    simp

theorem scan_text (k : Option String) (r : List Char) :
    scan (writeText k ++ r) = (scan r).map (.text k :: ·) := by
  cases k with
  | none => exact scan_first rfl rfl
  | some s =>
    refine scan_first rfl ?_
    have h : literal none (some []) (s.toList.flatMap writeChar ++ '"' :: r) = some (some s, r) := by
      rw [literal_flatMap]; simp
    have hw : (s.toList.flatMap writeChar ++ ['"']) ++ r = s.toList.flatMap writeChar ++ '"' :: r := by
      rw [List.append_assoc]; rfl
    show first ('"' :: ((s.toList.flatMap writeChar ++ ['"']) ++ r)) = _
    rw [hw, first, h]
    rfl

/-! ### Numbers that are no integers -/

theorem realTail_ends {r : List Char} (hr : Ends r) (whole fraction : List Char) :
    realTail whole fraction r = some (.real (Double.fits whole fraction 0), r) := by
  cases r with
  | nil => rfl
  | cons c r =>
    have hc := hr c rfl
    simp [realTail, hc.2.2.1, hc.2.2.2]

theorem number_half {r : List Char} (hr : Ends r) :
    number ('0' :: '.' :: '5' :: r) = some (.real true, r) := by
  have hd : ∀ c ∈ ['5'], c.isDigit = true := by simp
  have ht := takeWhile_digits hd hr
  have hs := dropWhile_digits hd hr
  simp only [List.singleton_append] at ht hs
  have h := realTail_ends hr ['0'] ['5']
  rw [show Double.fits ['0'] ['5'] 0 = true by decide] at h
  rw [← h]
  simp [number, minus, numberTail, ht, hs]

theorem number_beyond {r : List Char} (hr : Ends r) :
    number ('1' :: 'e' :: '9' :: '9' :: '9' :: r) = some (.real false, r) := by
  have hd : ∀ c ∈ ['9', '9', '9'], c.isDigit = true := by simp
  have ht := takeWhile_digits hd hr
  have hs := dropWhile_digits hd hr
  simp only [List.cons_append, List.nil_append] at ht hs
  have he : exponent ('9' :: '9' :: '9' :: r) = some (999, r) := by
    simp [exponent, exponentSign, minus, ht, hs, Nat.ofDigitChars]
  have hf : Double.fits ['1'] [] 999 = false := by decide
  simp [number, minus, numberTail, realTail, he, hf]

theorem scan_real (fits : Bool) {r : List Char} (hr : Ends r) :
    scan ((Json.real fits).write ++ r) = (scan r).map (.real fits :: ·) := by
  cases fits with
  | true => exact scan_first rfl ((first_eq_number (Or.inl rfl) _).trans (number_half hr))
  | false => exact scan_first rfl ((first_eq_number (Or.inl rfl) _).trans (number_beyond hr))

end Token

/-! ### Whole values -/

open Token

theorem append_map (ts us : List Token) (o : Option (List Token)) :
    (o.map (us ++ ·)).map (ts ++ ·) = o.map (ts ++ us ++ ·) := by
  cases o <;> simp

mutual

theorem scan_write : ∀ (v : Json) {r : List Char}, v.inRange = true → Ends r →
    scan (v.write ++ r) = (scan r).map (v.tokens ++ ·)
  | .null, r, _, _ => scan_first rfl rfl
  | .bool true, r, _, _ => scan_first rfl rfl
  | .bool false, r, _, _ => scan_first rfl rfl
  | .integer i, r, h, hr => by
    rw [write, tokens]
    exact scan_integer h hr
  | .real fits, r, _, hr => scan_real fits hr
  | .text s, r, _, _ => by
    rw [write, tokens]
    exact scan_text s r
  | .array items, r, h, _ => by
    rw [write, tokens, List.cons_append, scan_first rfl rfl, scan_writeItems items r h]
    exact append_map [.openBracket] _ _
  | .object fields, r, h, _ => by
    rw [write, tokens, List.cons_append, scan_first rfl rfl, scan_writeFields fields r h]
    exact append_map [.openBrace] _ _

theorem scan_writeItems : ∀ (items : List Json) (r : List Char), inRangeItems items = true →
    scan (writeItems items ++ r) = (scan r).map (tokensItems items ++ ·)
  | [], r, _ => scan_first rfl rfl
  | [x], r, h => by
    simp only [inRangeItems, Bool.and_true] at h
    rw [writeItems, tokensItems, List.append_assoc, List.singleton_append,
      scan_write x h (ends_bracket r), scan_first rfl rfl]
    exact append_map _ [.closeBracket] _
  | x :: y :: xs, r, h => by
    rw [inRangeItems, Bool.and_eq_true] at h
    rw [writeItems, tokensItems, List.append_assoc, List.cons_append, scan_write x h.1 (ends_comma _),
      scan_first rfl rfl, scan_writeItems (y :: xs) r h.2]
    cases scan r <;> simp

theorem scan_writeFields : ∀ (fields : List (Option String × Json)) (r : List Char),
    inRangeFields fields = true →
    scan (writeFields fields ++ r) = (scan r).map (tokensFields fields ++ ·)
  | [], r, _ => scan_first rfl rfl
  | [(k, x)], r, h => by
    simp only [inRangeFields, Bool.and_true] at h
    rw [writeFields, tokensFields]
    simp only [List.append_assoc, List.cons_append, List.nil_append]
    rw [scan_text, scan_first rfl rfl, scan_write x h (ends_brace r), scan_first rfl rfl]
    cases scan r <;> simp
  | (k, x) :: y :: xs, r, h => by
    rw [inRangeFields, Bool.and_eq_true] at h
    rw [writeFields, tokensFields]
    simp only [List.append_assoc, List.cons_append]
    rw [scan_text, scan_first rfl rfl, scan_write x h.1 (ends_comma _), scan_first rfl rfl,
      scan_writeFields (y :: xs) r h.2]
    cases scan r <;> simp

end

theorem scan_render {v : Json} (h : v.inRange = true) : scan v.write = some v.tokens := by
  have hs := scan_write v h ends_nil
  rw [List.append_nil, scan_nil] at hs
  simpa using hs

/-! ## Putting tokens together -/

theorem tokens_head (v : Json) : ∃ t ts, v.tokens = t :: ts ∧ t ≠ .closeBracket := by
  cases v <;> exact ⟨_, _, by rw [tokens], by simp⟩

theorem build_openBracket {t : Token} (ht : t ≠ .closeBracket) (up : List Frame) (ts : List Token) :
    build .value up (.openBracket :: t :: ts) = build .value (.item [] :: up) (t :: ts) := by
  rw [build]
  intro ts' h
  cases h
  exact ht rfl

mutual

theorem build_tokens : ∀ (v : Json) (up : List Frame) (ts : List Token),
    build .value up (v.tokens ++ ts) = build (.after v) up ts
  | .null, up, ts => by simp [tokens, build]
  | .bool b, up, ts => by simp [tokens, build]
  | .integer i, up, ts => by simp [tokens, build]
  | .real fits, up, ts => by simp [tokens, build]
  | .text s, up, ts => by simp [tokens, build]
  | .array [], up, ts => by simp [tokens, tokensItems, build]
  | .array (x :: xs), up, ts => by
    have h := build_tokensItems (x :: xs) [] up ts (List.cons_ne_nil _ _)
    obtain ⟨t, us, ht, hne⟩ := tokens_head x
    have hx : ∃ vs, tokensItems (x :: xs) = t :: vs := by
      cases xs <;> simp [tokensItems, ht]
    obtain ⟨vs, hvs⟩ := hx
    rw [hvs] at h
    rw [tokens, hvs, List.cons_append, List.cons_append, build_openBracket hne]
    exact h
  | .object [], up, ts => by simp [tokens, tokensFields, build]
  | .object ((k, x) :: fs), up, ts => by
    have h := build_tokensFields ((k, x) :: fs) [] up ts (List.cons_ne_nil _ _)
    have hx : ∃ vs, tokensFields ((k, x) :: fs) = .text k :: vs := by
      cases fs <;> simp [tokensFields]
    obtain ⟨vs, hvs⟩ := hx
    rw [hvs] at h
    rw [tokens, hvs, List.cons_append, List.cons_append]
    simpa [build] using h

theorem build_tokensItems : ∀ (items before : List Json) (up : List Frame) (ts : List Token),
    items ≠ [] → build .value (.item before :: up) (tokensItems items ++ ts) =
      build (.after (.array (before.reverse ++ items))) up ts
  | [], _, _, _, h => absurd rfl h
  | [x], before, up, ts, _ => by
    rw [tokensItems, List.append_assoc, build_tokens x]
    simp [build]
  | x :: y :: xs, before, up, ts, _ => by
    rw [tokensItems, List.append_assoc, build_tokens x, List.cons_append, build,
      build_tokensItems (y :: xs) (x :: before) up ts (List.cons_ne_nil _ _)]
    simp

theorem build_tokensFields : ∀ (fields before : List (Option String × Json)) (up : List Frame)
    (ts : List Token), fields ≠ [] → build (.name before) up (tokensFields fields ++ ts) =
      build (.after (.object (before.reverse ++ fields))) up ts
  | [], _, _, _, h => absurd rfl h
  | [(k, x)], before, up, ts, _ => by
    simp only [tokensFields, List.cons_append, List.append_assoc]
    rw [build, build_tokens x]
    simp [build]
  | (k, x) :: y :: fs, before, up, ts, _ => by
    simp only [tokensFields, List.cons_append, List.append_assoc]
    rw [build, build_tokens x, build,
      build_tokensFields (y :: fs) ((k, x) :: before) up ts (List.cons_ne_nil _ _)]
    simp

end

/-- What was written is read again. -/
theorem read_write {v : Json} (h : v.inRange = true) : read v.write = some v := by
  have hb := build_tokens v [] []
  rw [List.append_nil] at hb
  rw [read, scan_render h, Option.bind_some, hb, build]

end Waymark.Json
