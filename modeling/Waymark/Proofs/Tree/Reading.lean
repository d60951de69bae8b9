import Waymark.Proofs.Tree.Layout
import Waymark.Proofs.Tree.Spelling

/-!
# Trees are read as they are written

Every text of a declaration is read as that declaration, whatever blanks it has. So the tree that is read is
the tree that is described, as long as each label is there that an argument refers to.

The proofs are by induction on how a text is made up. What follows a part must not look like more of it, and
two turns of the reader for each character are enough.
-/

namespace Waymark

open TreeText

/-! ## Arguments -/

namespace TreeReader

variable {t : List Char}

theorem isWord_keyword {w : String} {a : Term} (h : (w, a) ∈ Term.keywords) : IsWord w := by
  simp only [Term.keywords, List.mem_cons, Prod.mk.injEq, List.not_mem_nil, or_false] at h
  obtain ⟨rfl, -⟩ | ⟨rfl, -⟩ | ⟨rfl, -⟩ | ⟨rfl, -⟩ := h <;>
    exact isWord_of_all (by decide) (by decide)

theorem reads_keyword {w : String} {a : Term} (h : (w, a) ∈ Term.keywords) (ht : Ends t) :
    Reads wordTerm (w.toList ++ t) a t := by
  intro o
  obtain ⟨o', hword⟩ := reads_word (isWord_keyword h) ht o
  refine ⟨o', ?_⟩
  simp only [wordTerm, hword, bind, Except.bind]
  simp only [Term.keywords, List.mem_cons, Prod.mk.injEq, List.not_mem_nil, or_false] at h
  obtain ⟨rfl, rfl⟩ | ⟨rfl, rfl⟩ | ⟨rfl, rfl⟩ | ⟨rfl, rfl⟩ := h <;> rfl

theorem reads_stream {name : String} (hname : IsWord name) (ht : Ends t) :
    Reads wordTerm ("out".toList ++ ':' :: (name.toList ++ t)) (.stream name) t := by
  intro o
  have hout : IsWord "out" := isWord_of_all (by decide) (by decide)
  have hcolon : Ends (':' :: (name.toList ++ t)) := by
    rintro _ ⟨⟩
    decide
  obtain ⟨o₁, hout⟩ := reads_word hout hcolon o
  obtain ⟨o₂, hword⟩ := reads_word hname ht (o₁ + Char.utf8Size ':')
  refine ⟨o₂, ?_⟩
  simp only [wordTerm, hout, Cursor.eat_cons, hword, bind, Except.bind]
  rfl

theorem reads_quoted {s : String} (hs : '"' ∉ s.toList) : Reads quoted (s.toList ++ '"' :: t) (.string s) t := by
  intro o
  have hchars : ∀ c ∈ s.toList, (c != '"') = true := by
    intro c hc
    rw [bne_iff_ne]
    rintro rfl
    exact hs hc
  have htake := Cursor.takeWhile_append (p := (· != '"')) hchars (t := '"' :: t) (by rintro _ ⟨⟩; rfl) o
  refine ⟨o + Text.byteLength s.toList + Char.utf8Size '"', ?_⟩
  simp only [quoted, htake, Cursor.eat_cons, String.ofList_toList]
  rfl

/-- The reader of arguments at a character that tells neither a string nor a reference nor a collection. -/
theorem term_plain {c : Cursor} {fuel o : Nat} {x : Char} {s : List Char} (hskip : c.skipBlanks = ⟨o, x :: s⟩)
    (hx : x ≠ '"' ∧ x ≠ '$' ∧ x ≠ '[') : term (fuel + 1) c =
      if x.isDigit || x == '-' then (do
        let (i, c) ← number ⟨o, x :: s⟩
        return (.integer i, c))
      else wordTerm ⟨o, x :: s⟩ := by
  rw [term, hskip]
  split
  · rename_i h
    cases h
  · rename_i h
    cases h
    exact absurd rfl hx.1
  · rename_i h
    cases h
    exact absurd rfl hx.2.1
  · rename_i h
    cases h
    exact absurd rfl hx.2.2
  · rename_i h
    cases h
    rfl

end TreeReader

/-- The text of an integer begins with a digit or with the sign. -/
theorem exists_cons_integer (i : Int) :
    ∃ c s, (toString i).toList = c :: s ∧ (c.isDigit || c == '-') = true := by
  have hdigits : ∀ n : Nat, ∃ c s, Nat.toDigits 10 n = c :: s ∧ c.isDigit = true := by
    intro n
    obtain ⟨c, s, hn⟩ := List.exists_cons_of_ne_nil (Nat.toDigits_ne_nil (n := n) (b := 10))
    exact ⟨c, s, hn, Nat.isDigit_of_mem_toDigits (b := 10) (n := n) (by decide) (by decide) (by simp [hn])⟩
  cases i with
  | ofNat n =>
    obtain ⟨c, s, hn, hc⟩ := hdigits n
    exact ⟨c, s, by rw [← hn]; exact Nat.toList_repr, by simp [hc]⟩
  | negSucc n => exact ⟨'-', (Nat.repr (n + 1)).toList, String.toList_append, rfl⟩

/-- An argument begins with a character that neither is a blank nor closes anything. -/
theorem Term.Spelled.exists_cons {a : Term} {x : List Char} (h : a.Spelled x) :
    ∃ c s, x = c :: s ∧ isBlank c = false ∧ c ≠ ')' ∧ c ≠ ']' := by
  have hword : ∀ {c : Char}, TreeReader.isWordChar c = true → isBlank c = false ∧ c ≠ ')' ∧ c ≠ ']' := by
    intro c hc
    refine ⟨isBlank_eq_false_of_isWordChar hc, ?_, ?_⟩ <;> rintro rfl <;> exact absurd hc (by decide)
  cases h with
  | string _ | ref _ | collection _ => exact ⟨_, _, rfl, by decide, by decide, by decide⟩
  | integer i =>
    obtain ⟨c, s, hi, hc⟩ := exists_cons_integer i.toInt
    refine ⟨c, s, hi, ?_⟩
    rcases Bool.or_eq_true_iff.1 hc with hc | hc
    · exact hword (by simp [TreeReader.isWordChar, Char.isAlphanum, hc])
    · rw [beq_iff_eq.1 hc]
      decide
  | keyword hw =>
    obtain ⟨c, s, hx, hc⟩ := (TreeReader.isWord_keyword hw).exists_cons
    exact ⟨c, s, hx, hword hc⟩
  | stream _ => exact ⟨'o', _, rfl, by decide, by decide, by decide⟩

theorem Term.Spelled.length_pos {a : Term} {x : List Char} (h : a.Spelled x) : 0 < x.length := by
  obtain ⟨_, _, rfl, _⟩ := h.exists_cons
  exact Nat.succ_pos _

namespace TreeReader

variable {t : List Char}

/-- A reader of arguments at one more argument. -/
theorem gets_terms_cons {a : Term} {as : List Term} {fuel : Nat} {close : Char} {x u : List Char}
    (hclose : close = ')' ∨ close = ']') (hx : a.Spelled x) (ha : Gets (term fuel) (x ++ u) a u)
    (has : Gets (terms fuel close) u as t) : Gets (terms (fuel + 1) close) (x ++ u) (a :: as) t := by
  intro c hc
  obtain ⟨y, s, hxs, hblank, hparen, hbracket⟩ := hx.exists_cons
  have hne : y ≠ close := by
    rcases hclose with rfl | rfl
    · exact hparen
    · exact hbracket
  have hskip : c.skipBlanks.RestUpToBlanks (x ++ u) := hc.skipBlanks
  rw [hxs, List.cons_append] at hc
  obtain ⟨o, ho⟩ := hc.exists_skip hblank
  have heat : c.skipBlanks.eat close = none := by
    rw [ho]
    exact Cursor.eat_eq_none (by rintro _ ⟨⟩; exact hne) o
  obtain ⟨c₁, hterm, hc₁⟩ := ha c.skipBlanks hskip
  obtain ⟨c₂, hterms, hc₂⟩ := has c₁ hc₁
  refine ⟨c₂, ?_, hc₂⟩
  simp only [terms, heat, hterm, hterms, bind, Except.bind]
  rfl

theorem gets_terms_nil {fuel : Nat} {close : Char} (hclose : close = ')' ∨ close = ']') :
    Gets (terms (fuel + 1) close) (close :: t) [] t := by
  intro c hc
  have hblank : isBlank close = false := by
    rcases hclose with rfl | rfl <;> decide
  obtain ⟨o, ho⟩ := hc.exists_skip hblank
  refine ⟨⟨o + close.utf8Size, t⟩, ?_, Cursor.restUpToBlanks_self ..⟩
  simp only [terms, ho, Cursor.eat_cons]

theorem stops_close {close : Char} (hclose : close = ')' ∨ close = ']') : Stops (close :: t) := by
  rcases hclose with rfl | rfl <;> exact stops_cons (by decide)

/-- The words that are arguments begin with letters. -/
theorem exists_cons_keyword {w : String} {a : Term} (h : (w, a) ∈ Term.keywords) : ∃ x s, w.toList = x :: s ∧
    isBlank x = false ∧ (x ≠ '"' ∧ x ≠ '$' ∧ x ≠ '[') ∧ (x.isDigit || x == '-') = false := by
  simp only [Term.keywords, List.mem_cons, Prod.mk.injEq, List.not_mem_nil, or_false] at h
  obtain ⟨rfl, -⟩ | ⟨rfl, -⟩ | ⟨rfl, -⟩ | ⟨rfl, -⟩ := h <;>
    exact ⟨_, _, rfl, by decide, by decide, by decide⟩

theorem gets_wordTerm {a : Term} {fuel : Nat} {x : Char} {s : List Char} (hblank : isBlank x = false)
    (hx : x ≠ '"' ∧ x ≠ '$' ∧ x ≠ '[') (hsign : (x.isDigit || x == '-') = false)
    (h : Reads wordTerm (x :: s) a t) : Gets (term (fuel + 1)) (x :: s) a t := by
  intro c hc
  obtain ⟨o, ho⟩ := hc.exists_skip hblank
  obtain ⟨o', hword⟩ := h o
  refine ⟨⟨o', t⟩, ?_, Cursor.restUpToBlanks_self ..⟩
  rw [term_plain ho hx, if_neg (by simp [hsign]), hword]

theorem gets_integer (i : Int64) {fuel : Nat} (ht : Ends t) :
    Gets (term (fuel + 1)) ((toString i.toInt).toList ++ t) (.integer i) t := by
  intro c hc
  obtain ⟨y, s, hi, hblank, -⟩ := (Term.Spelled.integer i).exists_cons
  obtain ⟨x, s', hi', hx⟩ := exists_cons_integer i.toInt
  obtain ⟨rfl, rfl⟩ : y = x ∧ s = s' := by simpa using hi.symm.trans hi'
  have hplain : y ≠ '"' ∧ y ≠ '$' ∧ y ≠ '[' := by
    refine ⟨?_, ?_, ?_⟩ <;> rintro rfl <;> exact absurd hx (by decide)
  rw [hi, List.cons_append] at hc
  obtain ⟨o, ho⟩ := hc.exists_skip hblank
  obtain ⟨o', hnumber⟩ := reads_integer i ht.not_isDigit o
  rw [hi, List.cons_append] at hnumber
  refine ⟨⟨o', t⟩, ?_, Cursor.restUpToBlanks_self ..⟩
  rw [term_plain ho hplain, if_pos hx, hnumber]
  rfl

mutual

theorem gets_term {t : List Char} : ∀ {a : Term} {x : List Char} {fuel : Nat}, a.Spelled x →
    2 * x.length ≤ fuel → Ends t → Gets (term fuel) (x ++ t) a t
  | _, _, 0, h, hfuel, _ => by
    have hpos := h.length_pos
    omega
  | _, _, fuel + 1, .string hs, _, _ => by
    intro c hc
    rw [List.cons_append, List.append_assoc] at hc
    obtain ⟨o, ho⟩ := hc.exists_skip (by decide)
    obtain ⟨o', hquoted⟩ := reads_quoted hs (o + 1)
    refine ⟨⟨o', t⟩, ?_, Cursor.restUpToBlanks_self ..⟩
    rw [term, ho]
    exact hquoted
  | _, _, fuel + 1, .integer i, _, ht => gets_integer i ht
  | _, _, fuel + 1, .keyword hw, _, ht => by
    obtain ⟨x, s, hx, hblank, hplain, hsign⟩ := exists_cons_keyword hw
    have hread := reads_keyword hw ht
    rw [hx] at hread ⊢
    exact gets_wordTerm hblank hplain hsign hread
  | _, _, fuel + 1, .stream hname, _, ht =>
    gets_wordTerm (by decide) (by decide) (by decide) (reads_stream hname ht)
  | _, _, fuel + 1, .ref hlabel, _, ht => by
    intro c hc
    obtain ⟨o, ho⟩ := hc.exists_skip (by decide)
    obtain ⟨o', hword⟩ := reads_word hlabel ht (o + 1)
    refine ⟨⟨o', t⟩, ?_, Cursor.restUpToBlanks_self ..⟩
    rw [term, ho]
    simp only [List.append_eq, hword, bind, Except.bind]
    rfl
  | _, _, fuel + 1, .collection (y := y) hitems, hfuel, _ => by
    intro c hc
    rw [List.cons_append, List.append_assoc] at hc
    obtain ⟨o, ho⟩ := hc.exists_skip (by decide)
    have hlength : 2 * y.length + 1 ≤ fuel := by
      simp at hfuel
      omega
    obtain ⟨c', hterms, hc'⟩ := gets_terms hitems (.inr rfl) hlength ⟨o + 1, y ++ ']' :: t⟩
      (Cursor.restUpToBlanks_self ..)
    refine ⟨c', ?_, hc'⟩
    rw [term, ho]
    simp only [List.cons_append, List.nil_append, hterms, bind, Except.bind]
    rfl

theorem gets_terms {t : List Char} : ∀ {as : List Term} {y : List Char} {fuel : Nat} {close : Char},
    Term.SpelledAll as y → close = ')' ∨ close = ']' → 2 * y.length + 1 ≤ fuel →
    Gets (terms fuel close) (y ++ close :: t) as t
  | _, _, 0, _, _, _, hfuel => by simp at hfuel
  | _, _, fuel + 1, close, .nil hb, hclose, _ => (gets_terms_nil hclose).blanks hb
  | _, _, fuel + 1, close, .one hb hx, hclose, hfuel => by
    have hpos := hx.length_pos
    rw [List.length_append] at hfuel
    obtain ⟨fuel, rfl⟩ : ∃ n, fuel = n + 1 := ⟨fuel - 1, by omega⟩
    rw [List.append_assoc]
    exact (gets_terms_cons hclose hx (gets_term hx (by omega) (stops_close hclose).ends)
      (gets_terms_nil hclose)).blanks hb
  | _, _, fuel + 1, close, .cons hb hx hg has, hclose, hfuel => by
    have hpos := hx.length_pos
    simp only [List.length_append] at hfuel
    rw [List.append_assoc, List.append_assoc, List.append_assoc]
    exact (gets_terms_cons hclose hx (gets_term hx (by omega) (hg.stops _).ends)
      ((gets_terms has hclose (by omega)).blanks hg.blanks)).blanks hb

end

theorem call_of_spelled {name : String} {args : List Term} {b b' y s : List Char} {fuel : Nat}
    (hname : IsWord name) (hb : Blanks b) (hy : Term.SpelledAll args y) (hb' : Blanks b')
    (hfuel : 2 * y.length + 1 ≤ fuel) (o : Nat) :
    ∃ c, call fuel ⟨o, name.toList ++ (b ++ '(' :: (y ++ ')' :: (b' ++ '=' :: s)))⟩ = .ok ((name, args), c) ∧
      c.RestUpToBlanks s := by
  have hends : Ends (b ++ '(' :: (y ++ ')' :: (b' ++ '=' :: s))) := (hb.stops (stops_cons (by decide))).ends
  obtain ⟨o₁, hword⟩ := reads_word hname hends o
  have hexpect := gets_expect (x := '(') (by decide) (y ++ ')' :: (b' ++ '=' :: s))
  obtain ⟨c₂, hopen, hc₂⟩ := hexpect.blanks hb ⟨o₁, _⟩ (Cursor.restUpToBlanks_self ..)
  obtain ⟨c₃, hterms, hc₃⟩ := gets_terms hy (.inl rfl) hfuel c₂ hc₂
  obtain ⟨c₄, hequals, hc₄⟩ := (gets_expect (by decide) s).blanks hb' c₃ hc₃
  refine ⟨c₄, ?_, hc₄⟩
  simp only [call, hword, hopen, hterms, hequals, bind, Except.bind]
  rfl

end TreeReader

/-! ## Nodes -/

theorem Declaration.Spelled.exists_cons {d : Declaration} {x : List Char} (h : d.Spelled x) :
    ∃ c s, x = c :: s ∧ TreeReader.isWordChar c = true := by
  have hhead : ∀ {type : String}, IsWord type → ∀ marks r, ∃ c s, headText type marks ++ r = c :: s ∧
      TreeReader.isWordChar c = true := by
    intro type htype marks r
    obtain ⟨c, s, hw, hc⟩ := htype.exists_cons
    exact ⟨c, s ++ marks.flatMap HeadMark.text ++ r, by rw [headText, hw]; rfl, hc⟩
  cases h with
  | bare htype _ =>
    obtain ⟨c, s, hx, hc⟩ := hhead htype _ []
    exact ⟨c, s, by rwa [List.append_nil] at hx, hc⟩
  | body htype _ _ _ => exact hhead htype _ _

/-- An entry begins with a word or with the sign of a call. -/
theorem Entry.Spelled.exists_cons {e : Entry} {x : List Char} (h : e.Spelled x) :
    ∃ c s, x = c :: s ∧ isBlank c = false ∧ c ≠ '{' := by
  cases h with
  | child hd =>
    obtain ⟨c, s, hx, hc⟩ := hd.exists_cons
    refine ⟨c, s, hx, isBlank_eq_false_of_isWordChar hc, ?_⟩
    rintro rfl
    exact absurd hc (by decide)
  | @derived proxied =>
    refine ⟨_, _, rfl, ?_⟩
    cases proxied <;> decide

theorem Entry.Spelled.length_pos {e : Entry} {x : List Char} (h : e.Spelled x) : 0 < x.length := by
  obtain ⟨_, _, rfl, _⟩ := h.exists_cons
  exact Nat.succ_pos _

namespace TreeReader

variable {t : List Char}

structure After (s : List Char) : Prop where
  stops : Stops s
  no_body : ∀ x ∈ (s.dropWhile isBlank).head?, x ≠ '{'

theorem after_blanks {b : List Char} (hb : Blanks b) : After b where
  stops := by
    have hstops := hb.stops stops_nil
    rwa [List.append_nil] at hstops
  no_body := by
    rw [List.dropWhile_eq_nil_iff.2 hb]
    nofun

theorem after_close : After ('}' :: t) where
  stops := stops_cons (by decide)
  no_body := by
    rw [List.dropWhile_cons_of_neg (by decide)]
    rintro _ ⟨⟩
    decide

/-- Entries do not begin the way that a body does. -/
theorem no_body_of_spelled {es : List Entry} {y : List Char} (h : Entry.SpelledAll es y) :
    ∀ x ∈ ((y ++ '}' :: t).dropWhile isBlank).head?, x ≠ '{' := by
  have hentry : ∀ {e : Entry} {b x : List Char}, Blanks b → e.Spelled x → ∀ s,
      ∀ c ∈ ((b ++ (x ++ s)).dropWhile isBlank).head?, c ≠ '{' := by
    intro e b x hb hx s
    obtain ⟨c, r, rfl, hblank, hc⟩ := hx.exists_cons
    rw [Cursor.dropWhile_blanks hb, List.cons_append, List.dropWhile_cons_of_neg (by simp [hblank])]
    rintro _ ⟨⟩
    exact hc
  cases h with
  | nil hb =>
    rw [Cursor.dropWhile_blanks hb]
    exact after_close.no_body
  | one hb hx =>
    rw [List.append_assoc]
    exact hentry hb hx _
  | cons hb hx _ _ =>
    rw [List.append_assoc, List.append_assoc]
    exact hentry hb hx _

theorem after_gap {es : List Entry} {g y : List Char} (hg : Gap g) (h : Entry.SpelledAll es y) :
    After (g ++ (y ++ '}' :: t)) where
  stops := hg.stops _
  no_body := by
    rw [Cursor.dropWhile_blanks hg.blanks]
    exact no_body_of_spelled h

theorem gets_body_nil {fuel : Nat} {type : String} : Gets (body (fuel + 1) type) ('}' :: t) [] t := by
  intro c hc
  obtain ⟨o, ho⟩ := hc.exists_skip (by decide)
  refine ⟨⟨o + 1, t⟩, ?_, Cursor.restUpToBlanks_self ..⟩
  rw [body, ho]
  rfl

/-- A reader of bodies at one more child. -/
theorem gets_body_child {d : Declaration} {es : List Entry} {fuel : Nat} {type : String} {x u : List Char}
    (hx : d.Spelled x) (hd : Gets (declaration fuel) (x ++ u) d u) (hes : Gets (body fuel type) u es t) :
    Gets (body (fuel + 1) type) (x ++ u) (.child d :: es) t := by
  intro c hc
  obtain ⟨y, s, rfl, hy⟩ := hx.exists_cons
  obtain ⟨o, ho⟩ := hc.exists_skip (isBlank_eq_false_of_isWordChar hy)
  obtain ⟨c₁, hdeclaration, hc₁⟩ := hd ⟨o, _⟩ (Cursor.restUpToBlanks_self ..)
  obtain ⟨c₂, hbody, hc₂⟩ := hes c₁ hc₁
  refine ⟨c₂, ?_, hc₂⟩
  rw [body, ho]
  split
  · rename_i h
    cases h
  · rename_i h
    cases h
    exact absurd hy (by decide)
  · rename_i h
    cases h
    have hsign : (y == '.' || y == '~') = false := by
      by_contra hsign
      rcases Bool.or_eq_true_iff.1 (Bool.eq_true_of_not_eq_false hsign) with hsign | hsign <;>
        · rw [beq_iff_eq.1 hsign] at hy
          exact absurd hy (by decide)
    rw [List.cons_append] at hdeclaration
    simp only [hsign, Bool.false_eq_true, if_false, List.append_eq, hdeclaration, hbody, bind, Except.bind]
    rfl

/-- A reader of bodies at one more call. -/
theorem gets_body_derived {proxied : Bool} {name : String} {args : List Term} {d : Declaration} {es : List Entry}
    {fuel : Nat} {type : String} {s x u : List Char}
    (hcall : ∀ o, ∃ c, call fuel ⟨o, s⟩ = .ok ((name, args), c) ∧ c.RestUpToBlanks (x ++ u))
    (hd : Gets (declaration fuel) (x ++ u) d u) (hes : Gets (body fuel type) u es t) :
    Gets (body (fuel + 1) type) ((if proxied then '~' else '.') :: s) (.derived proxied name args d :: es) t := by
  intro c hc
  obtain ⟨o, ho⟩ := hc.exists_skip (by cases proxied <;> decide)
  obtain ⟨c₁, hcall, hc₁⟩ := hcall (o + 1)
  obtain ⟨c₂, hdeclaration, hc₂⟩ := hd c₁ hc₁
  obtain ⟨c₃, hbody, hc₃⟩ := hes c₂ hc₂
  refine ⟨c₃, ?_, hc₃⟩
  rw [body, ho]
  cases proxied with
  | false =>
    simp [hcall, hdeclaration, hbody, bind, Except.bind, pure, Except.pure]
  | true =>
    simp [hcall, hdeclaration, hbody, bind, Except.bind, pure, Except.pure]

mutual

theorem gets_declaration {t : List Char} : ∀ {d : Declaration} {x : List Char} {fuel : Nat}, d.Spelled x →
    2 * x.length ≤ fuel → After t → Gets (declaration fuel) (x ++ t) d t
  | _, _, 0, h, hfuel, _ => by
    obtain ⟨_, _, rfl, _⟩ := h.exists_cons
    simp at hfuel
  | _, _, fuel + 1, @Declaration.Spelled.bare _ ms htype hms, hfuel, ht => by
    intro c hc
    have hlength := length_headText htype ms
    have hmarks : ms.length < fuel := by omega
    obtain ⟨o, hhead⟩ := head_of_headText htype hms hmarks ht.stops hc
    -- To look for a body the reader has to pass over the blanks after the head, which are not the node's own.
    have heat : (Cursor.skipBlanks ⟨o, t⟩).eat '{' = none := Cursor.eat_eq_none ht.no_body _
    refine ⟨Cursor.skipBlanks ⟨o, t⟩, ?_, (Cursor.restUpToBlanks_self o t).skipBlanks⟩
    simp only [declaration, hhead, heat, bind, Except.bind]
    rfl
  | _, _, fuel + 1, @Declaration.Spelled.body type ms es b y htype hms hb hy, hfuel, ht => by
    intro c hc
    have hlength := length_headText htype ms
    simp only [List.length_append, List.length_cons, List.length_nil] at hfuel
    have hmarks : ms.length < fuel := by omega
    simp only [List.append_assoc, List.cons_append, List.nil_append] at hc
    have hstops : Stops (b ++ '{' :: (y ++ '}' :: t)) := hb.stops (stops_cons (by decide))
    obtain ⟨o, hhead⟩ := head_of_headText htype hms hmarks hstops hc
    have hopen : Cursor.RestUpToBlanks ⟨o, b ++ '{' :: (y ++ '}' :: t)⟩ ('{' :: (y ++ '}' :: t)) :=
      (Cursor.restUpToBlanks_self ..).of_blanks hb
    obtain ⟨o₁, hskip⟩ := hopen.exists_skip (by decide)
    have hentries : Gets (body fuel (TreeHead.marked type ms).type) (y ++ '}' :: t) es t :=
      gets_body hy (by omega)
    obtain ⟨c₂, hbody, hc₂⟩ := hentries ⟨o₁ + Char.utf8Size '{', _⟩ (Cursor.restUpToBlanks_self ..)
    refine ⟨c₂, ?_, hc₂⟩
    simp only [declaration, hhead, hskip, Cursor.eat_cons, hbody, bind, Except.bind]
    rfl

/-- A reader of bodies at one more entry. -/
theorem gets_body_cons {t u : List Char} : ∀ {e : Entry} {es : List Entry} {x : List Char} {fuel : Nat}
    {type : String}, e.Spelled x → 2 * x.length ≤ fuel → After u → Gets (body fuel type) u es t →
    Gets (body (fuel + 1) type) (x ++ u) (e :: es) t
  | _, _, _, _, _, .child hd, hfuel, hu, hes => gets_body_child hd (gets_declaration hd hfuel hu) hes
  | _, _, _, fuel, _, .derived (y := y) (x := x) (d := d) hname hb hargs hb' hb'' hd, hfuel, hu, hes => by
    simp only [List.length_append, List.length_cons] at hfuel
    have hdeclaration : Gets (declaration fuel) (x ++ u) d u := gets_declaration hd (by omega) hu
    have hcall : 2 * y.length + 1 ≤ fuel := by omega
    simp only [List.append_assoc, List.cons_append]
    refine gets_body_derived (fun o => ?_) hdeclaration hes
    obtain ⟨c, hcall, hc⟩ := call_of_spelled hname hb hargs hb' hcall o
    exact ⟨c, hcall, hc.of_blanks hb''⟩

theorem gets_body {t : List Char} : ∀ {es : List Entry} {y : List Char} {fuel : Nat} {type : String},
    Entry.SpelledAll es y → 2 * y.length + 1 ≤ fuel → Gets (body fuel type) (y ++ '}' :: t) es t
  | _, _, 0, _, _, hfuel => by simp at hfuel
  | _, _, fuel + 1, _, .nil hb, _ => gets_body_nil.blanks hb
  | _, _, fuel + 1, _, .one hb hx, hfuel => by
    have hpos := hx.length_pos
    rw [List.length_append] at hfuel
    obtain ⟨fuel, rfl⟩ : ∃ n, fuel = n + 1 := ⟨fuel - 1, by omega⟩
    rw [List.append_assoc]
    exact (gets_body_cons hx (by omega) after_close gets_body_nil).blanks hb
  | _, _, fuel + 1, _, .cons hb hx hg hes, hfuel => by
    have hpos := hx.length_pos
    simp only [List.length_append] at hfuel
    rw [List.append_assoc, List.append_assoc, List.append_assoc]
    exact (gets_body_cons hx (by omega) (after_gap hg hes)
      ((gets_body hes (by omega)).blanks hg.blanks)).blanks hb

end

theorem whole_of_text {d : Declaration} {text : List Char} (h : d.Text text) : whole text = .ok d := by
  obtain ⟨b, x, b', hb, hx, hb', rfl⟩ := h
  have hfuel : 2 * x.length ≤ 2 * (b ++ (x ++ b')).length + 2 := by
    simp only [List.length_append]
    omega
  obtain ⟨c, hdeclaration, hc⟩ := (gets_declaration hx hfuel (after_blanks hb')).blanks hb ⟨0, _⟩
    (Cursor.restUpToBlanks_self ..)
  have hrest : c.skipBlanks.rest = [] := hc.trans (List.dropWhile_eq_nil_iff.2 hb')
  simp only [whole, hdeclaration, hrest, bind, Except.bind]
  rfl

end TreeReader

/-! ## Trees -/

namespace Tree

/-- A text that describes a tree is read, and it gives this tree. -/
theorem ofText_described {d : Declaration} {text : String} (h : d.Text text.toList)
    (hrefs : ∀ l ∈ d.refs, ∃ node ∈ d.nodes, node.label = some l) : ofText text = .ok d.tree := by
  rw [ofText, TreeReader.whole_of_text h]
  simp only [bind, Except.bind, Declaration.plant_eq hrefs]
  rfl

/-! ### A shop with all sorts of arguments, one of which refers to a later node -/

/-- The braces are written as numbers. -/
def shopText : String :=
  "Shop@1:1-9:1!hidden!external!visible \x7b\n ~find(\"x\", $page,[-3 out:log true] ) = Book\x7b\x7d\n" ++
    ",Page#page \x7d\n"

def shop : Declaration :=
  .node (.marked "Shop" [.span (.ofLineColumns 1 1 9 1), .flag .hidden, .flag .external, .flag .visible])
    [.derived true "find" [.string "x", .ref "page", .collection [.integer (-3), .stream "log", .bool true]]
      (.node (.marked "Book" []) []),
    .child (.node (.marked "Page" [.label "page"]) [])]

def shopTree : Tree where
  nodes := #[
    { type := "Shop", span := some (.ofLineColumns 1 1 9 1), external := true, visible := some true,
      children := #[3] },
    { type := "Proxy", parent := some 0 }, { type := "Book", parent := some 1 },
    { type := "Page", label := some "page", parent := some 0 }]
  derived := #[⟨0, "find", [.string "x", .node (some 3),
    .collection [.integer (-3), .stream "log", .bool true]], 2⟩]

theorem text_shop : shop.Text shopText.toList := by
  have hword : ∀ w ∈ ["Shop", "find", "page", "log", "Book", "Page"], IsWord w := by
    intro w hw
    simp only [List.mem_cons, List.not_mem_nil, or_false] at hw
    obtain rfl | rfl | rfl | rfl | rfl | rfl := hw <;> exact isWord_of_all (by decide) (by decide)
  have hempty : Blanks [] := nofun
  have hspace : Gap [' '] := ⟨by decide, List.all_eq_true.1 (by decide)⟩
  have hcomma : Gap [','] := ⟨by decide, List.all_eq_true.1 (by decide)⟩
  have hcommaSpace : Gap [',', ' '] := ⟨by decide, List.all_eq_true.1 (by decide)⟩
  have hlineComma : Gap ['\n', ','] := ⟨by decide, List.all_eq_true.1 (by decide)⟩
  have hline : Blanks ['\n'] := List.all_eq_true.1 (by decide)
  have hlineSpace : Blanks ['\n', ' '] := List.all_eq_true.1 (by decide)
  have hmarks : ∀ m ∈ [HeadMark.span (.ofLineColumns 1 1 9 1), .flag .hidden, .flag .external, .flag .visible],
      m.Proper := by
    intro m hm
    simp only [List.mem_cons, List.not_mem_nil, or_false] at hm
    obtain rfl | rfl | rfl | rfl := hm <;> trivial
  have hlabel : ∀ m ∈ [HeadMark.label "page"], m.Proper := by
    intro m hm
    rw [List.mem_singleton.1 hm]
    exact hword "page" (by simp)
  have hitems := Term.SpelledAll.cons hempty (.integer (-3)) hspace
    (.cons hempty (.stream (hword "log" (by simp))) hspace (.one hempty (.keyword (w := "true") (.head _))))
  have hargs := Term.SpelledAll.cons hempty (.string (s := "x") (by decide)) hcommaSpace
    (.cons hempty (.ref (hword "page" (by simp))) hcomma
      (.cons hempty (.collection hitems) hspace (.nil hempty)))
  have hbook : Declaration.Spelled (.node (.marked "Book" []) []) _ :=
    .body (hword "Book" (by simp)) nofun hempty (.nil hempty)
  have hfind : Entry.Spelled (.derived true "find" _ _) _ :=
    .derived (hword "find" (by simp)) hempty hargs hspace.blanks hspace.blanks hbook
  have hpage := Entry.Spelled.child (.bare (hword "Page" (by simp)) hlabel)
  have hbody := Entry.SpelledAll.cons hlineSpace hfind hlineComma (.cons hempty hpage hspace (.nil hempty))
  refine ⟨[], _, ['\n'], hempty, .body (hword "Shop" (by simp)) hmarks hspace.blanks hbody, hline, ?_⟩
  decide +kernel

theorem ofText_described_shop : shop.Text shopText.toList ∧
    (∀ l ∈ shop.refs, ∃ node ∈ shop.nodes, node.label = some l) ∧ ofText shopText = .ok shopTree := by
  have hrefs : ∀ l ∈ shop.refs, ∃ node ∈ shop.nodes, node.label = some l := by
    decide +kernel
  have htree : shop.tree = shopTree := by rfl
  exact ⟨text_shop, hrefs, htree ▸ ofText_described text_shop hrefs⟩

end Tree

end Waymark
