import Waymark.Proofs.Tree.Growing
import Waymark.Proofs.Tree.Locatable

/-!
# Reading a tree is safe

Whatever the text is, a scan of it ends and answers what the readers answer. It cuts no character in two, looks
at nothing beyond the end and turns to no node or call that is not there. Every offset in a fault has whole
characters before it.
-/

namespace Waymark

/-- What a reader answers at a place of the text: a fault that points into the text, or something with a later
place. -/
structure Cursor.Advances {α : Type} (text : List Char) (c : Cursor) (r : Except TreeFault (α × Cursor)) : Prop where
  ok : ∀ a c', r = .ok (a, c') → c'.In text ∧ c.offset < c'.offset
  error : ∀ f, r = .error f → f.PointsInto text

namespace Scanner

open Scan Input

variable {α β : Type} {text : List Char} {c : Cursor} {s : Scan}

theorem Tracks.advances {V : β → α → Scan → Prop} {m : Option (Except Stop α × Scan)} {enough : Prop}
    {r : Except TreeFault (β × Cursor)} (h : Tracks text V m r) (hc : c.In text)
    (hr : TreeReader.Proceeds 1 enough c r) (henough : enough) : c.Advances text r where
  ok := by
    rintro b c' rfl
    obtain ⟨_, _, _, hs, _⟩ := h
    exact ⟨hs.place, hc.offset_lt hs.place hr⟩
  error := by
    rintro f rfl
    rcases h with rfl | ⟨_, _, _, hf⟩
    · exact absurd rfl (hr henough)
    · exact hf

/-- A scan has come to this answer and was sound on its way. A fault points into the text. -/
def Answers (text : List Char) (m : Option (Except Stop α × Scan)) (r : Except TreeFault α) : Prop :=
  ∃ s, m = some (r.mapError .fault, s) ∧ s.Sound text ∧ ∀ f, r = .error f → f.PointsInto text

theorem ofLabels_answers (h : s.Sound text) (r : Except String α) :
    Answers text ((ofLabels r).outcome s) (r.mapError .unknownLabel) := by
  cases r with
  | ok a => exact ⟨s, rfl, h, nofun⟩
  | error label =>
    refine ⟨s, rfl, h, ?_⟩
    rintro _ ⟨⟩
    trivial

theorem finish_answers {d : Declaration} (hs : s.AtCursor text c) (hb : s.Bears (Sapling.ofDeclaration d)) :
    Answers text ((finish text).outcome s)
      (if c.skipBlanks.rest.isEmpty then d.plant.mapError .unknownLabel
        else .error (.trailing c.skipBlanks.offset c.skipBlanks.rest)) := by
  obtain ⟨s', hskip, hs', hsame⟩ := outcome_skipBlanks hs
  have hlt := hs'.place.offset_lt_iff
  rw [finish, outcome_bind_ok hskip, outcome_here_bind, hs'.pos]
  by_cases hrest : c.skipBlanks.rest = []
  · rw [if_neg (by simp [hlt, hrest]), if_pos (by simp [hrest]), outcome_settle_plant (hb.of_sameTree hsame)]
    exact ofLabels_answers hs'.sound d.plant
  · rw [if_pos (hlt.2 hrest), if_neg (by simp [hrest]), outcome_here_bind, outcome_rest_bind hs', hs'.pos]
    refine ⟨s', rfl, hs'.sound, ?_⟩
    rintro _ ⟨⟩
    exact hs'.place

end Scanner

theorem Tree.ofText_eq (text : String) : Tree.ofText text =
    TreeReader.declaration (2 * text.toList.length + 2) ⟨0, text.toList⟩ >>= fun x =>
      if x.2.skipBlanks.rest.isEmpty then x.1.plant.mapError .unknownLabel
      else .error (.trailing x.2.skipBlanks.offset x.2.skipBlanks.rest) := by
  rw [Tree.ofText, TreeReader.whole]
  cases TreeReader.declaration (2 * text.toList.length + 2) ⟨0, text.toList⟩ with
  | error f => rfl
  | ok x =>
    dsimp only [bind, Except.bind]
    cases x.2.skipBlanks.rest.isEmpty with
    | false => rfl
    | true =>
      rw [if_pos rfl, if_pos rfl]
      dsimp only [pure, Except.pure]
      cases x.1.plant <;> rfl

open Scanner in
theorem Scan.ofText_answers (text : String) : Answers text.toList (Scan.ofText text) (Tree.ofText text) := by
  have hstart : Cursor.In text.toList ⟨0, text.toList⟩ := Text.from?_eq_some_iff.2 ⟨[], rfl, rfl⟩
  have htracks := declaration_tracks (2 * text.toList.length + 2) hstart
  have hproceeds := TreeReader.declaration_proceeds (2 * text.toList.length + 2) ⟨0, text.toList⟩
  rw [Tree.ofText_eq, Scan.ofText, Input.tree]
  cases hd : TreeReader.declaration (2 * text.toList.length + 2) ⟨0, text.toList⟩ with
  | error f =>
    rw [hd] at htracks hproceeds
    rcases htracks with rfl | ⟨s, hnode, hsound, hf⟩
    · exact absurd rfl (hproceeds (Nat.le_succ _))
    · refine ⟨s, outcome_bind_error hnode _, hsound, ?_⟩
      rintro _ ⟨⟩
      exact hf
  | ok x =>
    rw [hd] at htracks
    obtain ⟨_, s, hnode, hs, hb⟩ := htracks
    rw [outcome_bind_ok hnode]
    exact finish_answers hs hb

/-- Every text is read safely, whether it describes a tree or not. A scan ends with the answer of the readers and
without a lapse. Wherever it was, whole characters were before it, and each call and each turn of a loop took some.
A fault points into the text. With two turns for each character that is left, the readers fail or get to a later
place of the text. -/
theorem Tree.ofText_safe (text : String) :
    (∃ s, Scan.ofText text = some ((Tree.ofText text).mapError .fault, s) ∧ s.Sound text.toList) ∧
    (∀ f, Tree.ofText text = .error f → f.PointsInto text.toList) ∧
    ∀ (fuel : Nat) (c : Cursor), c.In text.toList → 2 * c.rest.length < fuel →
      c.Advances text.toList (TreeReader.declaration fuel c) ∧
      c.Advances text.toList (TreeReader.call fuel c) ∧
      c.Advances text.toList (TreeReader.term fuel c) := by
  obtain ⟨s, hscan, hsound, hfault⟩ := Scan.ofText_answers text
  refine ⟨⟨s, hscan, hsound⟩, hfault, fun fuel c hc hfuel => ⟨?_, ?_, ?_⟩⟩
  · have hnode := Scanner.declaration_tracks fuel hc
    exact hnode.advances hc (TreeReader.declaration_proceeds fuel c) hfuel
  · have hcall := Scanner.call_follows fuel c _ (Scan.atCursor_of_in hc)
    exact hcall.advances hc (TreeReader.call_proceeds fuel c) (Nat.le_of_lt hfuel)
  · have hterm := Scanner.term_follows fuel c _ (Scan.atCursor_of_in hc)
    exact hterm.advances hc (TreeReader.term_proceeds fuel c) hfuel

/-- A call whose argument cannot be read, after characters of two bytes. -/
def Tree.unfinishedText : String := "Wörter \x7b .é(§"

theorem Tree.ofText_safe_unfinished :
    Tree.ofText Tree.unfinishedText = .error (.expectedName 14 ['§']) ∧
    Cursor.In Tree.unfinishedText.toList ⟨14, ['§']⟩ ∧
    (∃ s, Scan.ofText Tree.unfinishedText = some (.error (.fault (.expectedName 14 ['§'])), s) ∧
      s.Sound Tree.unfinishedText.toList) ∧
    Cursor.Advances Tree.unfinishedText.toList ⟨11, ['é', '(', '§']⟩ (TreeReader.call 7 ⟨11, ['é', '(', '§']⟩) := by
  have hread : Tree.ofText Tree.unfinishedText = .error (.expectedName 14 ['§']) := by decide +kernel
  have hplace : Cursor.In Tree.unfinishedText.toList ⟨11, ['é', '(', '§']⟩ := by
    unfold Cursor.In
    decide
  obtain ⟨hscan, hfault, hreaders⟩ := Tree.ofText_safe Tree.unfinishedText
  rw [hread] at hscan
  exact ⟨hread, hfault _ hread, hscan, (hreaders 7 _ hplace (by decide)).2.1⟩

end Waymark
