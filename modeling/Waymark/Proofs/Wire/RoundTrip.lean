import Waymark.Proofs.Json.ReadWrite
import Waymark.Wire.Locator

/-!
# Locators through their text

A locator that was written is read again, unless its text nests too many arrays and objects inside
one another. Other spellings of a locator are read too, but none of them nests less than the
written form, so whatever was accepted once can be written and is accepted again.
-/

namespace Waymark

/-! ## Nesting -/

namespace Json

mutual

def nesting : Json → Nat
  | .array items => nestingItems items + 1
  | .object fields => nestingFields fields + 1
  | _ => 0

def nestingItems : List Json → Nat
  | [] => 0
  | x :: xs => max x.nesting (nestingItems xs)

def nestingFields : List (Option String × Json) → Nat
  | [] => 0
  | (_, x) :: xs => max x.nesting (nestingFields xs)

end

@[simp] theorem nesting_text (s : Option String) : (Json.text s).nesting = 0 := rfl

@[simp] theorem nesting_string (s : String) : (Json.string s).nesting = 0 := rfl

@[simp] theorem nesting_nat (n : Nat) : (Json.nat n).nesting = 0 := rfl

@[simp] theorem nesting_bool (b : Bool) : (Json.bool b).nesting = 0 := rfl

@[simp] theorem nesting_integer (i : Int) : (Json.integer i).nesting = 0 := rfl

@[simp] theorem nesting_null : Json.null.nesting = 0 := rfl

@[simp] theorem nesting_array (items : List Json) :
    (Json.array items).nesting = nestingItems items + 1 := rfl

theorem nesting_record (fields : List (String × Json)) :
    (Json.record fields).nesting = nestingItems (fields.map Prod.snd) + 1 := by
  rw [record, nesting]
  congr 1
  induction fields with
  | nil => rfl
  | cons f fs ih => simp [nestingFields, nestingItems, ih]

theorem inRange_record (fields : List (String × Json)) :
    (Json.record fields).inRange = inRangeItems (fields.map Prod.snd) := by
  rw [record, inRange]
  induction fields with
  | nil => rfl
  | cons f fs ih => simp [inRangeFields, inRangeItems, ih]

end Json

open Json

/-! ## Fingerprints -/

theorem Fingerprint.nesting_toJson (f : Fingerprint) : f.toJson.nesting = 1 := by
  obtain ⟨type, label, span, depth, external⟩ := f
  rw [Fingerprint.toJson, nesting_record]
  cases label <;> cases external <;> simp [nestingItems]

namespace Wire

theorem uint32_toNat (room : Nat) (x : UInt32) : uint32 room (.nat x.toNat) = some x := by
  have hx : x.toNat < UInt32.size := x.toNat_lt_size
  simp [uint32, Json.nat, natBelow, hx]

theorem uint64_toNat (room : Nat) (x : UInt64) : uint64 room (.nat x.toNat) = some x := by
  have hx : x.toNat < UInt64.size := x.toNat_lt_size
  simp [uint64, Json.nat, natBelow, hx]

theorem int64_toInt (room : Nat) (x : Int64) : int64 room (.integer x.toInt) = some x := by
  have h : Int64.minValue.toInt ≤ x.toInt ∧ x.toInt ≤ Int64.maxValue.toInt :=
    ⟨x.minValue_le_toInt, x.toInt_le⟩
  rw [int64, if_pos h, Int64.ofInt_toInt]

theorem fingerprint_toJson (f : Fingerprint) (room : Nat) :
    fingerprint room f.toJson = if 1 ≤ room then some f else none := by
  cases room with
  | zero => rfl
  | succ room =>
    obtain ⟨type, label, ⟨start, stop⟩, depth, external⟩ := f
    cases label <;> cases external <;>
      simp [fingerprint, Fingerprint.toJson, fields, record, only, required, withDefault, nullable,
        string, Json.string, bool, uint32_toNat]

/-! ## Decoding what was encoded -/

theorem nesting_variantJson (name : String) (content : Json) :
    (variantJson name content).nesting = content.nesting + 1 := by
  simp [variantJson, nesting_record, nestingItems]

theorem variant_variantJson (names : List String) (how : Reading) (room : Nat) (name : String)
    (content : Json) :
    variant names how room (variantJson name content) = some ⟨name, some content, how⟩ := by
  simp [variant, variantJson, record, nameField, Json.string]

theorem nesting_call (name : String) (args : List Arg) :
    (Call.toJson ⟨name, args⟩).nesting = nestingItems (Arg.toJsonList args) + 2 := by
  simp [Call.toJson, nesting_record, nestingItems]

theorem nesting_locator (result : Fingerprint) (steps : List Step) :
    (Locator.toJson ⟨result, steps⟩).nesting = nestingItems (Step.toJsonList steps) + 2 := by
  simp [Locator.toJson, nesting_record, nestingItems, Fingerprint.nesting_toJson]

/-- A limit on the content, seen from one level further out. -/
theorem map_ite_some {α β : Type} (f : α → β) (a : α) (m room : Nat) :
    (if m ≤ room then some a else none).map f =
      if m + 1 ≤ room + 1 then some (f a) else none := by
  by_cases h : m ≤ room
  · simp [h]
  · simp [h]

mutual

theorem readStep_toJson : ∀ (s : Step) (how : Reading) (room : Nat),
    readStep how room s.toJson = if s.toJson.nesting ≤ room then some s else none
  | s, how, 0 => by
    have h : s.toJson.nesting ≠ 0 := by cases s <;> simp [Step.toJson, nesting_variantJson]
    simp [readStep, h]
  | .nearest f, how, room + 1 => by
    simp only [Step.toJson, readStep, variant_variantJson, nesting_variantJson, fingerprint_toJson,
      Fingerprint.nesting_toJson]
    exact map_ite_some _ _ _ _
  | .child i, how, room + 1 => by
    simp [Step.toJson, readStep, variant_variantJson, nesting_variantJson, uint64_toNat]
  | .derived c, how, room + 1 => by
    simp only [Step.toJson, readStep, variant_variantJson, nesting_variantJson,
      readCall_toJson c how room]
    exact map_ite_some _ _ _ _

theorem readCall_toJson : ∀ (c : Call) (how : Reading) (room : Nat),
    readCall how room c.toJson = if c.toJson.nesting ≤ room then some c else none
  | ⟨name, args⟩, how, 0 => by simp [readCall, nesting_call]
  | ⟨name, args⟩, how, room + 1 => by
    have hf : fields ["name", "args"] (Call.toJson ⟨name, args⟩) =
        some [some (.string name), some (.array (Arg.toJsonList args))] := by
      simp [Call.toJson, fields, record, only]
    rw [readCall, hf, nesting_call]
    simp only [Option.pure_def, Option.bind_eq_bind, Option.bind_some, required, string, Json.string]
    cases room with
    | zero => simp [readArgs]
    | succ room =>
      rw [readArgs, mapM_readArg args how room]
      by_cases h : nestingItems (Arg.toJsonList args) ≤ room
      · simp [h]
      · simp [h]

theorem readArg_toJson : ∀ (a : Arg) (how : Reading) (room : Nat),
    readArg how room a.toJson = if a.toJson.nesting ≤ room then some a else none
  | a, how, 0 => by
    have h : a.toJson.nesting ≠ 0 := by
      cases a with
      | node l => cases l <;> simp [Arg.toJson, nesting_variantJson]
      | any => simp [Arg.toJson, nesting_record]
      | _ => simp [Arg.toJson, nesting_variantJson]
    simp [readArg, h]
  | .string s, how, room + 1 => by
    simp [Arg.toJson, readArg, variant_variantJson, nesting_variantJson, string, Json.string]
  | .integer i, how, room + 1 => by
    simp [Arg.toJson, readArg, variant_variantJson, nesting_variantJson, int64_toInt]
  | .bool b, how, room + 1 => by
    simp [Arg.toJson, readArg, variant_variantJson, nesting_variantJson, bool]
  | .collection items, how, room + 1 => by
    simp only [Arg.toJson, readArg, variant_variantJson, nesting_variantJson, nesting_array]
    cases room with
    | zero => simp [readArgs]
    | succ room =>
      rw [readArgs, mapM_readArg items how room, map_ite_some]
      simp
  | .stream name, how, room + 1 => by
    simp [Arg.toJson, readArg, variant_variantJson, nesting_variantJson, string, Json.string]
  | .node none, how, room + 1 => by
    simp [Arg.toJson, readArg, variant_variantJson, nesting_variantJson]
  | .node (some l), how, room + 1 => by
    -- A written locator is an object, so it is not mistaken for the absence of one.
    have hl : ∃ fs, l.toJson = .object fs := by cases l; exact ⟨_, by rw [Locator.toJson]; rfl⟩
    obtain ⟨fs, hfs⟩ := hl
    have hr := readLocator_toJson l how room
    simp only [Arg.toJson, readArg, variant_variantJson, nesting_variantJson]
    rw [hfs] at hr ⊢
    simp only [hr]
    exact map_ite_some _ _ _ _
  | .any, how, room + 1 => by
    have hn : Arg.any.toJson.nesting = 1 := by simp [Arg.toJson, nesting_record, nestingItems]
    rw [hn, if_pos (by omega)]
    simp [Arg.toJson, readArg, variant, record, nameField, Json.string]

theorem mapM_readArg : ∀ (args : List Arg) (how : Reading) (room : Nat),
    (Arg.toJsonList args).mapM (fun v => readArg how room v) =
      if nestingItems (Arg.toJsonList args) ≤ room then some args else none
  | [], how, room => by simp [Arg.toJsonList, nestingItems]
  | a :: as, how, room => by
    rw [Arg.toJsonList, List.mapM_cons, readArg_toJson a how room, mapM_readArg as how room,
      nestingItems]
    by_cases ha : a.toJson.nesting ≤ room <;>
      by_cases has : nestingItems (Arg.toJsonList as) ≤ room <;> simp [ha, has]

theorem readLocator_toJson : ∀ (l : Locator) (how : Reading) (room : Nat),
    readLocator how room l.toJson = if l.toJson.nesting ≤ room then some l else none
  | ⟨result, steps⟩, how, 0 => by simp [readLocator, nesting_locator]
  | ⟨result, steps⟩, how, room + 1 => by
    have hf : fields ["result", "steps"] (Locator.toJson ⟨result, steps⟩) =
        some [some result.toJson, some (.array (Step.toJsonList steps))] := by
      simp [Locator.toJson, fields, record, only]
    rw [readLocator, hf, nesting_locator]
    simp only [Option.pure_def, Option.bind_eq_bind, Option.bind_some, required, fingerprint_toJson]
    cases room with
    | zero => simp
    | succ room =>
      rw [readSteps, mapM_readStep steps how room]
      by_cases h : nestingItems (Step.toJsonList steps) ≤ room
      · simp [h]
      · simp [h]

theorem mapM_readStep : ∀ (steps : List Step) (how : Reading) (room : Nat),
    (Step.toJsonList steps).mapM (fun v => readStep how room v) =
      if nestingItems (Step.toJsonList steps) ≤ room then some steps else none
  | [], how, room => by simp [Step.toJsonList, nestingItems]
  | s :: ss, how, room => by
    rw [Step.toJsonList, List.mapM_cons, readStep_toJson s how room, mapM_readStep ss how room,
      nestingItems]
    by_cases hs : s.toJson.nesting ≤ room <;>
      by_cases hss : nestingItems (Step.toJsonList ss) ≤ room <;> simp [hs, hss]

end

/-! ## The written form nests least -/

theorem mapM_nesting {α : Type} {read : Json → Option α} {toJson : α → Json} {room : Nat}
    (hread : ∀ v a, read v = some a → (toJson a).nesting ≤ room) :
    ∀ {items : List Json} {as : List α}, items.mapM read = some as →
      nestingItems (as.map toJson) ≤ room
  | [], as, h => by
    cases h
    exact Nat.zero_le _
  | v :: vs, as, h => by
    simp only [List.mapM_cons, Option.bind_eq_bind, Option.bind_eq_some_iff, Option.pure_def,
      Option.some.injEq] at h
    obtain ⟨a, ha, bs, hbs, rfl⟩ := h
    exact Nat.max_le.2 ⟨hread v a ha, mapM_nesting hread hbs⟩

theorem toJsonList_args (args : List Arg) : Arg.toJsonList args = args.map Arg.toJson := by
  induction args with
  | nil => rfl
  | cons a as ih => rw [Arg.toJsonList, ih]; rfl

theorem toJsonList_steps (steps : List Step) : Step.toJsonList steps = steps.map Step.toJson := by
  induction steps with
  | nil => rfl
  | cons s ss ih => rw [Step.toJsonList, ih]; rfl

/-- Whatever is accepted with some room for nesting is written within that room. -/
structure NestsWithin (room : Nat) : Prop where
  fingerprint : ∀ v f, Wire.fingerprint room v = some f → f.toJson.nesting ≤ room
  step : ∀ how v s, readStep how room v = some s → s.toJson.nesting ≤ room
  steps : ∀ how v ss, readSteps how room v = some ss → nestingItems (Step.toJsonList ss) + 1 ≤ room
  call : ∀ how v c, readCall how room v = some c → c.toJson.nesting ≤ room
  arg : ∀ how v a, readArg how room v = some a → a.toJson.nesting ≤ room
  args : ∀ how v as, readArgs how room v = some as → nestingItems (Arg.toJsonList as) + 1 ≤ room
  locator : ∀ how v l, readLocator how room v = some l → l.toJson.nesting ≤ room

theorem nestsWithin_zero : NestsWithin 0 where
  fingerprint v f h := by cases h
  step how v s h := by simp [readStep] at h
  steps how v ss h := by simp [readSteps] at h
  call how v c h := by simp [readCall] at h
  arg how v a h := by simp [readArg] at h
  args how v as h := by simp [readArgs] at h
  locator how v l h := by simp [readLocator] at h

section
variable {room : Nat} (ih : NestsWithin room)
include ih

theorem NestsWithin.step_succ {how : Reading} {v : Json} {s : Step}
    (h : readStep how (room + 1) v = some s) : s.toJson.nesting ≤ room + 1 := by
  rw [readStep] at h
  split at h
  · obtain ⟨f, hf, rfl⟩ := Option.map_eq_some_iff.1 h
    rw [Step.toJson, nesting_variantJson]
    exact Nat.succ_le_succ (ih.fingerprint _ f hf)
  · obtain ⟨i, hi, rfl⟩ := Option.map_eq_some_iff.1 h
    simp [Step.toJson, nesting_variantJson]
  · obtain ⟨c, hc, rfl⟩ := Option.map_eq_some_iff.1 h
    rw [Step.toJson, nesting_variantJson]
    exact Nat.succ_le_succ (ih.call _ _ c hc)
  · cases h

theorem NestsWithin.steps_succ {how : Reading} {v : Json} {ss : List Step}
    (h : readSteps how (room + 1) v = some ss) :
    nestingItems (Step.toJsonList ss) + 1 ≤ room + 1 := by
  cases v with
  | array items =>
    rw [readSteps] at h
    rw [toJsonList_steps]
    exact Nat.succ_le_succ (mapM_nesting (fun v s hs => ih.step how v s hs) h)
  | _ => simp [readSteps] at h

theorem NestsWithin.call_succ {how : Reading} {v : Json} {c : Call}
    (h : readCall how (room + 1) v = some c) : c.toJson.nesting ≤ room + 1 := by
  obtain ⟨name, args⟩ := c
  rw [readCall] at h
  simp only [Option.pure_def, Option.bind_eq_bind, Option.bind_eq_some_iff] at h
  obtain ⟨fs, -, h⟩ := h
  split at h
  · simp only [Option.bind_eq_some_iff, Option.some.injEq] at h
    obtain ⟨n, -, as, has, he⟩ := h
    cases he
    rw [nesting_call]
    exact Nat.succ_le_succ (ih.args _ _ _ has)
  · cases h

theorem NestsWithin.arg_succ {how : Reading} {v : Json} {a : Arg}
    (h : readArg how (room + 1) v = some a) : a.toJson.nesting ≤ room + 1 := by
  rw [readArg] at h
  split at h
  · obtain ⟨x, hx, rfl⟩ := Option.map_eq_some_iff.1 h
    simp [Arg.toJson, nesting_variantJson]
  · obtain ⟨x, hx, rfl⟩ := Option.map_eq_some_iff.1 h
    simp [Arg.toJson, nesting_variantJson]
  · obtain ⟨x, hx, rfl⟩ := Option.map_eq_some_iff.1 h
    simp [Arg.toJson, nesting_variantJson]
  · obtain ⟨items, hi, rfl⟩ := Option.map_eq_some_iff.1 h
    rw [Arg.toJson, nesting_variantJson, nesting_array]
    exact Nat.succ_le_succ (ih.args _ _ items hi)
  · obtain ⟨x, hx, rfl⟩ := Option.map_eq_some_iff.1 h
    simp [Arg.toJson, nesting_variantJson]
  · cases h
    simp [Arg.toJson, nesting_variantJson]
  · cases h
    simp [Arg.toJson, nesting_variantJson]
  · obtain ⟨l, hl, rfl⟩ := Option.map_eq_some_iff.1 h
    rw [Arg.toJson, nesting_variantJson]
    exact Nat.succ_le_succ (ih.locator _ _ l hl)
  · cases h
    simp [Arg.toJson, nesting_record, nestingItems]
  · cases h
    simp [Arg.toJson, nesting_record, nestingItems]
  · cases h

theorem NestsWithin.args_succ {how : Reading} {v : Json} {as : List Arg}
    (h : readArgs how (room + 1) v = some as) :
    nestingItems (Arg.toJsonList as) + 1 ≤ room + 1 := by
  cases v with
  | array items =>
    rw [readArgs] at h
    rw [toJsonList_args]
    exact Nat.succ_le_succ (mapM_nesting (fun v a ha => ih.arg how v a ha) h)
  | _ => simp [readArgs] at h

theorem NestsWithin.locator_succ {how : Reading} {v : Json} {l : Locator}
    (h : readLocator how (room + 1) v = some l) : l.toJson.nesting ≤ room + 1 := by
  obtain ⟨result, steps⟩ := l
  rw [readLocator] at h
  simp only [Option.pure_def, Option.bind_eq_bind, Option.bind_eq_some_iff] at h
  obtain ⟨fs, -, h⟩ := h
  split at h
  · simp only [Option.bind_eq_some_iff, Option.some.injEq] at h
    obtain ⟨r, -, ss, hss, he⟩ := h
    cases he
    rw [nesting_locator]
    exact Nat.succ_le_succ (ih.steps _ _ _ hss)
  · cases h

end

theorem nestsWithin (room : Nat) : NestsWithin room := by
  induction room with
  | zero => exact nestsWithin_zero
  | succ room ih =>
    exact {
      fingerprint := fun v f _ => by rw [Fingerprint.nesting_toJson]; omega
      step := fun _ _ _ => ih.step_succ
      steps := fun _ _ _ => ih.steps_succ
      call := fun _ _ _ => ih.call_succ
      arg := fun _ _ _ => ih.arg_succ
      args := fun _ _ _ => ih.args_succ
      locator := fun _ _ _ => ih.locator_succ }

end Wire

/-! ## Text -/

theorem inRange_nat {n : Nat} (h : n < UInt64.size) : (Json.nat n).inRange = true := by
  have hm : Int64.minValue.toInt ≤ (n : Int) := Int.le_trans (by decide) (Int.natCast_nonneg n)
  have hn : (n : Int) < UInt64.size := by exact_mod_cast h
  rw [Json.nat, inRange, decide_eq_true hm, decide_eq_true hn]
  rfl

theorem Fingerprint.inRange_toJson (f : Fingerprint) : f.toJson.inRange = true := by
  have h32 : ∀ x : UInt32, (Json.nat x.toNat).inRange = true := fun x =>
    inRange_nat (Nat.lt_trans x.toNat_lt_size (by decide))
  obtain ⟨type, label, span, depth, external⟩ := f
  rw [Fingerprint.toJson, inRange_record]
  cases label <;> cases external <;> simp [inRangeItems, h32, Json.string, inRange]

theorem Wire.inRange_variantJson (name : String) (content : Json) :
    (variantJson name content).inRange = content.inRange := by
  rw [variantJson, inRange_record]
  simp [inRangeItems, Json.string, inRange]

mutual

theorem Step.inRange_toJson : ∀ s : Step, s.toJson.inRange = true
  | .nearest f => by rw [Step.toJson, Wire.inRange_variantJson, f.inRange_toJson]
  | .child i => by rw [Step.toJson, Wire.inRange_variantJson, inRange_nat i.toNat_lt_size]
  | .derived c => by rw [Step.toJson, Wire.inRange_variantJson, c.inRange_toJson]

theorem Call.inRange_toJson : ∀ c : Call, c.toJson.inRange = true
  | ⟨name, args⟩ => by
    rw [Call.toJson, inRange_record]
    simp [inRangeItems, inRange, Json.string, Arg.inRange_toJsonList args]

theorem Arg.inRange_toJson : ∀ a : Arg, a.toJson.inRange = true
  | .string s => by rw [Arg.toJson, Wire.inRange_variantJson]; rfl
  | .integer i => by
    have h : i.toInt < UInt64.size := Int.lt_of_le_of_lt i.toInt_le (by decide)
    rw [Arg.toJson, Wire.inRange_variantJson, inRange, decide_eq_true i.minValue_le_toInt,
      decide_eq_true h]
    rfl
  | .bool b => by rw [Arg.toJson, Wire.inRange_variantJson]; rfl
  | .collection items => by
    rw [Arg.toJson, Wire.inRange_variantJson, inRange, Arg.inRange_toJsonList items]
  | .stream name => by rw [Arg.toJson, Wire.inRange_variantJson]; rfl
  | .node none => by rw [Arg.toJson, Wire.inRange_variantJson]; rfl
  | .node (some l) => by rw [Arg.toJson, Wire.inRange_variantJson, l.inRange_toJson]
  | .any => by rw [Arg.toJson, inRange_record]; rfl

theorem Arg.inRange_toJsonList : ∀ as : List Arg, inRangeItems (Arg.toJsonList as) = true
  | [] => rfl
  | a :: as => by
    rw [Arg.toJsonList, inRangeItems, a.inRange_toJson, Arg.inRange_toJsonList as]
    rfl

theorem Locator.inRange_toJson : ∀ l : Locator, l.toJson.inRange = true
  | ⟨result, steps⟩ => by
    rw [Locator.toJson, inRange_record]
    simp [inRangeItems, inRange, result.inRange_toJson, Step.inRange_toJsonList steps]

theorem Step.inRange_toJsonList : ∀ ss : List Step, inRangeItems (Step.toJsonList ss) = true
  | [] => rfl
  | s :: ss => by
    rw [Step.toJsonList, inRangeItems, s.inRange_toJson, Step.inRange_toJsonList ss]
    rfl

end

/-- The text of a locator is read as the value that was written. -/
theorem Locator.read_toText (l : Locator) : Json.read l.toText.toList = some l.toJson := by
  rw [Locator.toText, render, String.toList_ofList, read_write l.inRange_toJson]

theorem Locator.ofText?_toText (l : Locator) :
    Locator.ofText? l.toText = if l.toJson.nesting ≤ Wire.maxNesting then some l else none := by
  rw [Locator.ofText?, Wire.parse, l.read_toText]
  exact Wire.readLocator_toJson l .direct Wire.maxNesting

theorem Locator.nesting_le_of_ofText? {t : String} {l : Locator} (h : Locator.ofText? t = some l) :
    l.toJson.nesting ≤ Wire.maxNesting := by
  rw [Locator.ofText?, Wire.parse, Option.bind_eq_some_iff] at h
  obtain ⟨v, -, hv⟩ := h
  exact (Wire.nestsWithin Wire.maxNesting).locator .direct v l hv

/-- The text of a locator stands for `l.toJson`. It is accepted, as the locator, exactly if no more
than 127 arrays and objects stand inside one another, and it is accepted whenever some other text
for the same locator is. -/
theorem Locator.toText_accepted (l : Locator) :
    Json.read l.toText.toList = some l.toJson ∧
      (Locator.ofText? l.toText = if l.toJson.nesting ≤ 127 then some l else none) ∧
      ∀ t : String, Locator.ofText? t = some l → Locator.ofText? l.toText = some l := by
  refine ⟨l.read_toText, l.ofText?_toText, fun t ht => ?_⟩
  rw [l.ofText?_toText, if_pos (Locator.nesting_le_of_ofText? ht)]

/-- A text that has arrays for all records and variants. -/
theorem Locator.toText_accepted_array :
    Locator.ofText? "[[\"A\",null,1,2,0],[[\"child\",3]]]" =
        some ⟨{ type := "A", span := ⟨1, 2⟩, depth := 0 }, [.child 3]⟩ ∧
      Locator.ofText? (Locator.toText ⟨{ type := "A", span := ⟨1, 2⟩, depth := 0 }, [.child 3]⟩) =
        some ⟨{ type := "A", span := ⟨1, 2⟩, depth := 0 }, [.child 3]⟩ := by
  have h : Locator.ofText? "[[\"A\",null,1,2,0],[[\"child\",3]]]" =
      some ⟨{ type := "A", span := ⟨1, 2⟩, depth := 0 }, [.child 3]⟩ := by cbv
  exact ⟨h, (Locator.toText_accepted _).2.2 _ h⟩

end Waymark
