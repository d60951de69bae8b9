/-!
# Type names by number

A registry gives each type name it meets the next free number and keeps it. Names are looked up by their
numbers and numbers by their names, and the two ways agree. A number is handed out as a word of 32 bits:
up to `2 ^ 32` names, no two of them have the same word.
-/

namespace Waymark

structure TypeTag where
  index : Nat
  deriving DecidableEq, Repr

/-- Numbers below `2 ^ 32` are told apart by their words. -/
theorem toUInt32_inj {i j n : Nat} (hn : n ≤ UInt32.size) (hi : i < n) (hj : j < n)
    (h : i.toUInt32 = j.toUInt32) : i = j := by
  have hmod : i % UInt32.size = j % UInt32.size := congrArg UInt32.toNat h
  rwa [Nat.mod_eq_of_lt (Nat.lt_of_lt_of_le hi hn), Nat.mod_eq_of_lt (Nat.lt_of_lt_of_le hj hn)] at hmod

structure TypeRegistry where
  names : Array String := #[]
  byName : List (String × TypeTag) := []
  inverse : ∀ name tag, byName.lookup name = some tag ↔ names[tag.index]? = some name := by simp

namespace TypeRegistry

def size (r : TypeRegistry) : Nat := r.names.size

def find? (r : TypeRegistry) (name : String) : Option TypeTag := r.byName.lookup name

def name? (r : TypeRegistry) (tag : TypeTag) : Option String := r.names[tag.index]?

def push (r : TypeRegistry) (name : String) (hnew : r.find? name = none) : TypeRegistry where
  names := r.names.push name
  byName := (name, ⟨r.size⟩) :: r.byName
  inverse x tag := by
    obtain ⟨i⟩ := tag
    rw [Array.getElem?_push]
    by_cases hx : x = name
    · subst hx
      have hold : r.names[i]? ≠ some x := fun h => by
        rw [find?, (r.inverse x ⟨i⟩).2 h] at hnew
        cases hnew
      by_cases hi : i = r.names.size
      · simp [hi, size]
      · simp [hi, hold, size, Ne.symm hi]
    · have hlookup : ((name, (⟨r.size⟩ : TypeTag)) :: r.byName).lookup x = r.byName.lookup x := by
        rw [List.lookup_cons, beq_false_of_ne hx]
      rw [hlookup, r.inverse]
      by_cases hi : i = r.names.size
      · simp [hi, Ne.symm hx]
      · simp [hi]

def intern (r : TypeRegistry) (name : String) : TypeTag × TypeRegistry :=
  match h : r.find? name with
  | some tag => (tag, r)
  | none => (⟨r.size⟩, r.push name h)

variable {r : TypeRegistry} {name : String} {a b : TypeTag}

theorem find?_eq_some_iff : r.find? name = some a ↔ r.name? a = some name := r.inverse name a

/-- A name has one number. -/
theorem name?_inj (ha : r.name? a = some name) (hb : r.name? b = some name) : a = b := by
  rw [← find?_eq_some_iff] at ha hb
  rw [ha] at hb
  exact Option.some.inj hb

/-- The words of up to `2 ^ 32` numbers are different. -/
theorem eq_of_word_eq {x y : String} (hr : r.size ≤ UInt32.size) (ha : r.name? a = some x) (hb : r.name? b = some y)
    (h : a.index.toUInt32 = b.index.toUInt32) : a = b := by
  have hindex := toUInt32_inj hr (Array.getElem?_eq_some_iff.1 ha).1 (Array.getElem?_eq_some_iff.1 hb).1 h
  cases a
  cases b
  exact congrArg TypeTag.mk hindex

end TypeRegistry

end Waymark
