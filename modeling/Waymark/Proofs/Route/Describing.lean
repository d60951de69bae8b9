import Waymark.Proofs.Snapshot.History

/-!
# Locators describe routes

Every locator that a snapshot gives, on any host and after any requests, is what is left of the route to
the node once blocks of hops are left out that a search accounts for.
-/

namespace Waymark

open Op Snapshot

variable {ν : Type} [DecidableEq ν]

theorem Snapshot.History.describes_locate (host : Host ν) (root : ν) (s t : Snapshot ν)
    (h : s.History host root) (n : Node ν) (hn : s.Knows n) (l : Locator)
    (hrun : (locate n).exec host s = (.ok (some l), t)) :
    Describes ⟨host, s.config, root⟩ s t n l := by
  obtain ⟨-, -, hends⟩ := keeps_locate (w := ⟨host, s.config, root⟩) (Excuses.all host) hn s (le_refl s)
    h.of_all
  rw [hrun] at hends
  exact hends l rfl

/-! ## A chain

Four nodes, one below the other, and the result of a call on the last one with the third. Searches start
from the second. -/

inductive ChainNode where
  | file
  | unit
  | block
  | expr
  | value
  deriving DecidableEq

namespace ChainNode

def chain : Host ChainNode where
  size := 5
  childCount v := .ok (if v = expr ∨ v = value then 0 else 1)
  child v _ := .ok (match v with
    | file => unit
    | unit => block
    | _ => expr)
  parent v := .ok (match v with
    | file => none
    | unit => some file
    | block => some unit
    | expr => some block
    | value => some expr)
  typeName v := match v with
    | file => "File"
    | unit => "Unit"
    | block => "Block"
    | expr | value => "Expr"
  packedSpan v := match v with
    | file => some ⟨1, 9⟩
    | unit => some ⟨2, 8⟩
    | block => some ⟨3, 7⟩
    | expr => some ⟨4, 6⟩
    | value => none
  searchRoot := some "Unit"
  origin p v := .ok (if p = expr ∧ v = value then some ⟨"value", [.node (some block)]⟩ else none)
  bounded := ⟨[file, unit, block, expr, value], by simp, fun v _ => by cases v <;> simp⟩

def asked : Snapshot ChainNode := ((Request.node value).op.exec chain (ofRoot {} chain file)).2

def toUnit : Step := .nearest { type := "Unit", span := ⟨2, 8⟩, depth := 1 }

/-- The hop to the block is left out on the way to the value, and kept on the way to the block itself. -/
def valueLocator : Locator where
  result := { type := "Expr", span := ⟨4, 6⟩, depth := 4 }
  steps := [toUnit, .nearest { type := "Expr", span := ⟨4, 6⟩, depth := 2 },
    .derived ⟨"value", [.node (some {
      result := { type := "Block", span := ⟨3, 7⟩, depth := 2 }
      steps := [toUnit, .nearest { type := "Block", span := ⟨3, 7⟩, depth := 1 }] })]⟩]

theorem describes_locate_chain :
    ((locate ⟨1, value⟩).exec chain asked).1 = .ok (some valueLocator) ∧
      Describes ⟨chain, asked.config, file⟩ asked ((locate ⟨1, value⟩).exec chain asked).2 ⟨1, value⟩
        valueLocator := by
  have hs : asked.History chain file := (History.fresh {}).request (.node value)
  have hknows : asked.handle? 1 = some value := by cbv
  have hl : ((locate ⟨1, value⟩).exec chain asked).1 = .ok (some valueLocator) := by decide +kernel
  exact ⟨hl, hs.describes_locate chain file asked _ ⟨1, value⟩ hknows valueLocator (exec_eq_of_result hl)⟩

end ChainNode

end Waymark
