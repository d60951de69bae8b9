import Waymark.Text.Blank

/-!
# Configuration

Three settings steer a snapshot: where a node without a place in the text borrows one, how the host
reports positions, and what identifies a node besides its span. Each setting has a fixed list of
values, and each value has one name.
-/

namespace Waymark

/-! ## Settings by name -/

class Setting (α : Type) where
  /-- What the setting is called in messages. -/
  kind : String
  values : List α
  name : α → String

structure UnknownValue where
  kind : String
  value : String
  deriving DecidableEq, Repr

def UnknownValue.message (e : UnknownValue) : String :=
  "unknown " ++ e.kind ++ " `" ++ e.value ++ "`"

/-- Blanks around a name and the case of its ASCII letters do not matter. -/
def Setting.parse (α : Type) [Setting α] (text : String) : Except UnknownValue α :=
  let wanted := (CharClass.trim text.toList).map Char.toUpper
  match (Setting.values : List α).find? fun v => (Setting.name v).toList == wanted with
  | some v => .ok v
  | none => .error ⟨Setting.kind α, text⟩

/-! ## The settings -/

/-- Where a node whose own span says nothing takes one from. -/
inductive Recovery where
  | fail
  | parent
  /-- The nearest descendant with a span, by first children. -/
  | child
  | parentThenChild
  | childThenParent
  /-- One step up, one step down, and so on. -/
  | alternate
  deriving DecidableEq, Repr

inductive Convention where
  | packed
  | lineColumn
  deriving DecidableEq, Repr

/-- What identifies a node besides its span. -/
inductive Identity where
  | type
  /-- The label where there is one, and the type otherwise. -/
  | label
  deriving DecidableEq, Repr

instance : Setting Recovery where
  kind := "recovery strategy"
  values := [.fail, .parent, .child, .parentThenChild, .childThenParent, .alternate]
  name
    | .fail => "FAIL"
    | .parent => "PARENT"
    | .child => "CHILD"
    | .parentThenChild => "SEQUENCE_PARENT_CHILD"
    | .childThenParent => "SEQUENCE_CHILD_PARENT"
    | .alternate => "ALTERNATE_PARENT_CHILD"

instance : Setting Convention where
  kind := "position convention"
  values := [.packed, .lineColumn]
  name
    | .packed => "PACKED"
    | .lineColumn => "LINE_COLUMN"

instance : Setting Identity where
  kind := "identification style"
  values := [.type, .label]
  name
    | .type => "TYPE"
    | .label => "LABEL"

structure Config where
  recovery : Recovery := .alternate
  positions : Convention := .packed
  identify : Identity := .type
  deriving DecidableEq, Repr

instance : Inhabited Config := ⟨{}⟩

end Waymark
