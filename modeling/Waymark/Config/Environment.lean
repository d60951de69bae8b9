import Waymark.Log.Event

/-!
# Settings from the environment

Each setting has a variable. A variable that is not set, or that names no value, leaves the setting
as it was; the latter is worth a warning.
-/

namespace Waymark.Config

def settingFrom {α : Type} [Setting α] (key : String) (value : Option String) (fallback : α) :
    α × List Event :=
  match value with
  | none => (fallback, [])
  | some text =>
    match Setting.parse α text with
    | .ok v => (v, [])
    | .error cause => (fallback, [.settingIgnored key cause (Setting.name fallback)])

def recoveryKey : String := "AST_LOCATOR_RECOVERY"

def positionsKey : String := "AST_LOCATOR_POSITIONS"

def identifyKey : String := "AST_LOCATOR_IDENTIFY"

def fromEnvironment (init : Option Config) (lookup : String → Option String) :
    Config × List Event :=
  let fallback := init.getD {}
  let (recovery, w₁) := settingFrom recoveryKey (lookup recoveryKey) fallback.recovery
  let (positions, w₂) := settingFrom positionsKey (lookup positionsKey) fallback.positions
  let (identify, w₃) := settingFrom identifyKey (lookup identifyKey) fallback.identify
  ({ recovery, positions, identify }, w₁ ++ w₂ ++ w₃)

end Waymark.Config
