import Waymark.Config
import Waymark.Diagnostic
import Waymark.Wire.Decoder

/-!
# Settings, spans and diagnostics as JSON
-/

namespace Waymark

namespace Wire

/-- One of a list of names, written as a string or as the only field of an object, with null. -/
def named {α : Type} (values : List α) (name : α → String) : Decoder α
  | _, .text (some n) => values.find? fun v => name v == n
  | _ + 1, .object [(some n, .null)] => values.find? fun v => name v == n
  | _, _ => none

def setting (α : Type) [Setting α] : Decoder α := named Setting.values Setting.name

def span : Decoder Span
  | 0, _ => none
  | room + 1, v => do
    let [start, stop] ← fields ["start", "end"] v | none
    return ⟨← required uint32 room start, ← required uint32 room stop⟩

def config : Decoder Config
  | 0, _ => none
  | room + 1, v => do
    let [recovery, positions, identify] ← fields ["recovery", "positions", "identify"] v | none
    let default : Config := {}
    return {
      recovery := ← withDefault default.recovery (setting Recovery) room recovery
      positions := ← withDefault default.positions (setting Convention) room positions
      identify := ← withDefault default.identify (setting Identity) room identify }

def diagnosticKind : Decoder DiagnosticKind :=
  named [.noMatchingNode, .unlocatableNode] DiagnosticKind.name

def diagnostic : Decoder Diagnostic
  | 0, _ => none
  | room + 1, v => do
    let [kind, message, place] ← fields ["kind", "message", "span"] v | none
    return {
      kind := ← required diagnosticKind room kind
      message := ← required string room message
      span := ← withDefault none (nullable span) room place }

end Wire

def Span.toJson (s : Span) : Json :=
  .record [("start", .nat s.start.toNat), ("end", .nat s.stop.toNat)]

def Config.toJson (c : Config) : Json :=
  .record [("recovery", .string (Setting.name c.recovery)),
    ("positions", .string (Setting.name c.positions)),
    ("identify", .string (Setting.name c.identify))]

def Diagnostic.toJson (d : Diagnostic) : Json :=
  .record ([("kind", .string d.kind.name), ("message", .string d.message)] ++
    (d.span.map fun s => ("span", s.toJson)).toList)

end Waymark
