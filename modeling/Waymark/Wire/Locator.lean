import Waymark.Locator
import Waymark.Wire.Decoder
import Waymark.Json.Reader
import Waymark.Json.Writer

/-!
# Locators as JSON

Steps and arguments are named variants, everything else is a record. The room for nesting shrinks
with every array and object that is opened, so decoding ends.
-/

namespace Waymark

/-! ## Decoding -/

namespace Wire

def fingerprint : Decoder Fingerprint
  | 0, _ => none
  | room + 1, v => do
    let [type, label, start, stop, depth, external] ←
      fields ["type", "label", "start", "end", "depth", "external"] v | none
    return {
      type := ← required string room type
      label := ← withDefault none (nullable string) room label
      span := ⟨← required uint32 room start, ← required uint32 room stop⟩
      depth := ← required uint32 room depth
      external := ← withDefault false bool room external }

/-- The names of steps. Their places are their numbers. -/
def stepNames : List String := ["tal", "child", "nta"]

def argNames : List String :=
  ["string", "integer", "bool", "collection", "outputstream", "nodeLocator", "any"]

mutual

def readStep (how : Reading) : Decoder Step
  | 0, _ => none
  | room + 1, v =>
    match variant stepNames how room v with
    | some ⟨"tal", some w, _⟩ => (fingerprint room w).map .nearest
    | some ⟨"child", some w, _⟩ => (uint64 room w).map .child
    | some ⟨"nta", some w, how⟩ => (readCall how room w).map .derived
    | _ => none

def readSteps (how : Reading) : Decoder (List Step)
  | room + 1, .array items => items.mapM fun v => readStep how room v
  | _, _ => none

def readCall (how : Reading) : Decoder Call
  | 0, _ => none
  | room + 1, v => do
    let [name, some values] ← fields ["name", "args"] v | none
    return ⟨← required string room name, ← readArgs how room values⟩

def readArg (how : Reading) : Decoder Arg
  | 0, _ => none
  | room + 1, v =>
    match variant argNames how room v with
    | some ⟨"string", some w, _⟩ => (string room w).map .string
    | some ⟨"integer", some w, _⟩ => (int64 room w).map .integer
    | some ⟨"bool", some w, _⟩ => (bool room w).map .bool
    | some ⟨"collection", some w, how⟩ => (readArgs how room w).map .collection
    | some ⟨"outputstream", some w, _⟩ => (string room w).map .stream
    | some ⟨"nodeLocator", none, _⟩ => some (.node none)
    | some ⟨"nodeLocator", some .null, _⟩ => some (.node none)
    | some ⟨"nodeLocator", some w, how⟩ => (readLocator how room w).map fun l => .node (some l)
    | some ⟨"any", none, _⟩ => some .any
    | some ⟨"any", some .null, _⟩ => some .any
    | _ => none

def readArgs (how : Reading) : Decoder (List Arg)
  | room + 1, .array items => items.mapM fun v => readArg how room v
  | _, _ => none

def readLocator (how : Reading) : Decoder Locator
  | 0, _ => none
  | room + 1, v => do
    let [result, some path] ← fields ["result", "steps"] v | none
    return ⟨← required fingerprint room result, ← readSteps how room path⟩

end

def step : Decoder Step := readStep .direct

def steps : Decoder (List Step) := readSteps .direct

def call : Decoder Call := readCall .direct

def arg : Decoder Arg := readArg .direct

def locator : Decoder Locator := readLocator .direct

end Wire

/-! ## Encoding -/

def Fingerprint.toJson (f : Fingerprint) : Json :=
  .record ([("type", .string f.type)] ++ (f.label.map fun l => ("label", .string l)).toList ++
    [("start", .nat f.span.start.toNat), ("end", .nat f.span.stop.toNat),
      ("depth", .nat f.depth.toNat)] ++
    if f.external then [("external", .bool true)] else [])

def Wire.variantJson (name : String) (content : Json) : Json :=
  .record [("type", .string name), ("value", content)]

mutual

def Step.toJson : Step → Json
  | .nearest f => Wire.variantJson "tal" f.toJson
  | .child i => Wire.variantJson "child" (.nat i.toNat)
  | .derived c => Wire.variantJson "nta" c.toJson

def Call.toJson : Call → Json
  | ⟨name, args⟩ => .record [("name", .string name), ("args", .array (Arg.toJsonList args))]

def Arg.toJson : Arg → Json
  | .string s => Wire.variantJson "string" (.string s)
  | .integer i => Wire.variantJson "integer" (.integer i.toInt)
  | .bool b => Wire.variantJson "bool" (.bool b)
  | .collection items => Wire.variantJson "collection" (.array (Arg.toJsonList items))
  | .stream name => Wire.variantJson "outputstream" (.string name)
  | .node none => Wire.variantJson "nodeLocator" .null
  | .node (some l) => Wire.variantJson "nodeLocator" l.toJson
  | .any => .record [("type", .string "any")]

def Arg.toJsonList : List Arg → List Json
  | [] => []
  | a :: as => a.toJson :: Arg.toJsonList as

def Locator.toJson : Locator → Json
  | ⟨result, steps⟩ =>
    .record [("result", result.toJson), ("steps", .array (Step.toJsonList steps))]

def Step.toJsonList : List Step → List Json
  | [] => []
  | s :: ss => s.toJson :: Step.toJsonList ss

end

/-! ## Text -/

def Wire.parse {α : Type} (d : Wire.Decoder α) (text : String) : Option α :=
  (Json.read text.toList).bind (d Wire.maxNesting)

def Locator.ofText? (text : String) : Option Locator := Wire.parse Wire.locator text

def Locator.toText (l : Locator) : String := l.toJson.render

end Waymark
