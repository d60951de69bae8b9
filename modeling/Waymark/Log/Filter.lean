import Waymark.Log.Directive

/-!
# Log filters

A filter is a list of directives with commas between them. Of those that hold for an event the one
with the longest target decides, and then one that asks for a field.
-/

namespace Waymark

abbrev LogFilter := List Directive

namespace LogFilter

/-- The parts of a filter text that ought to be directives. -/
def pieces (s : String) : List String := (s.splitOn ",").filter fun p => !p.isEmpty

/-- The filter that a text is, if all its parts are directives. -/
def parse? (s : String) : Option LogFilter :=
  (pieces s).mapM fun p => (Directive.parse p.toList).toOption

def ofText (s : String) : LogFilter :=
  (pieces s).filterMap fun p => (Directive.parse p.toList).toOption

def refused (s : String) : List (String × DirectiveFault) :=
  (pieces s).filterMap fun p =>
    match Directive.parse p.toList with
    | .ok _ => none
    | .error f => some (p, f)

/-- The only field that events have is their message. Values of fields belong to scopes. -/
def holdsForField : Option FieldTest → Bool
  | none => true
  | some f => f.name == "message" && f.value.isNone

/-- Events happen outside of all scopes. -/
def holdsFor (target : String) (d : Directive) : Bool :=
  d.scope.isNone && holdsForField d.field &&
    match d.target with
    | none => true
    | some t => t.toList.isPrefixOf target.toList

/-- A target counts more than any field, and a long one more than a short one. -/
def precision (d : Directive) : Nat :=
  2 * (d.target.map fun t => t.length + 1).getD 0 + d.field.toList.length

/-- The most precise directive that holds for the target, and of several the last one. -/
def deciding (f : LogFilter) (target : String) : Option Directive :=
  (f.filter (holdsFor target)).foldl (fun best d =>
    match best with
    | none => some d
    | some b => if precision b ≤ precision d then some d else best) none

def passes (f : LogFilter) (e : Event) : Bool :=
  match (f.deciding e.source.target).bind (·.limit) with
  | some limit => e.level.passes limit
  | none => false

end LogFilter

end Waymark
