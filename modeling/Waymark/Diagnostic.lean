import Waymark.Span

/-!
# Diagnostics

What a request reports about a single node next to the rest of its answer.
-/

namespace Waymark

inductive DiagnosticKind where
  | noMatchingNode
  | unlocatableNode
  deriving DecidableEq, Repr

def DiagnosticKind.name : DiagnosticKind → String
  | .noMatchingNode => "NO_MATCHING_NODE"
  | .unlocatableNode => "UNLOCATABLE_NODE"

structure Diagnostic where
  kind : DiagnosticKind
  message : String
  span : Option Span
  deriving DecidableEq, Repr

namespace Diagnostic

def noMatchingText : String := "no matching node, try remaking the probe"

def unlocatableText : String :=
  "can't create a reference to this node; the host may be caching nodes it rebuilds on every access"

/-- A span that says nothing is left out. -/
def spanOf (s : Span) : Option Span := if s.isMeaningful then some s else none

def noMatchingNode (s : Span) : Diagnostic := ⟨.noMatchingNode, noMatchingText, spanOf s⟩

def unlocatableNode (s : Span) : Diagnostic := ⟨.unlocatableNode, unlocatableText, spanOf s⟩

end Diagnostic

end Waymark
