import Waymark.Config
import Waymark.Locator

/-!
# Events

What the library has to say while it works. An event is what happened; its level, the part of the
library it comes from and its wording are functions of it.
-/

namespace Waymark

inductive Level where
  | error
  | warn
  | info
  | debug
  | trace
  deriving DecidableEq, Repr

namespace Level

/-- Zero for the most severe level. -/
def rank : Level → Nat
  | .error => 0
  | .warn => 1
  | .info => 2
  | .debug => 3
  | .trace => 4

def name : Level → String
  | .error => "ERROR"
  | .warn => "WARN"
  | .info => "INFO"
  | .debug => "DEBUG"
  | .trace => "TRACE"

def passes (l limit : Level) : Bool := l.rank ≤ limit.rank

end Level

inductive Source where
  | config
  | node
  | recovery
  | search
  | locating
  | shortening
  | resolving
  | listing
  /-- Trees written as text. -/
  | tree
  deriving DecidableEq, Repr

def Source.target : Source → String
  | .config => "ast_locator::config"
  | .node => "ast_locator::ast::node"
  | .recovery => "ast_locator::ast::recovery"
  | .search => "ast_locator::locator::matcher"
  | .locating => "ast_locator::locator::create"
  | .shortening => "ast_locator::locator::minimize"
  | .resolving => "ast_locator::locator::apply"
  | .listing => "ast_locator::requests::list_nodes"
  | .tree => "test_utils::tree"

inductive Event where
  /-- A variable of the environment does not name a value of its setting. -/
  | settingIgnored (key : String) (cause : UnknownValue) (fallback : String)
  | rawSpan (type : String) (span : Span)
  | loop (type : String)
  | recovered (span : Span) (type : String) (strategy : Recovery)
  | pruned (type : String) (span : Span)
  | childlessParent (type parent : String)
  | strayChild (type parent : String)
  | outsideTree (type : String)
  | argumentRefused (call : String)
  | located (steps hops : Nat) (result : Fingerprint)
  | rootShortened (dropped : Nat) (type : String)
  | runShortened (dropped first last : Nat)
  | stepUnmatched (step : Step) (type : String)
  | locatorUnmatched (locator : Locator)
  | notLocatedAgain (type : String)
  | unlocatable (type : String) (span : Span)
  | treeRead (nodes : Nat)
  | derivedMissing (type name args : String)
  deriving DecidableEq

namespace Event

def source : Event → Source
  | .settingIgnored .. => .config
  | .rawSpan .. | .loop .. => .node
  | .recovered .. => .recovery
  | .pruned .. => .search
  | .childlessParent .. | .strayChild .. | .outsideTree .. | .argumentRefused .. | .located .. =>
    .locating
  | .rootShortened .. | .runShortened .. => .shortening
  | .stepUnmatched .. | .locatorUnmatched .. | .notLocatedAgain .. => .resolving
  | .unlocatable .. => .listing
  | .treeRead .. | .derivedMissing .. => .tree

def level : Event → Level
  | .settingIgnored .. | .loop .. | .childlessParent .. | .strayChild .. | .notLocatedAgain .. =>
    .warn
  | .outsideTree .. | .argumentRefused .. | .located .. | .rootShortened .. | .runShortened ..
  | .stepUnmatched .. | .locatorUnmatched .. | .unlocatable .. => .debug
  | .rawSpan .. | .recovered .. | .pruned .. | .treeRead .. | .derivedMissing .. => .trace

def message : Event → String
  | .settingIgnored key cause fallback =>
    "Ignoring " ++ key ++ ": " ++ cause.message ++ ", using " ++ fallback
  | .rawSpan type span => "Raw span of " ++ type ++ " is " ++ span.text
  | .loop type => "Walk through a " ++ type ++ " node loops back onto itself"
  | .recovered span type strategy =>
    "Recovered span " ++ span.text ++ " for " ++ type ++ " using " ++ Setting.name strategy
  | .pruned type span => "Pruning " ++ type ++ " at " ++ span.text
  | .childlessParent type parent =>
    type ++ " has a childless parent " ++ parent ++ " that does not derive it"
  | .strayChild type parent =>
    type ++ " is neither a child of nor derived by its parent " ++ parent
  | .outsideTree type => type ++ " is not below the root of this tree"
  | .argumentRefused call => "Could not encode an argument of " ++ call
  | .located steps hops result =>
    "Created locator with " ++ toString steps ++ " steps (" ++ toString hops ++ " hops) for " ++
      result.text
  | .rootShortened dropped type =>
    "Root collapse drops " ++ toString dropped ++ " hops ahead of " ++ type
  | .runShortened dropped first last =>
    "Run collapse drops " ++ toString dropped ++ " hops between " ++ toString first ++ " and " ++
      toString last
  | .stepUnmatched step type => "Step " ++ step.text ++ " matched nothing below " ++ type
  | .locatorUnmatched locator => "No node matches " ++ locator.text
  | .notLocatedAgain type =>
    "Resolved " ++ type ++ " but could not re-encode it, keeping the old locator"
  | .unlocatable type span => "Skipping unlocatable " ++ type ++ " at " ++ span.text
  | .treeRead nodes => "Parsed a test tree of " ++ toString nodes ++ " nodes"
  | .derivedMissing type name args =>
    type ++ " has no derived attribute `" ++ name ++ "` for " ++ args

end Event

end Waymark
