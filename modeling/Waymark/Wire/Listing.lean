import Waymark.Listing.AtPosition
import Waymark.Listing.Subtree
import Waymark.Wire.Locator
import Waymark.Wire.Settings

/-!
# Listings as JSON
-/

namespace Waymark

def Wire.diagnosticsField (ds : List Diagnostic) : List (String × Json) :=
  if ds.isEmpty then [] else [("diagnostics", .array (ds.map Diagnostic.toJson))]

def Wire.labelField (label : Option String) : List (String × Json) :=
  (label.map fun l => ("label", .string l)).toList

def ListedNode.toJson {ν : Type} (n : ListedNode ν) : Json :=
  .record ([("type", .string n.type)] ++ Wire.labelField n.label ++
    [("span", n.span.toJson), ("locator", n.locator.toJson)])

def NodeListing.toJson {ν : Type} (l : NodeListing ν) : Json :=
  .record (("nodes", .array (l.nodes.map ListedNode.toJson)) :: Wire.diagnosticsField l.diagnostics)

mutual

def ListedTree.toJson : ListedTree → Json
  | .node type label span locator children =>
    .record ([("type", .string type)] ++ Wire.labelField label ++
      [("span", span.toJson), ("locator", (locator.map Locator.toJson).getD .null),
        ("children", children.toJson)])

def ListedChildren.toJson : ListedChildren → Json
  | .all trees => .record [("children", .array (ListedTree.toJsonList trees))]
  | .placeholder count => .record [("placeholder", .nat count)]

def ListedTree.toJsonList : List ListedTree → List Json
  | [] => []
  | t :: ts => t.toJson :: ListedTree.toJsonList ts

end

def TreeListing.toJson (l : TreeListing) : Json :=
  .record (("tree", (l.tree.map ListedTree.toJson).getD .null) ::
    Wire.diagnosticsField l.diagnostics)

end Waymark
