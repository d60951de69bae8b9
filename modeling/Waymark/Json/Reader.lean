import Waymark.Json.Token

/-!
# Reading JSON

Tokens are put together with a stack of what is still open around the value at hand. Every token
is looked at once.
-/

namespace Waymark.Json

/-- An array or object that is still open, with its finished part, the last one first. -/
inductive Frame where
  | item (before : List Json)
  | field (before : List (Option String × Json)) (name : Option String)

inductive Place where
  | value
  | name (before : List (Option String × Json))
  | after (v : Json)

def build : Place → List Frame → List Token → Option Json
  | .value, up, .null :: ts => build (.after .null) up ts
  | .value, up, .bool b :: ts => build (.after (.bool b)) up ts
  | .value, up, .integer i :: ts => build (.after (.integer i)) up ts
  | .value, up, .real fits :: ts => build (.after (.real fits)) up ts
  | .value, up, .text s :: ts => build (.after (.text s)) up ts
  | .value, up, .openBracket :: .closeBracket :: ts => build (.after (.array [])) up ts
  | .value, up, .openBracket :: ts => build .value (.item [] :: up) ts
  | .value, up, .openBrace :: .closeBrace :: ts => build (.after (.object [])) up ts
  | .value, up, .openBrace :: ts => build (.name []) up ts
  | .name before, up, .text k :: .colon :: ts => build .value (.field before k :: up) ts
  | .after v, .item before :: up, .comma :: ts => build .value (.item (v :: before) :: up) ts
  | .after v, .item before :: up, .closeBracket :: ts =>
    build (.after (.array (v :: before).reverse)) up ts
  | .after v, .field before k :: up, .comma :: ts => build (.name ((k, v) :: before)) up ts
  | .after v, .field before k :: up, .closeBrace :: ts =>
    build (.after (.object ((k, v) :: before).reverse)) up ts
  | .after v, [], [] => some v
  | _, _, _ => none

def read (s : List Char) : Option Json :=
  (Token.scan s).bind (build .value [])

end Waymark.Json
