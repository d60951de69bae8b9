import Waymark.Text.Hex
import Waymark.Text.Unseen

/-!
# Quoted text for messages

Text between double quotes, with everything escaped that a reader of a message could not see or
could take for the closing quote.
-/

namespace Waymark.Text

def escape (c : Char) : String :=
  match c with
  | '\x00' => "\\0"
  | '\t' => "\\t"
  | '\r' => "\\r"
  | '\n' => "\\n"
  | '\\' => "\\\\"
  | '"' => "\\\""
  | _ =>
    if CharClass.unseen.has c then "\\u\x7b" ++ hex c.toNat ++ "\x7d" else c.toString

def quoted (s : List Char) : String :=
  "\"" ++ s.foldl (fun out c => out ++ escape c) "" ++ "\""

end Waymark.Text
