import Stepwise.Json.Basic
import Stepwise.Decimal.Layout

/-!
# Writing JSON text

Two forms: on one line without blanks, and indented by two blanks a level
with one item or member a line. Empty lists and objects stay closed up in
both. Only quotes, backslashes and control characters are escaped. A double
that JSON has no numeral for is written as `null`, and so is what stands for
no value.
-/

namespace Stepwise.Json

/-- A hexadecimal digit in lower case. -/
def hexDigit (n : Nat) : Char :=
  if n < 10 then Char.ofNat ('0'.toNat + n) else Char.ofNat ('a'.toNat + (n - 10))

/-- A character inside a string. -/
def escaped (c : Char) : String :=
  if c == '"' then "\\\""
  else if c == '\\' then "\\\\"
  else if c == '\n' then "\\n"
  else if c == '\r' then "\\r"
  else if c == '\t' then "\\t"
  else if c == '\x08' then "\\b"
  else if c == '\x0c' then "\\f"
  else if c.toNat < 0x20 then
    "\\u00" ++ String.ofList [hexDigit (c.toNat / 16), hexDigit (c.toNat % 16)]
  else String.singleton c

/-- A string in quotes. -/
def quoted (s : String) : String :=
  s.foldl (fun text c => text ++ escaped c) "\"" ++ "\""

/-- A double, or `null` if JSON has no numeral for it. -/
def floatText (x : Float) : String :=
  (Decimal.json? x).getD "null"

mutual

/-- The value on one line, appended to a text. -/
def compactTo (text : String) : Json → String
  | .null => text ++ "null"
  | .bool b => text ++ (if b then "true" else "false")
  | .int n => text ++ toString n
  | .float x => text ++ floatText x
  | .str s => text ++ quoted s
  | .arr items => compactItems (text ++ "[") true items ++ "]"
  | .obj members => compactMembers (text ++ "\x7b") true members ++ "\x7d"
  | .broken => text ++ "null"

/-- Items with commas between them. -/
def compactItems (text : String) (first : Bool) : List Json → String
  | [] => text
  | item :: rest =>
    compactItems (compactTo (if first then text else text ++ ",") item) false rest

/-- Members with commas between them. -/
def compactMembers (text : String) (first : Bool) : List (String × Json) → String
  | [] => text
  | (name, item) :: rest =>
    let text := (if first then text else text ++ ",") ++ quoted name ++ ":"
    compactMembers (compactTo text item) false rest

end

/-- The value on one line. -/
def compact (value : Json) : String :=
  compactTo "" value

/-- A new line at a level of indentation. -/
def newline (level : Nat) : String :=
  "\n" ++ String.ofList (List.replicate (2 * level) ' ')

mutual

/-- The value in indented form, appended to a text. -/
def prettyTo (level : Nat) (text : String) : Json → String
  | .arr [] => text ++ "[]"
  | .arr items => prettyItems (level + 1) (text ++ "[") true items ++ newline level ++ "]"
  | .obj [] => text ++ "\x7b\x7d"
  | .obj members =>
    prettyMembers (level + 1) (text ++ "\x7b") true members ++ newline level ++ "\x7d"
  | .null => text ++ "null"
  | .bool b => text ++ (if b then "true" else "false")
  | .int n => text ++ toString n
  | .float x => text ++ floatText x
  | .str s => text ++ quoted s
  | .broken => text ++ "null"

/-- Items, each on a line of its own. -/
def prettyItems (level : Nat) (text : String) (first : Bool) : List Json → String
  | [] => text
  | item :: rest =>
    let text := (if first then text else text ++ ",") ++ newline level
    prettyItems level (prettyTo level text item) false rest

/-- Members, each on a line of its own. -/
def prettyMembers (level : Nat) (text : String) (first : Bool) :
    List (String × Json) → String
  | [] => text
  | (name, item) :: rest =>
    let text := (if first then text else text ++ ",") ++ newline level ++ quoted name ++ ": "
    prettyMembers level (prettyTo level text item) false rest

end

/-- The value in indented form. -/
def pretty (value : Json) : String :=
  prettyTo 0 "" value

end Stepwise.Json
