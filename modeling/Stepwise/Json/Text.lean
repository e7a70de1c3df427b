import Stepwise.Json.Number

/-!
# Reading JSON text

A recursive descent over the characters. Every reader returns the value and
the characters behind it. Nesting is limited, so a text that is too deep is
refused rather than read. The fuel argument is the length of the text, of
which each step uses up a part. Text of the right form is accepted as a whole
even where a numeral or a string in it stands for nothing.
-/

namespace Stepwise.Json

/-- Blanks between the tokens. -/
def isBlank (c : Char) : Bool :=
  c == ' ' || c == '\n' || c == '\t' || c == '\r'

/-- The text behind leading blanks. -/
def skip (cs : List Char) : List Char :=
  cs.dropWhile isBlank

/-- The digits at the start of a text, and what follows. -/
def digitRun (cs : List Char) : List Nat × List Char :=
  ((cs.takeWhile Char.isDigit).map fun c => c.toNat - '0'.toNat, cs.dropWhile Char.isDigit)

/-- The value of a hexadecimal digit. -/
def hexDigit? (c : Char) : Option Nat :=
  if c.isDigit then some (c.toNat - '0'.toNat)
  else if 'a' ≤ c && c ≤ 'f' then some (c.toNat - 'a'.toNat + 10)
  else if 'A' ≤ c && c ≤ 'F' then some (c.toNat - 'A'.toNat + 10)
  else none

/-- Four hexadecimal digits. -/
def hexFour? : List Char → Option (Nat × List Char)
  | a :: b :: c :: d :: rest => do
    let a ← hexDigit? a
    let b ← hexDigit? b
    let c ← hexDigit? c
    let d ← hexDigit? d
    some (((a * 16 + b) * 16 + c) * 16 + d, rest)
  | _ => none

/-- The character behind `\u`, which may take a second escape. Half of a
surrogate pair is no character. -/
def unicodeEscape? (cs : List Char) : Option (Option Char × List Char) := do
  let (first, rest) ← hexFour? cs
  if first < 0xD800 || 0xE000 ≤ first then some (some (Char.ofNat first), rest)
  else if 0xDC00 ≤ first then some (none, rest)
  else
    match rest with
    | '\\' :: 'u' :: behind =>
      let (second, behind) ← hexFour? behind
      if 0xDC00 ≤ second && second < 0xE000 then
        some (some (Char.ofNat (0x10000 + (first - 0xD800) * 0x400 + (second - 0xDC00))), behind)
      else some (none, rest)
    | _ => some (none, rest)

/-- The character behind a backslash, if the escape stands for one. -/
def escape? : List Char → Option (Option Char × List Char)
  | '"' :: rest => some (some '"', rest)
  | '\\' :: rest => some (some '\\', rest)
  | '/' :: rest => some (some '/', rest)
  | 'b' :: rest => some (some '\x08', rest)
  | 'f' :: rest => some (some '\x0c', rest)
  | 'n' :: rest => some (some '\n', rest)
  | 'r' :: rest => some (some '\r', rest)
  | 't' :: rest => some (some '\t', rest)
  | 'u' :: rest => unicodeEscape? rest
  | _ => none

/-- The rest of a string behind its opening quote. `acc` holds the characters
so far, last one first; it is nothing once the string is broken. -/
def stringRest : Nat → Option (List Char) → List Char → Option (Option String × List Char)
  | 0, _, _ => none
  | _, _, [] => none
  | fuel + 1, acc, c :: rest =>
    if c == '"' then some (acc.map fun cs => String.ofList cs.reverse, rest)
    else if c == '\\' then
      match escape? rest with
      | some (c, rest) => stringRest fuel (acc.bind fun cs => c.map (· :: cs)) rest
      | none => none
    else if c.toNat < 0x20 then none
    else stringRest fuel (acc.map (c :: ·)) rest

/-- The digits behind a point: at least one. -/
def fractionPart? : List Char → Option (Option (List Nat) × List Char)
  | '.' :: rest =>
    match digitRun rest with
    | ([], _) => none
    | (digits, rest) => some (some digits, rest)
  | cs => some (none, cs)

/-- The digits of an exponent behind its optional sign: at least one. -/
def powerDigits? (down : Bool) (cs : List Char) : Option (Option (Bool × List Nat) × List Char) :=
  match digitRun cs with
  | ([], _) => none
  | (digits, rest) => some (some (down, digits), rest)

/-- The exponent, if there is one. -/
def powerPart? : List Char → Option (Option (Bool × List Nat) × List Char)
  | c :: rest =>
    if c == 'e' || c == 'E' then
      match rest with
      | '+' :: rest => powerDigits? false rest
      | '-' :: rest => powerDigits? true rest
      | _ => powerDigits? false rest
    else some (none, c :: rest)
  | [] => some (none, [])

/-- A number. A leading zero stands alone. -/
def number? (negative : Bool) (cs : List Char) : Option (Json × List Char) := do
  let (whole, rest) := digitRun cs
  match whole with
  | [] => none
  | 0 :: _ :: _ => none
  | _ =>
    let (fraction, rest) ← fractionPart? rest
    let (power, rest) ← powerPart? rest
    some ((Numeral.toJson? ⟨negative, whole, fraction, power⟩).getD .broken, rest)

/-- An object, unless one of its names is broken. -/
def ofMembers (members : List (Option String × Json)) : Json :=
  match members.mapM fun (name, item) => name.map (·, item) with
  | some members => .obj members
  | none => .broken

mutual

/-- A value of at most `depth` levels of lists and objects. -/
def value? : Nat → Nat → List Char → Option (Json × List Char)
  | 0, _, _ => none
  | fuel + 1, depth, cs =>
    match skip cs with
    | 'n' :: 'u' :: 'l' :: 'l' :: rest => some (.null, rest)
    | 't' :: 'r' :: 'u' :: 'e' :: rest => some (.bool true, rest)
    | 'f' :: 'a' :: 'l' :: 's' :: 'e' :: rest => some (.bool false, rest)
    | '"' :: rest => (stringRest fuel (some []) rest).map fun (s, rest) => ((s.map .str).getD .broken, rest)
    | '[' :: rest =>
      match depth with
      | 0 => none
      | depth + 1 =>
        match skip rest with
        | ']' :: rest => some (.arr [], rest)
        | _ => (items? fuel depth rest).map fun (items, rest) => (.arr items, rest)
    | '\x7b' :: rest =>
      match depth with
      | 0 => none
      | depth + 1 =>
        match skip rest with
        | '\x7d' :: rest => some (.obj [], rest)
        | _ => (members? fuel depth rest).map fun (members, rest) => (ofMembers members, rest)
    | '-' :: rest => number? true rest
    | rest => number? false rest

/-- The items of a list up to its closing bracket. -/
def items? : Nat → Nat → List Char → Option (List Json × List Char)
  | 0, _, _ => none
  | fuel + 1, depth, cs =>
    match value? fuel depth cs with
    | none => none
    | some (item, rest) =>
      match skip rest with
      | ',' :: rest => (items? fuel depth rest).map fun (items, rest) => (item :: items, rest)
      | ']' :: rest => some ([item], rest)
      | _ => none

/-- The members of an object up to its closing brace. -/
def members? : Nat → Nat → List Char → Option (List (Option String × Json) × List Char)
  | 0, _, _ => none
  | fuel + 1, depth, cs =>
    match skip cs with
    | '"' :: rest =>
      match stringRest fuel (some []) rest with
      | none => none
      | some (name, rest) =>
        match skip rest with
        | ':' :: rest =>
          match value? fuel depth rest with
          | none => none
          | some (item, rest) =>
            match skip rest with
            | ',' :: rest =>
              (members? fuel depth rest).map fun (members, rest) => ((name, item) :: members, rest)
            | '\x7d' :: rest => some ([(name, item)], rest)
            | _ => none
        | _ => none
    | _ => none

end

/-- Lists and objects may be nested this deep. -/
def nestingLimit : Nat := 127

/-- The value that a text spells, if it spells one and nothing else. -/
def parse? (text : String) : Option Json :=
  let cs := text.toList
  match value? (2 * cs.length + 2) nestingLimit cs with
  | some (value, rest) => if (skip rest).isEmpty then some value else none
  | none => none

end Stepwise.Json
