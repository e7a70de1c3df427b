import Stepwise.Config.Settings

/-!
# Single values of TOML text

Texts, numbers, truth values and times. Every reader returns what it read and
the characters behind it. A text stands between quotes, or between threefold
quotes over several lines; single quotes leave everything as it is. A time is
kept as it is written.
-/

namespace Stepwise.Toml

/-- Characters that can stand in a comment or a text as they are. -/
def isPrintable (c : Char) : Bool := c == '\t' || (0x20 ≤ c.toNat && c.toNat != 0x7F)

/-- Blanks inside a line. -/
def isGap (c : Char) : Bool := c == ' ' || c == '\t'

/-- The text behind blanks. -/
def gap (cs : List Char) : List Char := cs.dropWhile isGap

/-- The text behind a line break. -/
def lineBreak? : List Char → Option (List Char)
  | '\n' :: rest => some rest
  | '\r' :: '\n' :: rest => some rest
  | _ => none

/-- The text behind blanks and line breaks. -/
def blanks : List Char → List Char
  | [] => []
  | '\r' :: '\n' :: rest => blanks rest
  | c :: rest => if isGap c || c == '\n' then blanks rest else c :: rest

/-- A text in single quotes, behind its opening quote. -/
def literalText? (cs : List Char) : Option (String × List Char) :=
  let inside := cs.takeWhile fun c => c != '\'' && isPrintable c
  match cs.drop inside.length with
  | '\'' :: rest => some (String.ofList inside, rest)
  | _ => none

/-- The number that hexadecimal digits spell. -/
def hexadecimal? (cs : List Char) : Option Nat :=
  cs.foldlM (fun n c => (Json.hexDigit? c).map (n * 16 + ·)) 0

/-- The character of a given number of hexadecimal digits. Surrogates are no
characters. -/
def codePoint? (digits : Nat) (cs : List Char) : Option (Char × List Char) := do
  if cs.length < digits then none
  else
    let n ← hexadecimal? (cs.take digits)
    if n < 0xD800 || (0xE000 ≤ n && n < 0x110000) then some (Char.ofNat n, cs.drop digits)
    else none

/-- The character behind a backslash. -/
def escape? : List Char → Option (Char × List Char)
  | '"' :: rest => some ('"', rest)
  | '\\' :: rest => some ('\\', rest)
  | 'b' :: rest => some ('\x08', rest)
  | 'f' :: rest => some ('\x0c', rest)
  | 'n' :: rest => some ('\n', rest)
  | 'r' :: rest => some ('\r', rest)
  | 't' :: rest => some ('\t', rest)
  | 'u' :: rest => codePoint? 4 rest
  | 'U' :: rest => codePoint? 8 rest
  | _ => none

/-- A text in double quotes, behind its opening quote. `acc` holds the
characters so far, last one first. -/
def quotedRest? : Nat → List Char → List Char → Option (String × List Char)
  | 0, _, _ => none
  | _, _, [] => none
  | fuel + 1, acc, c :: rest =>
    if c == '"' then some (String.ofList acc.reverse, rest)
    else if c == '\\' then
      match escape? rest with
      | some (c, rest) => quotedRest? fuel (c :: acc) rest
      | none => none
    else if isPrintable c then quotedRest? fuel (c :: acc) rest
    else none

/-- A text in double quotes, behind its opening quote. -/
def quotedText? (cs : List Char) : Option (String × List Char) :=
  quotedRest? (cs.length + 1) [] cs

/-- A text over several lines, behind its opening quotes. Up to two quotes can
stand inside it or before the closing ones. Between double quotes a backslash
at the end of a line takes away the blanks up to the next character. -/
def linesRest? (quote : Char) : Nat → List Char → List Char → Option (String × List Char)
  | 0, _, _ => none
  | _, _, [] => none
  | fuel + 1, acc, c :: rest =>
    if c == quote then
      let more := (rest.takeWhile (· == quote)).length
      if more < 2 then linesRest? quote fuel (c :: acc) rest
      else
        let inside := min (more - 2) 2
        some (String.ofList (acc.reverse ++ List.replicate inside quote), rest.drop (inside + 2))
    else if c == '\\' && quote == '"' then
      match lineBreak? (gap rest) with
      | some rest => linesRest? quote fuel acc (blanks rest)
      | none =>
        match escape? rest with
        | some (c, rest) => linesRest? quote fuel (c :: acc) rest
        | none => none
    else if c == '\n' then linesRest? quote fuel ('\n' :: acc) rest
    else if c == '\r' then
      match rest with
      | '\n' :: rest => linesRest? quote fuel ('\n' :: acc) rest
      | _ => none
    else if isPrintable c then linesRest? quote fuel (c :: acc) rest
    else none

/-- A text over several lines, behind its opening quotes; a line break right
behind them is not part of it. -/
def linesText? (quote : Char) (cs : List Char) : Option (String × List Char) :=
  linesRest? quote (cs.length + 1) [] ((lineBreak? cs).getD cs)

/-- A text, behind its first quote. -/
def text? (quote : Char) (cs : List Char) : Option (String × List Char) :=
  match cs with
  | a :: b :: rest =>
    if a == quote && b == quote then linesText? quote rest
    else if quote == '"' then quotedText? cs
    else literalText? cs
  | _ => if quote == '"' then quotedText? cs else literalText? cs

/-- Digits with single underscores between them, at least one digit. Gives
the digits and what follows; nothing if an underscore stands elsewhere. -/
def digitsRest? (isDigit : Char → Bool) : List Char → Option (List Char × List Char)
  | [] => none
  | [c] => if isDigit c then some ([c], []) else none
  | c :: '_' :: rest =>
    if isDigit c then (digitsRest? isDigit rest).map fun (cs, rest) => (c :: cs, rest) else none
  | c :: d :: rest =>
    if !isDigit c then none
    else if isDigit d then
      (digitsRest? isDigit (d :: rest)).map fun (cs, rest) => (c :: cs, rest)
    else some ([c], d :: rest)

/-- The number that digits of a base spell. -/
def inBase (base : Nat) (cs : List Char) : Nat :=
  cs.foldl (fun n c => n * base + (Json.hexDigit? c).getD 0) 0

/-- An integer in another base than ten, behind its mark. -/
def based? (base : Nat) (cs : List Char) : Option (Json × List Char) := do
  let (digits, rest) ← digitsRest? (fun c => (Json.hexDigit? c).any (· < base)) cs
  let n := inBase base digits
  if n < Word.half then some (.int n, rest) else none

/-- The sign in front of a number. -/
def sign : List Char → Bool × List Char
  | '-' :: rest => (true, rest)
  | '+' :: rest => (false, rest)
  | cs => (false, cs)

/-- The digits before a point: a zero stands alone. -/
def whole? : List Char → Option (List Char × List Char)
  | '0' :: rest => some (['0'], rest)
  | cs => digitsRest? Char.isDigit cs

/-- The digits behind a point, if there is one. -/
def fraction? : List Char → Option (List Char × List Char)
  | '.' :: rest => digitsRest? Char.isDigit rest
  | cs => some ([], cs)

/-- The exponent, if there is one. -/
def power? : List Char → Option (Option Int × List Char)
  | c :: rest =>
    if c == 'e' || c == 'E' then do
      let (down, rest) := sign rest
      let (digits, rest) ← digitsRest? Char.isDigit rest
      let n := min (inBase 10 digits) 100000
      some (some (if down then -(n : Int) else n), rest)
    else some (none, c :: rest)
  | [] => some (none, [])

/-- A double from its digits. One that is too large has no value, but one that
is too small by far is the negative infinity. -/
def double? (negative : Bool) (whole part : List Char) (power : Int) : Option Float :=
  let shift := power - part.length
  let x := Float.ofScientific (inBase 10 (whole ++ part)) (shift < 0) shift.natAbs
  if negative then some (-x) else if x.isInf then none else some x

/-- A number that is no integer in another base. -/
def decimal? (cs : List Char) : Option (Json × List Char) := do
  let (negative, cs) := sign cs
  match cs with
  | 'i' :: 'n' :: 'f' :: rest =>
    some (.float (if negative then -(1.0 / 0.0) else 1.0 / 0.0), rest)
  | 'n' :: 'a' :: 'n' :: rest => some (.float (0.0 / 0.0), rest)
  | _ =>
    let (whole, rest) ← whole? cs
    let (part, rest) ← fraction? rest
    let (power, rest) ← power? rest
    if part.isEmpty && power.isNone then
      let n := inBase 10 whole
      if n < Word.half + negative.toNat then
        some (.int (if negative then -(n : Int) else n), rest)
      else none
    else some (.float (← double? negative whole part (power.getD 0)), rest)

/-- A number. -/
def number? : List Char → Option (Json × List Char)
  | '0' :: 'x' :: rest => based? 16 rest
  | '0' :: 'o' :: rest => based? 8 rest
  | '0' :: 'b' :: rest => based? 2 rest
  | cs => decimal? cs

/-- A given number of digits that spell a number within bounds. -/
def field? (count least most : Nat) (cs : List Char) : Option (Nat × List Char) :=
  let digits := cs.take count
  let n := inBase 10 digits
  if digits.length == count && digits.all Char.isDigit && least ≤ n && n ≤ most then
    some (n, cs.drop count)
  else none

/-- The text behind a given character. -/
def mark? (c : Char) : List Char → Option (List Char)
  | d :: rest => if c == d then some rest else none
  | [] => none

/-- The number of days in a month. -/
def daysOf (year month : Nat) : Nat :=
  if month == 2 then if year % 4 == 0 && (year % 100 != 0 || year % 400 == 0) then 29 else 28
  else if [4, 6, 9, 11].contains month then 30
  else 31

/-- The text behind a date. -/
def date? (cs : List Char) : Option (List Char) := do
  let (year, cs) ← field? 4 0 9999 cs
  let (month, cs) ← field? 2 1 12 (← mark? '-' cs)
  let (_, cs) ← field? 2 1 (daysOf year month) (← mark? '-' cs)
  some cs

/-- The text behind a time of day. -/
def clock? (cs : List Char) : Option (List Char) := do
  let (_, cs) ← field? 2 0 23 cs
  let (_, cs) ← field? 2 0 59 (← mark? ':' cs)
  let (_, cs) ← field? 2 0 60 (← mark? ':' cs)
  match cs with
  | '.' :: rest =>
    let digits := rest.takeWhile Char.isDigit
    if digits.isEmpty then none else some (rest.drop digits.length)
  | cs => some cs

/-- The text behind the difference from universal time, if there is one. -/
def offset? : List Char → Option (List Char)
  | c :: rest =>
    if c == 'Z' || c == 'z' then some rest
    else if c == '+' || c == '-' then do
      let (_, cs) ← field? 2 0 23 rest
      let (_, cs) ← field? 2 0 59 (← mark? ':' cs)
      some cs
    else some (c :: rest)
  | [] => some []

/-- The text behind a date, a time of day or both. -/
def moment? (cs : List Char) : Option (List Char) :=
  match date? cs with
  | none => clock? cs
  | some rest =>
    match rest with
    | c :: behind =>
      if c == 'T' || c == 't' || c == ' ' then
        match clock? behind with
        | some behind => offset? behind
        | none => some rest
      else some rest
    | [] => some []

/-- A truth value, a time or a number. -/
def word? (cs : List Char) : Option (Json × List Char) :=
  match cs with
  | 't' :: 'r' :: 'u' :: 'e' :: rest => some (.bool true, rest)
  | 'f' :: 'a' :: 'l' :: 's' :: 'e' :: rest => some (.bool false, rest)
  | cs =>
    match moment? cs with
    | some rest => some (.str (String.ofList (cs.take (cs.length - rest.length))), rest)
    | none => number? cs

end Stepwise.Toml
