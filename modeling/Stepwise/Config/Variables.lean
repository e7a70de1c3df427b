import Stepwise.Config.Settings
import Stepwise.Text.Blank
import Stepwise.Text.Letter

/-!
# Settings from variables

Variables of the environment whose names start with the program's own word
are settings: the rest of the name is a path, with two underscores between
its parts. More variables can come from a file of `NAME=value` lines, which
never replace a variable that is set already. A value in such a file may be
quoted, refer to variables by `$NAME` and be followed by a comment, and the
line may be marked `export`. A line goes on while a quote is open. Each line
takes effect at once, and reading stops at the first line that makes no sense.
-/

namespace Stepwise.Variables

/-- Variables by name. -/
abbrev Bindings := List (String × String)

/-- The word that the names of settings start with, in lower case. -/
def marker : String := "cadence__"

/-- The name of the setting that a variable stands for: its path, with points
between the parts. -/
def settingName? (name : String) : Option String :=
  let lower := (Settings.lower name).toList
  if marker.toList.isPrefixOf lower then
    some (".".intercalate ((String.ofList (lower.drop marker.length)).splitOn "__"))
  else none

/-- A decimal fraction with an optional exponent, behind its sign. Exponents
far beyond the range of doubles are cut. -/
def fraction? (cs : List Char) : Option Float := do
  let (whole, rest) := Json.digitRun cs
  let (part, rest) :=
    match rest with
    | '.' :: rest => Json.digitRun rest
    | _ => ([], rest)
  let (power, rest) ← Json.powerPart? rest
  if (whole ++ part).isEmpty || !rest.isEmpty then none
  else
    let power : Int :=
      match power with
      | none => 0
      | some (down, digits) =>
        let n := min (Json.Numeral.value digits) 10000
        if down then -n else n
    let shift := power - part.length
    some (Float.ofScientific (Json.Numeral.value (whole ++ part)) (shift < 0) shift.natAbs)

/-- A double as it may be written in a variable. -/
def double? (cs : List Char) : Option Float :=
  let unsigned (cs : List Char) : Option Float :=
    match (String.ofList cs).toLower with
    | "inf" | "infinity" => some (1.0 / 0.0)
    | "nan" => some (0.0 / 0.0)
    | _ => fraction? cs
  match cs with
  | '+' :: cs => unsigned cs
  | '-' :: cs => (unsigned cs).map (- ·)
  | cs => unsigned cs

/-- An integer of 64 bits. -/
def integer? : List Char → Option Int
  | '-' :: cs =>
    match cs with
    | '+' :: _ => none
    | cs => (Settings.digits? (Word.half + 1) cs).map fun n => -(n : Int)
  | cs => (Settings.digits? Word.half cs).map fun n => (n : Int)

/-- The value that the text of a variable spells: a truth value, an integer or
a double if it can be read as one, and otherwise the text itself. -/
def value (text : String) : Json :=
  match text.toLower with
  | "true" => .bool true
  | "false" => .bool false
  | _ =>
    match integer? text.toList with
    | some n => .int n
    | none =>
      match double? text.toList with
      | some x => .float x
      | none => .str text

/-- The settings that variables stand for. -/
def settings (vars : Bindings) : Settings.Table :=
  vars.filterMap fun (name, text) => (settingName? name).map (·, value text)

/-- What the reader of a line is in the middle of. -/
inductive Mode where
  /-- Plain text. -/
  | text
  /-- Plain text, behind a blank. -/
  | gap
  /-- Behind a backslash. -/
  | escape
  /-- Between double quotes. -/
  | weak
  /-- Between double quotes, behind a backslash. -/
  | weakEscape
  /-- Between single quotes. -/
  | strong
  /-- Between single quotes, behind a backslash. -/
  | strongEscape
deriving DecidableEq

/-- The mode that a character of plain text leads to. -/
def Mode.opened (c : Char) : Mode :=
  if c == '\\' then .escape else if c == '"' then .weak else if c == '\'' then .strong else .text

/-- The mode behind a character. -/
def Mode.next : Mode → Char → Mode
  | .text, c => if Text.isBlank c && c != '\n' && c != '\r' then .gap else .opened c
  | .gap, c => .opened c
  | .escape, _ => .text
  | .weak, c => if c == '\\' then .weakEscape else if c == '"' then .text else .weak
  | .weakEscape, _ => .weak
  | .strong, c => if c == '\\' then .strongEscape else if c == '\'' then .text else .strong
  | .strongEscape, _ => .strong

/-- The text behind the end of the line. -/
def afterLine (cs : List Char) : List Char := (cs.dropWhile (· != '\n')).drop 1

/-- The rest of a line without a comment at its end, and what follows the
line; nothing if the text ends before the line does. `acc` holds the
characters of the line so far, last one first. -/
def lineRest : Mode → List Char → List Char → Option (List Char × List Char)
  | mode, acc, [] => if mode = .text then some (acc.reverse, []) else none
  | mode, acc, c :: rest =>
    if mode = .gap && c == '#' then some (acc.reverse, afterLine rest)
    else if c == '\n' && mode.next c = .text then some (acc.reverse, rest)
    else lineRest (mode.next c) (c :: acc) rest

/-- Whether the line at the start of a text is a comment. -/
def isComment (cs : List Char) : Bool :=
  ((cs.takeWhile (· != '\n')).dropWhile Text.isBlank).head? == some '#'

/-- How a part of a value is quoted. -/
inductive Quoting where
  | plain | weak | strong
deriving DecidableEq

/-- Where the reader of a value is. -/
inductive Spot where
  /-- In ordinary text. -/
  | here
  /-- Behind a backslash. -/
  | escaped
  /-- Behind the value. -/
  | ended
  /-- In a reference to a variable, with or without braces. -/
  | reference (braced : Bool) (name : List Char)

/-- The text of a variable; empty if it is not set. -/
def textOf (vars : Bindings) (name : List Char) : List Char :=
  ((vars.lookup (String.ofList name)).getD "").toList

/-- What a character behind a backslash stands for. -/
def escape? (c : Char) : Option Char :=
  if c == 'n' then some '\n' else if ['\\', '\'', '"', '$', ' '].contains c then some c else none

/-- The rest of a value. A character that ends a reference stands for itself,
also if it is a quote. -/
def valueRest? (vars : Bindings) : Quoting → Spot → List Char → Option (List Char)
  | .plain, .reference false name, [] => some (textOf vars name)
  | .plain, .reference true _, [] => none
  | .plain, _, [] => some []
  | _, _, [] => none
  | quoting, .ended, c :: rest =>
    if Settings.isGap c then valueRest? vars quoting .ended rest
    else if c == '#' then some []
    else none
  | quoting, .escaped, c :: rest =>
    (escape? c).bind fun c => (valueRest? vars quoting .here rest).map (c :: ·)
  | quoting, .reference true name, c :: rest =>
    if c == '\x7d' then (valueRest? vars quoting .here rest).map (textOf vars name ++ ·)
    else valueRest? vars quoting (.reference true (name ++ [c])) rest
  | quoting, .reference false name, c :: rest =>
    if Text.isWordChar c then valueRest? vars quoting (.reference false (name ++ [c])) rest
    else if c == '\x7b' && name.isEmpty then valueRest? vars quoting (.reference true []) rest
    else if c == '$' then
      (valueRest? vars quoting (.reference false []) rest).map (textOf vars name ++ ·)
    else (valueRest? vars quoting .here rest).map (textOf vars name ++ c :: ·)
  | .strong, .here, c :: rest =>
    if c == '\'' then valueRest? vars .plain .here rest
    else (valueRest? vars .strong .here rest).map (c :: ·)
  | .weak, .here, c :: rest =>
    if c == '$' then valueRest? vars .weak (.reference false []) rest
    else if c == '"' then valueRest? vars .plain .here rest
    else if c == '\\' then valueRest? vars .weak .escaped rest
    else (valueRest? vars .weak .here rest).map (c :: ·)
  | .plain, .here, c :: rest =>
    if c == '$' then valueRest? vars .plain (.reference false []) rest
    else if c == '\'' then valueRest? vars .strong .here rest
    else if c == '"' then valueRest? vars .weak .here rest
    else if c == '\\' then valueRest? vars .plain .escaped rest
    else if Settings.isGap c then valueRest? vars .plain .ended rest
    else (valueRest? vars .plain .here rest).map (c :: ·)

/-- The name at the start of a text, and what follows. -/
def lineName? (cs : List Char) : Option (String × List Char) :=
  let isInner (c : Char) := c.isAlphanum || c == '_' || c == '.'
  match cs with
  | [] => none
  | c :: _ =>
    if c.isAlpha || c == '_' then
      some (String.ofList (cs.takeWhile isInner), (cs.dropWhile isInner).dropWhile Text.isBlank)
    else none

/-- Whether there is nothing in a text, or only a comment. -/
def isTail (cs : List Char) : Bool := cs.isEmpty || cs.head? == some '#'

/-- The binding that a line makes, if it makes one. -/
def line? (vars : Bindings) (line : List Char) : Option (Option (String × String)) := do
  let cs := (Text.trimEnd line).dropWhile Text.isBlank
  if isTail cs then some none
  else
    let (name, rest) ← lineName? cs
    let (name, rest) ←
      if name == "export" && rest.head? != some '=' then lineName? rest else some (name, rest)
    match rest with
    | '=' :: rest =>
      let rest := rest.dropWhile Text.isBlank
      if isTail rest then some (some (name, ""))
      else
        let chars ← valueRest? vars .plain .here rest
        some (some (name, String.ofList chars))
    | _ => none

/-- Add a binding for a name that has none yet. -/
def bind (vars : Bindings) (binding : String × String) : Bindings :=
  if (vars.lookup binding.1).isSome then vars else vars ++ [binding]

/-- Add the bindings of the lines of a text, up to the first line that makes
no sense. Every line has at least one character. -/
def addLines : Nat → Bindings → List Char → Bindings
  | 0, vars, _ => vars
  | _, vars, [] => vars
  | fuel + 1, vars, cs =>
    if isComment cs then addLines fuel vars (afterLine cs)
    else
      match lineRest .text [] cs with
      | none => vars
      | some (line, rest) =>
        match line? vars line with
        | none => vars
        | some none => addLines fuel vars rest
        | some (some binding) => addLines fuel (bind vars binding) rest

/-- Add the bindings of a file. A mark of the byte order at its start is
passed over. -/
def addFile (vars : Bindings) (text : String) : Bindings :=
  let cs :=
    match text.toList with
    | [] => []
    | c :: rest => if c.toNat == 0xFEFF then rest else c :: rest
  addLines cs.length vars cs

end Stepwise.Variables
