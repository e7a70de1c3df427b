import Stepwise.Config.Settings
import Stepwise.Text.Blank

/-!
# Settings from INI text

Lines `name = value` or `name : value` under headers `[section]`; lines before
the first header stand for themselves. All values are texts. A value goes to
the end of its line; a quoted part at its start may go further. Names and
values have no blanks at their ends, quoted or not. A backslash takes the
character behind it, wherever it stands. Comments have a line of their own,
from its first character on.
-/

namespace Stepwise.Ini

/-- The text behind blanks and line breaks, and whether it starts a line. -/
def skip : Bool → List Char → Bool × List Char
  | start, [] => (start, [])
  | start, c :: rest => if Text.isBlank c then skip (c == '\n') rest else (start, c :: rest)

/-- Blanks inside a line. -/
def isGap (c : Char) : Bool := Text.isBlank c && c != '\n' && c != '\r'

/-- What a character behind a backslash stands for. -/
def escaped (c : Char) : List Char :=
  if c == '0' then ['\x00'] else if c == 'a' then ['\x07'] else if c == 'b' then ['\x08']
  else if c == 't' then ['\t'] else if c == 'r' then ['\r'] else if c == 'n' then ['\n']
  else if c == '\n' then []
  else [c]

/-- The character that four hexadecimal digits give. A plus sign may stand for
the first of them. -/
def codePoint? (cs : List Char) : Option (Char × List Char) := do
  let (n, rest) ←
    match cs with
    | '+' :: rest => Json.hexFour? ('0' :: rest)
    | cs => Json.hexFour? cs
  if n < 0xD800 || 0xE000 ≤ n then some (Char.ofNat n, rest) else none

/-- The text up to one of the characters that end it, and what follows from
that one on. The end of the file ends it only if `atEnd` says so. -/
def upTo? (isEnd : Char → Bool) (atEnd : Bool) :
    Nat → List Char → Option (List Char × List Char)
  | 0, _ => none
  | _, [] => if atEnd then some ([], []) else none
  | fuel + 1, c :: rest =>
    if isEnd c then some ([], c :: rest)
    else if c == '\\' then
      match rest with
      | [] => none
      | 'x' :: rest => do
        let (c, rest) ← codePoint? rest
        let (cs, rest) ← upTo? isEnd atEnd fuel rest
        some (c :: cs, rest)
      | c :: rest => do
        let (cs, rest) ← upTo? isEnd atEnd fuel rest
        some (escaped c ++ cs, rest)
    else do
      let (cs, rest) ← upTo? isEnd atEnd fuel rest
      some (c :: cs, rest)

/-- The text up to the end of its line. -/
def restOfLine? (cs : List Char) : Option (List Char × List Char) :=
  upTo? (fun c => c == '\n' || c == '\r') true (cs.length + 1) cs

/-- A value: a quoted part, if there is one, and the rest of the line. -/
def value? : List Char → Option (List Char × List Char)
  | [] => some ([], [])
  | c :: rest =>
    if c == '"' || c == '\'' then do
      let (part, rest) ← upTo? (· == c) false (rest.length + 1) rest
      let (more, rest) ← restOfLine? (rest.drop 1)
      some (part ++ more, rest)
    else restOfLine? (c :: rest)

/-- A text without the blanks at both ends. -/
def trimmed (cs : List Char) : String := Text.trim (String.ofList cs)

/-- Put a value under a name of a section, or of the whole file. -/
def put (header : Option String) (name value : String) (table : Settings.Table) : Settings.Table :=
  let entry (table : Settings.Table) := Settings.update name (fun _ => .str value) table
  match header with
  | none => entry table
  | some header =>
    Settings.update header (fun old => .obj (entry (Settings.table old))) table

/-- The lines of a file. `header` is the section they stand under, and `start`
tells whether the text starts a line. -/
def lines? : Nat → Option String → Settings.Table → Bool → List Char → Option Settings.Table
  | 0, _, _, _, _ => none
  | fuel + 1, header, table, start, cs =>
    match skip start cs with
    | (_, []) => some table
    | (start, c :: rest) =>
      if c == ';' || c == '#' then
        if start then lines? fuel header table start (rest.dropWhile (· != '\n')) else none
      else if c == '[' then do
        let (name, rest) ← upTo? (· == ']') false (rest.length + 1) rest
        let name := trimmed name
        lines? fuel (some name) (Settings.update name (fun _ => .obj []) table) false (rest.drop 1)
      else do
        let (name, rest) ← upTo? (fun c => c == '=' || c == ':') false (rest.length + 2) (c :: rest)
        let name := trimmed name
        if name.isEmpty then none
        else
          let (value, rest) ← value? ((rest.drop 1).dropWhile isGap)
          lines? fuel header (put header name (trimmed value) table) false rest

/-- The settings that a file gives, if it can be read. -/
def parse? (text : String) : Option Settings.Table :=
  let cs := text.toList
  lines? (cs.length + 1) none [] true cs

end Stepwise.Ini
