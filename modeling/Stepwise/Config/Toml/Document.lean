import Stepwise.Config.Toml.Scalar
import Stepwise.Config.Toml.Tree

/-!
# Settings from TOML text

A file of settings has lines `name = value` and headers `[table]` or
`[[table]]`, under which the following lines stand. Names are bare, quoted or
joined by points; values are single ones, lists and tables in braces. Neither a
name nor the nesting of values may reach `depthLimit`. The fuel arguments are
lengths of text, of which each step uses up a part.
-/

namespace Stepwise.Toml

/-- Names have fewer parts than this, and values fewer levels of lists and braces. -/
def depthLimit : Nat := 80

/-- The text behind a comment, if there is one. -/
def comment : List Char → List Char
  | '#' :: rest => rest.dropWhile isPrintable
  | cs => cs

/-- The text behind the end of a line, which only a comment may precede. -/
def lineEnd? (cs : List Char) : Option (List Char) :=
  match comment (gap cs) with
  | [] => some []
  | rest => lineBreak? rest

/-- The text behind blank lines and comments. -/
def skipLines : Nat → List Char → List Char
  | 0, cs => cs
  | fuel + 1, cs =>
    match gap cs with
    | [] => []
    | rest =>
      match lineEnd? rest with
      | some rest => skipLines fuel rest
      | none => rest

/-- Characters of a bare name. -/
def isBare (c : Char) : Bool := c.isAlphanum || c == '_' || c == '-'

/-- One part of a name. -/
def namePart? : List Char → Option (String × List Char)
  | '"' :: rest => quotedText? rest
  | '\'' :: rest => literalText? rest
  | cs =>
    let bare := cs.takeWhile isBare
    if bare.isEmpty then none else some (String.ofList bare, cs.drop bare.length)

/-- The parts of a name, joined by points: no more than `count`. -/
def nameParts? : Nat → List Char → Option (List String × List Char)
  | 0, _ => none
  | count + 1, cs => do
    let (part, rest) ← namePart? (gap cs)
    match gap rest with
    | '.' :: rest =>
      let (parts, rest) ← nameParts? count rest
      some (part :: parts, rest)
    | rest => some ([part], rest)

/-- A name. -/
def name? (cs : List Char) : Option (List String × List Char) := nameParts? (depthLimit - 1) cs

mutual

/-- A value of at most `depth` levels of lists and braces. -/
def value? : Nat → Nat → List Char → Option (Json × List Char)
  | 0, _, _ => none
  | fuel + 1, depth, cs =>
    match cs with
    | '"' :: rest => (text? '"' rest).map fun (s, rest) => (.str s, rest)
    | '\'' :: rest => (text? '\'' rest).map fun (s, rest) => (.str s, rest)
    | '[' :: rest =>
      match depth with
      | 0 => none
      | depth + 1 => (items? fuel depth rest).map fun (items, rest) => (.arr items, rest)
    | '\x7b' :: rest =>
      match depth with
      | 0 => none
      | depth + 1 =>
        match gap rest with
        | '\x7d' :: rest => some (.obj [], rest)
        | _ =>
          (members? fuel depth [] rest).map fun (members, rest) => (.obj (settingsOf members), rest)
    | cs => word? cs

/-- The items of a list, which may go over several lines, up to its closing bracket. -/
def items? : Nat → Nat → List Char → Option (List Json × List Char)
  | 0, _, _ => none
  | fuel + 1, depth, cs =>
    match skipLines (fuel + 1) cs with
    | ']' :: rest => some ([], rest)
    | cs =>
      match value? fuel depth cs with
      | none => none
      | some (item, rest) =>
        match skipLines (fuel + 1) rest with
        | ',' :: rest => (items? fuel depth rest).map fun (items, rest) => (item :: items, rest)
        | ']' :: rest => some ([item], rest)
        | _ => none

/-- The members of a table in braces, up to its closing brace. -/
def members? : Nat → Nat → Members → List Char → Option (Members × List Char)
  | 0, _, _, _ => none
  | fuel + 1, depth, members, cs =>
    match name? cs with
    | some (path, '=' :: rest) =>
      match value? fuel depth (gap rest) with
      | none => none
      | some (value, rest) =>
        match insert? value true path members with
        | none => none
        | some members =>
          match gap rest with
          | ',' :: rest => members? fuel depth members rest
          | '\x7d' :: rest => some (members, rest)
          | _ => none
    | _ => none

end

/-- The lines of a file; `header` is the table they stand under. -/
def lines? : Nat → List String → Members → List Char → Option Members
  | 0, _, _, _ => none
  | fuel + 1, header, members, cs =>
    match skipLines (fuel + 1) cs with
    | [] => some members
    | '[' :: '[' :: rest => do
      match ← name? rest with
      | (path, ']' :: ']' :: rest) =>
        lines? fuel path (← openItem? path members) (← lineEnd? rest)
      | _ => none
    | '[' :: rest => do
      match ← name? rest with
      | (path, ']' :: rest) => lines? fuel path (← openTable? path members) (← lineEnd? rest)
      | _ => none
    | cs => do
      match ← name? cs with
      | (path, '=' :: rest) =>
        let (value, rest) ← value? (fuel + 1) (depthLimit - 1) (gap rest)
        lines? fuel header (← add? header path value members) (← lineEnd? rest)
      | _ => none

/-- The settings that a file gives, if it can be read. -/
def parse? (text : String) : Option Settings.Table :=
  let cs :=
    match text.toList with
    | [] => []
    | c :: rest => if c.toNat == 0xFEFF then rest else c :: rest
  (lines? (cs.length + 1) [] [] cs).map settingsOf

end Stepwise.Toml
