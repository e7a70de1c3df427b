import Stepwise.Config.Basic
import Stepwise.Json.Text
import Stepwise.Word

/-!
# Settings

Settings are a tree: tables of named values, which may be tables or lists
again. Trees are laid over one another, the later one winning where both give
a value. Names of settings do not depend on case, and the names of a layer are
paths into the tree. A configuration is read off a tree; whatever the tree
does not say keeps its default, and what it says beyond the configuration is
ignored.
-/

namespace Stepwise.Settings

/-- A table of settings. -/
abbrev Table := List (String × Json)

/-- A name in lower case. Beyond ASCII only the Kelvin sign counts: no other
character has an ASCII letter as its lower case. -/
def lower (name : String) : String :=
  name.map fun c => if c.toNat == 0x212A then 'k' else c.toLower

/-- Change the setting of a name; one that is missing counts as an empty
table, and is added. -/
def update (name : String) (f : Json → Json) : Table → Table
  | [] => [(name, f (.obj []))]
  | (key, old) :: rest =>
    if key == name then (key, f old) :: rest else (key, old) :: update name f rest

/-- The settings of a value that is a table. -/
def table : Json → Table
  | .obj settings => settings
  | _ => []

/-- The items of a value that is a list. -/
def list : Json → List Json
  | .arr items => items
  | _ => []

mutual

/-- Lay a value over another. A table is joined to what was there, and an
empty one changes nothing; anything else replaces what was there. -/
def overlay : Json → Json → Json
  | .obj settings, old => overlayTable settings old
  | value, _ => value

/-- Lay a table over a value. -/
def overlayTable : Table → Json → Json
  | [], old => old
  | (name, value) :: rest, old =>
    overlayTable rest (.obj (update (lower name) (overlay value) (table old)))

end

/-- A step of a path into a tree. -/
inductive Step where
  /-- To the setting of a name. -/
  | name (word : String)
  /-- To an item of a list, counted from its end if the number is negative. -/
  | index (number : Int)
deriving DecidableEq

/-- Change an item of a list, which is filled up with nothing where it is too
short. An item before the first one is nowhere. -/
def updateItem (number : Int) (f : Json → Json) (items : List Json) : List Json :=
  let place := if 0 ≤ number then number else items.length + number
  if place < 0 then items
  else
    let items := items ++ List.replicate (place.toNat + 1 - items.length) .null
    items.modify place.toNat f

/-- Lay a value over the one at the end of a path. Tables and lists are made
on the way where there are none. What is put into a list is not joined. -/
def place (value : Json) : List Step → Json → Json
  | [], old => overlay value old
  | [.index n], old => .arr (updateItem n (fun _ => value) (list old))
  | .index n :: rest, old => .arr (updateItem n (place value rest) (list old))
  | .name word :: rest, old => .obj (update (lower word) (place value rest) (table old))

/-- Characters of a name in a path. -/
def isNameChar (c : Char) : Bool := c.isAlphanum || c == '_' || c == '-' || c == ' '

/-- Blanks around the number of an item. -/
def isGap (c : Char) : Bool := c == ' ' || c == '\t'

/-- The step to a name at the start of a text, and what follows. -/
def nameStep? (cs : List Char) : Option (Step × List Char) :=
  let word := cs.takeWhile isNameChar
  if word.isEmpty then none else some (.name (String.ofList word), cs.drop word.length)

/-- The step to an item behind an opening bracket, and what follows. -/
def indexStep? (cs : List Char) : Option (Step × List Char) :=
  let (negative, cs) :=
    match cs.dropWhile isGap with
    | '-' :: rest => (true, rest)
    | rest => (false, rest)
  match Json.digitRun cs with
  | ([], _) => none
  | (digits, rest) =>
    let n := Json.Numeral.value digits
    match rest.dropWhile isGap with
    | ']' :: rest =>
      if n < Word.half + negative.toNat then
        some (.index (if negative then -(n : Int) else n), rest)
      else none
    | _ => none

/-- The steps behind the first one. -/
def steps? : Nat → List Char → Option (List Step)
  | _, [] => some []
  | 0, _ => none
  | fuel + 1, c :: rest => do
    let (step, rest) ← if c == '.' then nameStep? rest else if c == '[' then indexStep? rest else none
    some (step :: (← steps? fuel rest))

/-- The path that a name stands for. A name that is no path stands for itself. -/
def path (name : String) : List Step :=
  let steps := do
    let (first, rest) ← nameStep? name.toList
    some (first :: (← steps? rest.length rest))
  steps.getD [.name name]

/-- Lay named values over a tree, one after another. -/
def layer (settings : Table) (tree : Json) : Json :=
  settings.foldl (fun tree (name, value) => place value (path name) tree) tree

mutual

/-- The settings that a JSON tree gives. Of members with one name the last one
counts, and integers beyond the signed ones of 64 bits are rounded to doubles. -/
def ofJson : Json → Json
  | .int n => if n < Word.half then .int n else .float n.toNat.toUInt64.toFloat
  | .arr items => .arr (ofItems items)
  | .obj members => .obj (ofMembers members)
  | j => j

/-- The settings that the items of a list give. -/
def ofItems : List Json → List Json
  | [] => []
  | item :: rest => ofJson item :: ofItems rest

/-- The settings that the members of an object give. -/
def ofMembers : List (String × Json) → Table
  | [] => []
  | (name, item) :: rest =>
    let others := ofMembers rest
    if (others.lookup name).isSome then others else (name, ofJson item) :: others

end

/-- The words that switch something on. -/
def isOn (word : String) : Bool := ["true", "on", "yes"].contains word

/-- The words that switch something off. -/
def isOff (word : String) : Bool := ["false", "off", "no"].contains word

/-- Decimal digits behind an optional plus sign, below a bound. -/
def digits? (bound : Nat) (cs : List Char) : Option Nat :=
  let cs := if cs.head? == some '+' then cs.drop 1 else cs
  match Json.digitRun cs with
  | ([], _) => none
  | (digits, []) =>
    let n := Json.Numeral.value digits
    if n < bound then some n else none
  | _ => none

/-- A value as a number. Words for on and off count as one and zero, and
fractions are rounded. -/
def number? : Json → Option Nat
  | .int n => if 0 ≤ n && n < Word.count then some n.toNat else none
  | .float x => some x.round.toUInt64.toNat
  | .bool b => some b.toNat
  | .str s =>
    if isOn s.toLower then some 1
    else if isOff s.toLower then some 0
    else digits? Word.count s.toList
  | _ => none

/-- A value as a switch. A number switches on unless it is zero. -/
def switch? : Json → Option Bool
  | .bool b => some b
  | .int n => some (n != 0)
  | .float x => some (x != 0.0)
  | .str s =>
    if isOn s.toLower || s == "1" then some true
    else if isOff s.toLower || s == "0" then some false
    else none
  | _ => none

/-- The settings of a section, whose names are given in order. A section that
is missing is empty, and one that is a list gives its first settings. -/
def section? (tree : Json) (name : String) (names : List String) : Option Table :=
  match tree.get? name with
  | none => some []
  | some (.obj settings) => some settings
  | some (.arr items) => some (names.zip items)
  | some _ => none

/-- A setting, or its default if it is missing. -/
def setting? {α : Type} (settings : Table) (name : String) (read : Json → Option α)
    (fallback : α) : Option α :=
  match settings.lookup name with
  | none => some fallback
  | some value => read value

end Stepwise.Settings

namespace Stepwise

/-- The names of the limits. -/
def Limits.settingNames : List String :=
  ["max_call_depth", "calls_per_worker", "worker_stack_size"]

/-- The names of the settings for calls. -/
def Lowering.Options.settingNames : List String := ["inline", "recursion_inline_limit"]

/-- The names of the settings of a session. -/
def Config.sessionNames : List String := ["keep_alive", "trace_statements"]

/-- A configuration as settings. -/
def Config.toSettings (c : Config) : Settings.Table :=
  [("interpreter", .obj (Limits.settingNames.zip
      [.int c.limits.maxCallDepth, .int c.limits.callsPerWorker, .int c.limits.workerStackSize])),
    ("optimizer", .obj (Lowering.Options.settingNames.zip
      [.bool c.lowering.inline, .int c.lowering.recursionLimit])),
    ("session", .obj (Config.sessionNames.zip [.bool c.keepAlive, .bool c.traceStatements]))]

/-- The configuration that a tree of settings describes, if all values that
matter are of the right kind. -/
def Config.ofSettings? (tree : Json) : Option Config := do
  let fallback : Config := {}
  let interpreter ← Settings.section? tree "interpreter" Limits.settingNames
  let optimizer ← Settings.section? tree "optimizer" Lowering.Options.settingNames
  let session ← Settings.section? tree "session" Config.sessionNames
  let number table name := Settings.setting? table name Settings.number?
  let switch table name := Settings.setting? table name Settings.switch?
  let depth ← number interpreter "max_call_depth" fallback.limits.maxCallDepth
  let calls ← number interpreter "calls_per_worker" fallback.limits.callsPerWorker
  let size ← number interpreter "worker_stack_size" fallback.limits.workerStackSize
  let inline ← switch optimizer "inline" fallback.lowering.inline
  let limit ← number optimizer "recursion_inline_limit" fallback.lowering.recursionLimit
  let keepAlive ← switch session "keep_alive" fallback.keepAlive
  let traceStatements ← switch session "trace_statements" fallback.traceStatements
  some ⟨⟨depth, calls, size⟩, ⟨inline, limit⟩, keepAlive, traceStatements⟩

end Stepwise
