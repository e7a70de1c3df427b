import Stepwise.Config.Settings

/-!
# Trees of TOML tables

A file of settings says everything once. A table comes about in one of three
ways, and that decides what may still be added to it: by a header of its own,
on the way to the table of another header, or by a name with points. A header
can be given to a table on the way, but not to the others; a name with points
can go on into a table that is not closed by a header, and ends in a table
made by such names.
-/

namespace Stepwise.Toml

/-- How a table came about. -/
inductive Origin where
  /-- By its own header. -/
  | header
  /-- On the way to another header. -/
  | way
  /-- By a name with points. -/
  | points
deriving DecidableEq

/-- What a name stands for. -/
inductive Node where
  /-- A value, which is complete. -/
  | value (value : Json)
  /-- A table. -/
  | table (origin : Origin) (members : List (String × Node))
  /-- A list of tables by headers: those that are complete, and the last one. -/
  | tables (complete : List Json) (last : List (String × Node))

/-- The members of a table. -/
abbrev Members := List (String × Node)

mutual

/-- The settings of a node. -/
def Node.settings : Node → Json
  | .value value => value
  | .table _ members => .obj (settingsOf members)
  | .tables complete last => .arr (complete ++ [.obj (settingsOf last)])

/-- The settings of a table. -/
def settingsOf : List (String × Node) → Settings.Table
  | [] => []
  | (name, node) :: rest => (name, node.settings) :: settingsOf rest

end

/-- Change the node of a name, if it can be changed; a name without one is added. -/
def change? (name : String) (f : Option Node → Option Node) : Members → Option Members
  | [] => do some [(name, ← f none)]
  | (key, node) :: rest => do
    if key == name then some ((key, ← f (some node)) :: rest)
    else some ((key, node) :: (← change? name f rest))

/-- Put a value at the end of a path of names joined by points. `fits` tells
whether the table at hand may take a value of its own. -/
def insert? (value : Json) : Bool → List String → Members → Option Members
  | _, [] => fun _ => none
  | fits, [name] => fun members =>
    if fits then change? name (fun old => if old.isSome then none else some (.value value)) members
    else none
  | _, name :: rest => change? name fun
    | none => (insert? value true rest []).map (.table .points)
    | some (.table .header _) => none
    | some (.table origin inner) =>
      (insert? value (origin = .points) rest inner).map (.table origin)
    | some (.tables complete last) => (insert? value false rest last).map (.tables complete)
    | some (.value _) => none

/-- Change the table at the end of the path of a header. Tables are made on
the way; of a list of tables the last one counts. -/
def descend? (f : String → Members → Option Members) : List String → Members → Option Members
  | [] => fun _ => none
  | [name] => f name
  | name :: rest => change? name fun
    | none => (descend? f rest []).map (.table .way)
    | some (.table origin inner) => (descend? f rest inner).map (.table origin)
    | some (.tables complete last) => (descend? f rest last).map (.tables complete)
    | some (.value _) => none

/-- Open the table of a header `[path]`, which nothing has said before. -/
def openTable? (path : List String) : Members → Option Members :=
  descend? (fun name => change? name fun
    | none => some (.table .header [])
    | some (.table .way inner) => some (.table .header inner)
    | some _ => none) path

/-- Open the next table of a list by a header `[[path]]`. -/
def openItem? (path : List String) : Members → Option Members :=
  descend? (fun name => change? name fun
    | none => some (.tables [] [])
    | some (.tables complete last) => some (.tables (complete ++ [.obj (settingsOf last)]) [])
    | some _ => none) path

/-- Put a value into the table of a header; the empty path is the whole file. -/
def add? (header path : List String) (value : Json) (members : Members) : Option Members :=
  match header with
  | [] => insert? value true path members
  | header =>
    descend? (fun name => change? name fun
      | some (.table origin inner) => (insert? value true path inner).map (.table origin)
      | some (.tables complete last) => (insert? value true path last).map (.tables complete)
      | _ => none) header members

end Stepwise.Toml
