import Stepwise.Config.Ini
import Stepwise.Config.Toml.Document
import Stepwise.Config.Variables

/-!
# Loading the configuration

The configuration has three layers: the defaults, a file, and variables of
the environment, each laid over the one before. A file that is asked for must
be there; otherwise the usual one is taken if there is one.
-/

namespace Stepwise

/-- What is around the program: the files it can see and the variables that are set. -/
structure Surroundings where
  /-- Files by name, with their text. -/
  files : List (String × String) := []
  /-- Variables. -/
  bindings : Variables.Bindings := []
deriving Inhabited

/-- What stands at the end of a path. -/
inductive Entry where
  /-- A file with its text. -/
  | file (text : String)
  /-- A folder, by the names that lead to it. -/
  | folder (names : List String)
  /-- A folder that the working folder is in. -/
  | above

namespace Surroundings

/-- One step of a path. -/
def follow (s : Surroundings) : Entry → String → Option Entry
  | .file _, _ => none
  | .above, part => if part == "" || part == "." || part == ".." then some .above else none
  | .folder names, part =>
    if part == "" || part == "." then some (.folder names)
    else if part == ".." then
      some (if names.isEmpty then .above else .folder names.dropLast)
    else
      let names := names ++ [part]
      let name := "/".intercalate names
      match s.files.lookup name with
      | some text => some (.file text)
      | none =>
        if s.files.any fun file => file.1.startsWith (name ++ "/") then some (.folder names)
        else none

/-- What stands at a path. -/
def entry? (s : Surroundings) (path : String) : Option Entry :=
  if path.isEmpty then none
  else
    match s.files.lookup path with
    | some text => some (.file text)
    | none =>
      let start := if path.startsWith "/" then .above else .folder []
      (path.splitOn "/").foldlM s.follow start

/-- The text of a file, if it is there. -/
def file? (s : Surroundings) (path : String) : Option String :=
  match s.entry? path with
  | some (.file text) => some text
  | _ => none

end Surroundings

/-- Where a configuration is looked for. -/
structure ConfigSource where
  /-- The file that was asked for. -/
  path : Option String := none
  /-- Whether variables count. -/
  useVariables : Bool := true
deriving Inhabited

namespace Config

/-- The file that is taken when none is asked for. -/
def usualFile : String := "cadence.toml"

/-- The file with more variables. -/
def variablesFile : String := ".env"

/-- The end of a file's name behind its last point, if there is something before it. -/
def extension? (path : String) : Option String :=
  let name := ((path.splitOn "/").getLast?).getD ""
  match (name.splitOn ".").reverse with
  | last :: before => if (".".intercalate before.reverse).isEmpty then none else some last
  | [] => none

/-- The settings that a file gives. The end of its name tells its form. Of
YAML only the empty file is understood. -/
def readFile? (path text : String) : Option Settings.Table :=
  match extension? path with
  | some "toml" => Toml.parse? text
  | some "json" => do
    let tree ← Json.parse? text
    if tree.isWhole then (Settings.ofJson tree).asMembers? else none
  | some "ini" => Ini.parse? text
  | some "yaml" | some "yml" => if text.toList.all Text.isBlank then some [] else none
  | _ => none

/-- The settings of the file that counts. -/
def fileSettings (s : Surroundings) (path : Option String) : Except ConfigError Settings.Table :=
  let read (path : String) : Entry → Except ConfigError Settings.Table
    | .file text => (readFile? path text).elim (.error .unreadable) .ok
    | _ => .error .unreadable
  match path with
  | some path => (s.entry? path).elim (.error (.notFound path)) (read path)
  | none => (s.entry? usualFile).elim (.ok []) (read usualFile)

/-- All variables: those that are set, and those that only the file of variables has. -/
def allVariables (s : Surroundings) : Variables.Bindings :=
  (s.file? variablesFile).elim s.bindings (Variables.addFile s.bindings)

/-- Load the configuration. -/
def load (s : Surroundings) (source : ConfigSource) : Except ConfigError Config := do
  let file ← fileSettings s source.path
  let tree := Settings.layer file (Settings.layer (toSettings {}) (.obj []))
  let tree :=
    if source.useVariables then Settings.layer (Variables.settings (allVariables s)) tree else tree
  match Config.ofSettings? tree with
  | some config => config.validate
  | none => .error .unreadable

end Config

end Stepwise
