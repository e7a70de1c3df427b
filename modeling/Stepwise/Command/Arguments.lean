import Stepwise.Command.Basic

/-!
# The words of a command line

A command line is the name of an action, the file with the program, options
in any order, and behind two dashes the arguments of the entry point.
-/

namespace Stepwise.Command

/-- What the words read so far have said. -/
structure Wording where
  /-- The configuration. -/
  config : Option String := none
  /-- The words that are no options. -/
  words : List String := []
  /-- Whether to debug. -/
  debugging : Bool := false
  /-- The breakpoints. -/
  breakpoints : List Nat := []
  /-- The arguments of the entry point. -/
  args : List String := []

/-- The value of an option that is written with an equals sign. -/
def assigned? (name word : String) : Option String :=
  let head := name ++ "="
  if head.toList.isPrefixOf word.toList then some (String.ofList (word.toList.drop head.length))
  else none

/-- Take a word that stands alone. -/
def Wording.take? (w : Wording) (word : String) : Option Wording :=
  if word == "--debug" then some { w with debugging := true }
  else
    match assigned? "--config" word, assigned? "--break" word with
    | some path, _ => some { w with config := some path }
    | none, some line =>
      line.toNat?.map fun line => { w with breakpoints := w.breakpoints ++ [line] }
    | none, none =>
      if word.startsWith "-" then none else some { w with words := w.words ++ [word] }

/-- Read words. An option can have its value in the word behind it. -/
def Wording.read? (w : Wording) : List String → Option Wording
  | [] => some w
  | "--" :: rest => some { w with args := rest }
  | "--config" :: path :: rest => Wording.read? { w with config := some path } rest
  | "--break" :: line :: rest => do
    Wording.read? { w with breakpoints := w.breakpoints ++ [← line.toNat?] } rest
  | "-b" :: line :: rest => do
    Wording.read? { w with breakpoints := w.breakpoints ++ [← line.toNat?] } rest
  | word :: rest => do Wording.read? (← w.take? word) rest

/-- The command that the words of a command line stand for. -/
def ofWords? (words : List String) : Option Command := do
  let w ← Wording.read? {} words
  match w.words with
  | ["check", program] => some { config := w.config, program, action := .check }
  | ["lower", program] => some { config := w.config, program, action := .lower }
  | ["run", program] =>
    some { config := w.config, program, action := .run w.debugging w.breakpoints w.args }
  | _ => none

end Stepwise.Command
