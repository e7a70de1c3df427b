import Stepwise.Json.Basic

/-!
# Written forms of nodes

A node of a program has named parts. It is written as an object with a member
for each part, or as the list of its parts in order; a list may end before
parts that have a default. A node of one of several kinds tells its kind by a
tag: the member `t` of the object, or the first item of the list.

Within a statement or an expression there is more freedom than outside: a tag
may be the number of the kind, and a word may carry an empty object.
-/

namespace Stepwise

/-- Whether a value stands within a statement or an expression. -/
inductive Nesting where
  /-- Outside all statements and expressions, or at the top of one. -/
  | outer
  /-- Within a statement or an expression. -/
  | inner
deriving DecidableEq

namespace Json

/-- A word: alone, or as the name of the only member of an object, which then
says nothing more. -/
def word? (nesting : Nesting) : Json → Option String
  | .str s => some s
  | .obj [(s, .null)] => some s
  | .obj [(s, .obj [])] => if nesting = .inner then some s else none
  | _ => none

/-- The parts of a list by name: at least `least` of them, and not more than
there are names. -/
def nameItems? (names : List String) (least : Nat) (items : List Json) :
    Option (List (String × Json)) :=
  if least ≤ items.length && items.length ≤ names.length then some (names.zip items) else none

/-- The parts of a node by name. -/
def parts? (names : List String) (least : Nat) : Json → Option (List (String × Json))
  | .obj members => some members
  | .arr items => nameItems? names least items
  | _ => none

end Json

/-- How a kind of node is written. -/
structure Form where
  /-- The tag. -/
  kind : String
  /-- The names of the parts, in order. -/
  parts : List String
  /-- How many parts a list has to give. -/
  least : Nat
deriving DecidableEq

namespace Form

/-- The form that a tag names, by its word or its number. -/
def find? (forms : List Form) (nesting : Nesting) : Json → Option Form
  | .str kind => forms.find? fun form => form.kind == kind
  | .int n => if nesting = .inner && 0 ≤ n then forms[n.toNat]? else none
  | _ => none

/-- The form of a node and its parts by name. -/
def open? (forms : List Form) (nesting : Nesting) : Json → Option (Form × List (String × Json))
  | .obj members => do
    let form ← find? forms nesting (← Json.required? members "t")
    some (form, members)
  | .arr (tag :: items) => do
    let form ← find? forms nesting tag
    some (form, ← Json.nameItems? form.parts form.least items)
  | _ => none

end Form

end Stepwise
