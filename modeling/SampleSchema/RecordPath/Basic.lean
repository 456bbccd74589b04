import SampleSchema.Value.Basic
/-!
# Record paths

A path leads from a document to the records inside it. It is a list of steps; each step
selects parts of every value reached so far, either of that value alone or of everything
inside it too, in the order of the document. A step that does not apply to a value selects
nothing of it. The same value may be reached more than once.
-/

namespace SampleSchema

/-- What a step selects: the whole document, named members, all members or items, or items
by number. Numbers below zero count from the end. -/
inductive Selector where
  | root
  | names (names : List String)
  | all
  | indices (indices : List Int)
  | slice (first last step : Option Int)
deriving DecidableEq

/-- A selector, applied to a value or to everything inside it. -/
structure PathStep where
  descends : Bool
  selector : Selector
deriving DecidableEq

namespace Selector

/-- The items of an array. -/
def items : Value → List Value
  | .list items => items
  | .tuple items => items
  | _ => []

/-- The item of a number. -/
def item? (items : List Value) (index : Int) : Option Value :=
  let index := if index < 0 then index + items.length else index
  if index < 0 then none else items[index.toNat]?

/-- A bound of a slice: counted from the end if negative, and moved into the range. -/
def bound (length low high : Int) (n : Int) : Int :=
  max low (min high (if n < 0 then n + length else n))

/-- The numbers of the items of a slice, upward or downward in steps. A step of zero selects
nothing. -/
def sliceIndices (length : Nat) (first last step : Option Int) : List Nat :=
  let step := step.getD 1
  let size : Int := length
  if 0 < step then
    let low := (first.map (bound size 0 size)).getD 0
    let high := (last.map (bound size 0 size)).getD size
    let count := ((high - low + step - 1) / step).toNat
    (List.range count).map fun (k : Nat) => (low + k * step).toNat
  else if step < 0 then
    let high := (first.map (bound size (-1) (size - 1))).getD (size - 1)
    let low := (last.map (bound size (-1) (size - 1))).getD (-1)
    let count := ((high - low - step - 1) / (-step)).toNat
    (List.range count).map fun (k : Nat) => (high + k * step).toNat
  else []

/-- The parts of a value that a selector selects. -/
def select (document : Value) (selector : Selector) (v : Value) : List Value :=
  match selector with
  | .root => [document]
  | .names wanted =>
    match v.members? with
    | some members => wanted.filterMap fun name => members.get? name
    | none => []
  | .all =>
    match v.members? with
    | some members => members.map (·.2)
    | none => items v
  | .indices numbers => numbers.filterMap (item? (items v))
  | .slice first last step =>
    (sliceIndices (items v).length first last step).filterMap fun i => (items v)[i]?

end Selector

namespace PathStep

mutual

/-- What `select` selects of a value and of everything inside it, outer values first. -/
def descend (select : Value → List Value) : Value → List Value
  | .list items => select (.list items) ++ descendItems select items
  | .tuple items => select (.tuple items) ++ descendItems select items
  | .object members => select (.object members) ++ descendMembers select members
  | v => select v
termination_by structural v => v

def descendItems (select : Value → List Value) : List Value → List Value
  | [] => []
  | item :: rest => descend select item ++ descendItems select rest
termination_by structural items => items

def descendMembers (select : Value → List Value) : List (String × Value) → List Value
  | [] => []
  | (_, value) :: rest => descend select value ++ descendMembers select rest
termination_by structural members => members

end

/-- What a step selects of a value. -/
def select (document : Value) (step : PathStep) (v : Value) : List Value :=
  let selected := step.selector.select document
  if step.descends then descend selected v else selected v

end PathStep

namespace RecordPath

/-- The records that a path leads to. -/
def records (steps : List PathStep) (document : Value) : List Value :=
  steps.foldl (fun values step => values.flatMap (step.select document)) [document]

end RecordPath

end SampleSchema
