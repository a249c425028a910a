import Qvd.FilterPaths
import Qvd.RequestBuild

/-!
What a request asks for with its filters, and what it means that the structure for the
database says the same. The tree of a request keeps every comparison a JSON value holds;
the translated tree has the same groups, the column of each key, and beside the filters of
properties the conditions on their keys.
-/
namespace Qvd.RequestedFilters

open NumberedPath RestFilter RestModel RequestBuild FilterPaths

/-- The filters of a request: a leaf has all the comparisons made on its key. -/
inductive Tree
  | nil
  | leaf (key : Text) (comparisons : List (Text × List Json)) (rest : Tree)
  | group (key : Text) (items rest : Tree)

section Reading

/-- The comparisons of a JSON value: one for each operator of a hash. -/
def comparisons : Json → List (Text × List Json)
  | .hash entries => entries.map fun entry => (entry.1, operand entry.2)
  | value => [(defaultComparisonOp, operand value)]

mutual

def readFilter : Json → Tree
  | .hash entries => readEntries entries
  | .array items => readItems items
  | _ => .nil

def readEntries : List (Text × Json) → Tree
  | [] => .nil
  | (key, value) :: rest =>
    if key ∈ logicalOperators then .group key (readFilter value) (readEntries rest)
    else .leaf key (comparisons value) (readEntries rest)

def readItems : List Json → Tree
  | [] => .nil
  | [item] => .leaf (item.key?.getD []) (comparisons .null) .nil
  | item :: value :: rest =>
    let key := item.key?.getD []
    if key ∈ logicalOperators then .group key (readFilter value) (readItems rest)
    else .leaf key (comparisons value) (readItems rest)

end

def Tree.append : Tree → Tree → Tree
  | .nil, t => t
  | .leaf key comps rest, t => .leaf key comps (rest.append t)
  | .group key items rest, t => .group key items (rest.append t)

/-- The leaves of all levels. -/
def Tree.leaves : Tree → List (Text × List (Text × List Json))
  | .nil => []
  | .leaf key comps rest => (key, comps) :: rest.leaves
  | .group _ items rest => items.leaves ++ rest.leaves

/-- The tree of filters in normal form. -/
def ofFilters : Filters → Tree
  | .nil => .nil
  | .leaf key op values rest => .leaf key [(op, values)] (ofFilters rest)
  | .group key items rest => .group key (ofFilters items) (ofFilters rest)

end Reading

section Sanitised

/-- The conditions on the keys of properties that a level has after its nodes. -/
def conditions : List (ℕ × Text) → Filters
  | [] => .nil
  | (n, key) :: rest =>
    .leaf (keyColumn n) defaultComparisonOp [.scalar key] (conditions rest)

/-- The values of a comparison as the database is to get them. -/
def databaseValues (model : Model) (key : Text) (values : List Json) : List Json :=
  if model.hasProperty key then values else values.map (model.normalizeValue key)

variable (model : Model)

/-- All comparisons on a key are there, under its column; that of a property is one of the
joins for its values. -/
def LeafTranslated (key : Text) (comps : List (Text × List Json)) (column op : Text)
    (values : List Json) (join : Option ℕ) : Prop :=
  comps.map (fun comp => (Model.normalizeOperator comp.1, databaseValues model key comp.2)) =
    [(op, values)] ∧
  match join with
  | some n => model.hasProperty key = true ∧ column = valueColumn n
  | none => model.hasProperty key = false ∧ model.mapToDbixFormat key = some column

/-- Node by node the same tree; the conditions are those that the level needs. -/
def Translated : Tree → Filters → List (ℕ × Text) → Prop
  | .nil, .nil, conds => conds = []
  | .leaf key comps rest, .leaf column op values out, conds =>
    ∃ join conds', LeafTranslated model key comps column op values join ∧
      conds = conds' ++ join.toList.map (·, key) ∧ Translated rest out conds'
  | .group key items rest, .group key' items' out, conds =>
    key' = key ∧ (∃ nodes inner, items' = nodes.append (conditions inner) ∧
      Translated items nodes inner) ∧ Translated rest out conds
  | _, _, _ => False

/-- The keys of the filters that the API adds by itself. -/
def ownKeys : List Text :=
  words ["tenant_id admin_id id"]

/-- Filters that the API adds: comparisons on its own keys. -/
def OwnFilters : Filters → Prop
  | .nil => True
  | .leaf key _ _ rest => key ∈ ownKeys ∧ OwnFilters rest
  | .group _ _ _ => False

/-- The structure is the translation of what the request asks for, and after it of filters
of the API, and the request asks only for available filters and properties. -/
structure Sanitised (tree : Tree) (structured : Filters) : Prop where
  translated : ∃ own nodes conds, OwnFilters own ∧
    structured = .group rootOp (nodes.append (conditions conds)) .nil ∧
    Translated model (tree.append (ofFilters own)) nodes conds
  available : ∀ leaf ∈ tree.leaves,
    leaf.1 ∈ model.availableFilters ∨ model.hasProperty leaf.1 = true

end Sanitised

end Qvd.RequestedFilters
