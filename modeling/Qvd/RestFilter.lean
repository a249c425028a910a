import Qvd.NumberedPath

/-!
The filters of a request of the administration API: the normal form of a JSON filter tree,
the textual paths of its nodes, and the operations that look nodes up by path and change
them. No caller goes on after an error.
-/
namespace Qvd.RestFilter

open NumberedPath

/-- A decoded JSON value; a hash lists its entries in the order the interpreter gives. -/
inductive Json
  | null
  | bool (b : Bool)
  | scalar (text : Text)
  | array (items : List Json)
  | hash (entries : List (Text × Json))
deriving Repr

/-- The nodes of a level: a comparison with its operator and values, or a nested level. -/
inductive Filters
  | nil
  | leaf (key op : Text) (values : List Json) (rest : Filters)
  | group (key : Text) (items rest : Filters)
deriving Repr

/-- The end of a request that is not executed: an exception with its code and the element
it is about, or a die. -/
inductive ApiError
  | exception (code : ℕ) (object : Text)
  | invalidFilterFormat
  | operatorExpected
  | keyNotScalar
  | notAnArray
  | notAHash
  | undefinedValue
  | noMapping (element : Text)
deriving DecidableEq, Repr

def logicalOperators : List Text :=
  ["-and".toList, "-or".toList, "-not".toList]

def comparisonOperators : List Text :=
  [">".toList, "<".toList, "<=".toList, ">=".toList, "=".toList, "<>".toList, "!=".toList,
    "~".toList, "LIKE".toList]

def defaultComparisonOp : Text :=
  "=".toList

def rootOp : Text :=
  "-and".toList

section Normalize

/-- The text of a key, when it is a scalar. -/
def Json.key? : Json → Option Text
  | .null => some []
  | .scalar text => some text
  | _ => none

/-- The operand of a comparison is a list of values. -/
def operand : Json → List Json
  | .array items => items
  | value => [value]

/-- Operator and values of a comparison; of a hash, its first entry. -/
def comparison : Json → Except ApiError (Text × List Json)
  | .hash [] => .error .operatorExpected
  | .hash ((op, value) :: _) =>
    if op ∈ comparisonOperators then .ok (op, operand value) else .error .operatorExpected
  | value => .ok (defaultComparisonOp, operand value)

mutual

/-- _normalize_filter. -/
def normalizeFilter : Json → Except ApiError Filters
  | .hash entries => normalizeEntries entries
  | .array items => normalizeItems items
  | _ => .error .notAnArray

def normalizeEntries : List (Text × Json) → Except ApiError Filters
  | [] => .ok .nil
  | (key, value) :: rest =>
    if key ∈ logicalOperators then do
      let items ← normalizeFilter value
      let rest ← normalizeEntries rest
      return .group key items rest
    else do
      let (op, values) ← comparison value
      let rest ← normalizeEntries rest
      return .leaf key op values rest

/-- The items of an array are keys and values in turn; a last key alone has no value. -/
def normalizeItems : List Json → Except ApiError Filters
  | [] => .ok .nil
  | [key] =>
    match key.key? with
    | none => .error .keyNotScalar
    | some key =>
      if key ∈ logicalOperators then .error .notAnArray
      else .ok (.leaf key defaultComparisonOp [.null] .nil)
  | key :: value :: rest =>
    match key.key? with
    | none => .error .keyNotScalar
    | some key =>
      if key ∈ logicalOperators then do
        let items ← normalizeFilter value
        let rest ← normalizeItems rest
        return .group key items rest
      else do
        let (op, values) ← comparison value
        let rest ← normalizeItems rest
        return .leaf key op values rest

end

end Normalize

section Levels

/-- The keys of a level, in order. -/
def Filters.keys : Filters → List Text
  | .nil => []
  | .leaf key _ _ rest => key :: rest.keys
  | .group key _ rest => key :: rest.keys

/-- The nested level at an index, if the node there has one. -/
def Filters.itemsAt : Filters → ℕ → Option Filters
  | .nil, _ => none
  | .leaf _ _ _ _, 0 => none
  | .leaf _ _ _ rest, i + 1 => rest.itemsAt i
  | .group _ items _, 0 => some items
  | .group _ _ rest, i + 1 => rest.itemsAt i

def Filters.append : Filters → Filters → Filters
  | .nil, g => g
  | .leaf key op values rest, g => .leaf key op values (rest.append g)
  | .group key items rest, g => .group key items (rest.append g)

/-- The index of an occurrence of a name among the keys of a level. -/
def occurrence (name : Text) : ℕ → List Text → Option ℕ
  | _, [] => none
  | counter, key :: rest =>
    if key = name then
      if counter = 1 then some 0 else (occurrence name (counter - 1) rest).map (· + 1)
    else (occurrence name counter rest).map (· + 1)

end Levels

section Paths

def extendPath (origin key : Text) (counter : ℕ) : Text :=
  numbered (if origin = [] then key else origin ++ ':' :: ':' :: key) counter

/-- _paths: the leaves of the level, the last one first, and then those of its groups. -/
def pathsFrom (origin : Text) :
    Filters → List Text → List Text → Except ApiError (List Text)
  | .nil, _, paths => .ok paths
  | .leaf key _ _ rest, seen, paths =>
    if key ∈ logicalOperators then .error .notAnArray
    else pathsFrom origin rest (key :: seen)
      (extendPath origin key (seen.count key + 1) :: paths)
  | .group key items rest, seen, paths =>
    if key ∈ logicalOperators then do
      let inner ← pathsFrom (extendPath origin key (seen.count key + 1)) items [] []
      pathsFrom origin rest (key :: seen) (paths ++ inner)
    else pathsFrom origin rest (key :: seen)
      (extendPath origin key (seen.count key + 1) :: paths)

/-- The indices that lead to a node, level by level. -/
abbrev Loc := List ℕ

/-- _filter_node. A component that is not found at a level is passed over there. -/
def filterNode : List Text → Filters → Except ApiError (Option Loc)
  | [], _ => .ok none
  | node :: nodes, f =>
    match occurrence (nameAndCounter node).1 (nameAndCounter node).2 f.keys with
    | none => filterNode nodes f
    | some i =>
      if nodes = [] then .ok (some [i])
      else match f.itemsAt i with
        | none => .error .notAnArray
        | some items => (filterNode nodes items).map (Option.map (i :: ·))

def nameFromPath (path : Text) : Text :=
  (nameAndCounter ((splitPath path).getLast?.getD [])).1

def basedirFromPath (path : Text) : Text :=
  joinPath (splitPath path).dropLast

def rootPath (path : Text) : Text :=
  rootOp ++ ':' :: ':' :: path

end Paths

section Nodes

/-- Operator and values of the comparison at a place. -/
def comparisonAt : Filters → Loc → Except ApiError (Text × List Json)
  | .leaf _ op values _, [0] => .ok (op, values)
  | .leaf _ _ _ rest, (i + 1) :: loc => comparisonAt rest (i :: loc)
  | .group _ items _, 0 :: j :: loc => comparisonAt items (j :: loc)
  | .group _ _ rest, (i + 1) :: loc => comparisonAt rest (i :: loc)
  | _, _ => .error .notAHash

/-- Change the node at a place; the change sees the node and those after it. -/
def modifyAt (edit : Filters → Filters) : Filters → Loc → Filters
  | f, [0] => edit f
  | .leaf key op values rest, (i + 1) :: loc =>
    .leaf key op values (modifyAt edit rest (i :: loc))
  | .group key items rest, 0 :: j :: loc => .group key (modifyAt edit items (j :: loc)) rest
  | .group key items rest, (i + 1) :: loc =>
    .group key items (modifyAt edit rest (i :: loc))
  | f, _ => f

def setKey (key : Text) : Filters → Filters
  | .nil => .nil
  | .leaf _ op values rest => .leaf key op values rest
  | .group _ items rest => .group key items rest

/-- Give a node the value of another. -/
def setValue (value : Filters) : Filters → Filters
  | .nil => .nil
  | .leaf key _ _ rest | .group key _ rest =>
    match value with
    | .nil => .leaf key [] [] rest
    | .leaf _ op values _ => .leaf key op values rest
    | .group _ items _ => .group key items rest

/-- Leave a node out. -/
def dropNode : Filters → Filters
  | .nil => .nil
  | .leaf _ _ _ rest | .group _ _ rest => rest

/-- Push nodes on the level a node holds. -/
def pushItems (new : Filters) : Filters → Filters
  | .group key items rest => .group key (items.append new) rest
  | f => f

end Nodes

section Operations

/-- filter_list, of the whole object: the root operator and its level. -/
def filterList : Filters → Except ApiError (List Text)
  | .group _ items _ => pathsFrom [] items [] []
  | _ => .error .notAnArray

def lookup (f : Filters) (path : Text) : Except ApiError (Option Loc) :=
  filterNode (splitPath (rootPath path)) f

def hasFilter (f : Filters) (path : Text) : Except ApiError Bool :=
  (lookup f path).map Option.isSome

def filterValue (f : Filters) (path : Text) : Except ApiError (Option (List Json)) := do
  match ← lookup f path with
  | none => return none
  | some loc => return some (← comparisonAt f loc).2

def filterOperator (f : Filters) (path : Text) : Except ApiError (Option Text) := do
  match ← lookup f path with
  | none => return none
  | some loc => return some (← comparisonAt f loc).1

/-- A new key and value in normal form. -/
def normalizePair (key : Text) (value : Json) : Except ApiError Filters :=
  match normalizeItems [.scalar key, value] with
  | .error _ => .error .invalidFilterFormat
  | .ok f => .ok f

def setFilterKey (f : Filters) (path key : Text) : Except ApiError Filters := do
  match ← lookup f path with
  | none => return f
  | some loc => return modifyAt (setKey key) f loc

def setFilterValue (f : Filters) (path : Text) (value : Json) : Except ApiError Filters := do
  let value ← normalizePair (nameFromPath (rootPath path)) value
  match ← lookup f path with
  | none => return f
  | some loc => return modifyAt (setValue value) f loc

def delFilter (f : Filters) (path : Text) : Except ApiError Filters := do
  match ← lookup f path with
  | none => return f
  | some loc => return modifyAt dropNode f loc

/-- Push nodes on the level that a path leads to. -/
def pushOn (f : Filters) (target : List Text) (new : Filters) : Except ApiError Filters := do
  match ← filterNode target f with
  | none => .error .notAnArray
  | some loc =>
    match comparisonAt f loc with
    | .ok _ => .error .notAnArray
    | .error _ => return modifyAt (pushItems new) f loc

/-- add_filter below the named levels, the innermost name first. A level that is not
there is itself added first, without a value. -/
def addBelow (f : Filters) (names : List Text) (new : Filters) : Except ApiError Filters := do
  let target := splitPath (joinPath (rootOp :: names.reverse))
  match ← filterNode target f with
  | some _ => pushOn f target new
  | none =>
    if _hne : names = [] then .error .notAnArray
    else match _h : names.dropWhile (fun name => name.isEmpty) with
      | [] => do
        let level ← normalizePair [] (.array [])
        let f ← addBelow f [] level
        pushOn f target new
      | name :: outer => do
        let level ← normalizePair name (.array [])
        let f ← addBelow f outer level
        pushOn f target new
termination_by names.length
decreasing_by
  · exact List.length_pos_of_ne_nil _hne
  · have hle := (List.dropWhile_sublist (fun name : Text => name.isEmpty)
      (l := names)).length_le
    rw [_h, List.length_cons] at hle
    omega

def addFilter (f : Filters) (path : Text) (value : Json) (key : Option Text) :
    Except ApiError Filters := do
  let names := (splitPath path ++ key.toList).reverse
  let new ← normalizePair (names.headD []) value
  addBelow f names.tail new

end Operations

end Qvd.RestFilter
