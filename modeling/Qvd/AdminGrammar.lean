import Qvd.ParseTrees

/-!
The grammar of the command line of the administrator: its table of productions, with the
callbacks that build the meanings. Where a reference is used as the key of a hash, its
kind stands for its address.
-/
namespace Qvd.AdminGrammar

open ChartParser ParseTrees

/-! ### Perl values -/

/-- The value of a scalar in a condition. -/
def truthy : Value → Bool
  | .undef => false
  | .scalar s => s ≠ "" && s ≠ "0"
  | .array _ => true
  | .hash _ => true

/-- A value as the key of a hash. -/
def keyText : Value → String
  | .undef => ""
  | .scalar s => s
  | .array _ => "ARRAY"
  | .hash _ => "HASH"

/-- A pair put into a hash replaces the one under its key. -/
def insertPair (key : String) (v : Value) : List (String × Value) → List (String × Value)
  | [] => [(key, v)]
  | p :: pairs => if p.1 = key then (key, v) :: pairs else p :: insertPair key v pairs

/-- The hash a list of keys and values makes, on top of another one. -/
def insertList (pairs : List (String × Value)) : List Value → List (String × Value)
  | [] => pairs
  | [key] => insertPair (keyText key) .undef pairs
  | key :: v :: list => insertList (insertPair (keyText key) v pairs) list

/-- `each %$value` on a hash that has not been walked yet. -/
def eachPair : Value → Except String (List Value)
  | .hash [] => .ok []
  | .hash ((key, v) :: _) => .ok [.scalar key, v]
  | _ => .error "Not a HASH reference"

/-- `shift @$item if @$item[0] eq $OPERATOR`. -/
def isOperator (operator : String) : Value → Bool
  | .scalar s => s == operator
  | _ => false

mutual

/-- `fields`: the names in the meaning of an item, for one logical operator. -/
def fields (operator : String) : Value → List Value
  | .undef => [.undef]
  | .scalar s => [.scalar s]
  | .hash pairs => fieldsAt operator pairs
  | .array items => fieldsOf operator (items.head?.any (isOperator operator)) items

def fieldsOf (operator : String) (skip : Bool) : List Value → List Value
  | [] => []
  | item :: items =>
    (if skip then [] else fields operator item) ++ fieldsOf operator false items

/-- The fields under a key. -/
def fieldsAt (operator : String) : List (String × Value) → List Value
  | [] => []
  | (key, v) :: pairs => if key = operator then fields operator v else fieldsAt operator pairs

end

mutual

/-- `arguments`, for the logical operator and the sign of an assignment. -/
def arguments (conj equal : String) : Value → List Value
  | .undef => [.undef]
  | .scalar s => [.scalar s]
  | .hash pairs =>
    if pairs.any (·.1 == conj) then argumentsAt conj equal pairs
    else
      match pairs.lookup equal with
      | some v => [v]
      | none => argumentsFirst conj equal pairs
  | .array items => argumentsOf conj equal (items.head?.any (isOperator conj)) items

def argumentsOf (conj equal : String) (skip : Bool) : List Value → List Value
  | [] => []
  | item :: items =>
    (if skip then [] else arguments conj equal item) ++ argumentsOf conj equal false items

def argumentsAt (conj equal : String) : List (String × Value) → List Value
  | [] => []
  | (key, v) :: pairs =>
    if key = conj then arguments conj equal v else argumentsAt conj equal pairs

/-- The first pair of the hash. -/
def argumentsFirst (conj equal : String) : List (String × Value) → List Value
  | [] => []
  | (key, v) :: _ => .scalar key :: arguments conj equal v

end

/-! ### The productions -/

abbrev Callback := List (Option Value) → Except String (Option Value)

/-- The meaning of a constituent, among the arguments of a callback. -/
def arg (ms : List (Option Value)) (k : ℕ) : Value :=
  (ms[k]?.join).getD .undef

def scalarOf (s : String) : Callback := fun _ => .ok (some (.scalar s))

def fieldArray (v : Value) : Value := .array (fields "-and" v)

def reversedFields (v : Value) : Value := .array (fields "-and" v).reverse

/-- `%$value` under strict refs. -/
def pairsOf : Value → Except String (List (String × Value))
  | .hash pairs => .ok pairs
  | .undef => .error "Can't use an undefined value as a HASH reference"
  | .scalar _ => .error "Can't use string as a HASH ref while strict refs in use"
  | .array _ => .error "Not a HASH reference"

/-- The hash of some pairs with those of another hash on top. -/
def withPairsOf (pairs : List (String × Value)) (v : Value) :
    Except String (Option Value) := do
  let front ← pairsOf v
  return some (.hash (front.foldl (fun h p => insertPair p.1 p.2 h) pairs))

def saturated (label : String) : Label := [("label", label), ("saturated", "1")]

def unsaturated (label : String) : Label := [("label", label), ("saturated", "0")]

def itemOf (feature : String) : Label :=
  [("label", "ITEM"), ("saturated", "1"), ("feature", feature)]

/-- What a command says of the phrases that may follow it. -/
def phrases (order of' to' with' : String) : Label :=
  [("order", order), ("of", of'), ("to", to'), ("with", with')]

/-- A key word as a free value. -/
def freeWord (word : String) : Rule Value where
  leftSide := saturated "UNKNOWN"
  rightSide := [saturated word]
  meaning := scalarOf word

def action (word order of' to' with' meaning : String) : Rule Value where
  leftSide := unsaturated "CMD"
  rightSide := [saturated word ++ phrases order of' to' with']
  meaning := scalarOf meaning

def object (word : String) : Rule Value where
  leftSide := unsaturated "QVD_OBJECT"
  rightSide := [saturated word]
  meaning := scalarOf word

def sign (label word meaning : String) : Rule Value where
  leftSide := saturated label
  rightSide := [saturated word]
  meaning := scalarOf meaning

def freeWords : List String :=
  ["default", "get", "can", "set", "ssl", "new", "del", "start", "stop", "disconnect",
    "block", "unblock", "assign", "unassign", "tag", "untag", "log", "config", "property",
    "tenant", "role", "acl", "admin", "vm", "user", "host", "osf", "di"]

def actions : List (Rule Value) := [
  action "get" "1" "1" "0" "0" "get",
  action "set" "0" "0" "1" "1" "update",
  action "new" "0" "0" "0" "1" "create",
  action "default" "0" "0" "0" "0" "delete",
  action "ssl" "0" "0" "0" "1" "ssl",
  action "del" "0" "0" "0" "0" "delete",
  action "start" "0" "0" "0" "0" "start",
  action "stop" "0" "0" "0" "0" "stop",
  action "disconnect" "0" "0" "0" "0" "disconnect"]

def commands : List (Rule Value) := [
  { leftSide := saturated "CMD" ++ phrases "#order" "#of" "#to" "#with"
    rightSide := [saturated "QVD_OBJECT",
      unsaturated "CMD" ++ phrases "#order" "#of" "#to" "#with"]
    meaning := fun ms => .ok (some (.hash [("command", arg ms 1), ("obj1", arg ms 0)])) },
  { leftSide := saturated "CMD" ++ phrases "#order" "0" "0" "0"
    rightSide := [saturated "QVD_OBJECT", unsaturated "CMD" ++ phrases "#order" "1" "0" "0",
      itemOf "0"]
    meaning := fun ms => .ok (some (.hash [("command", arg ms 1),
      ("fields", reversedFields (arg ms 2)), ("obj1", arg ms 0)])) },
  { leftSide := saturated "CMD" ++ [("order", "0"), ("of", "0"), ("with", "0")]
    rightSide := [saturated "CMD" ++ [("order", "1"), ("of", "0"), ("with", "0")],
      saturated "ORDER"]
    meaning := fun ms => withPairsOf [("order_by", arg ms 1)] (arg ms 0) },
  { leftSide := saturated "CMD" ++ [("order", "0"), ("of", "0"), ("with", "0")]
    rightSide := [saturated "CMD" ++ [("order", "0"), ("of", "0"), ("with", "1")], itemOf "1"]
    meaning := fun ms => withPairsOf
      [("arguments", .hash (insertList [] (arguments "-and" "=" (arg ms 1))))] (arg ms 0) }]

def objectWords : List String :=
  ["log", "tenant", "role", "acl", "admin", "vm", "user", "host", "osf", "di", "config",
    "property"]

def objects : List (Rule Value) := objectWords.map object ++ [
  { leftSide := saturated "QVD_OBJECT"
    rightSide := [unsaturated "QVD_OBJECT", itemOf "1"]
    meaning := fun ms => .ok (some (.hash [("qvd_object", arg ms 0),
      ("filters", arg ms 1)])) },
  { leftSide := saturated "QVD_OBJECT"
    rightSide := [unsaturated "QVD_OBJECT", itemOf "0"]
    meaning := fun ms => .ok (some (.hash [("qvd_object", arg ms 0),
      ("filters", .hash [("name", fieldArray (arg ms 1))])])) },
  { leftSide := saturated "QVD_OBJECT"
    rightSide := [unsaturated "QVD_OBJECT"]
    meaning := fun ms => .ok (some (.hash [("qvd_object", arg ms 0)])) }]

def operators : List (Rule Value) := [
  { sign "RANGE" ":" "-between" with leftSide := unsaturated "RANGE" },
  sign "IDOP" "=" "=",
  sign "IDOP" "!=" "!=",
  sign "IDOP" ">" ">",
  sign "IDOP" "<" "<",
  sign "IDOP" ">=" ">=",
  sign "IDOP" "<=" "<=",
  sign "IDOP" "~" "LIKE",
  sign "LOP" "," "-and",
  sign "LOP" ";" "-or",
  sign "NOT" "!" "-not",
  sign "OP" "(" "(",
  sign "CP" ")" ")",
  sign "OB" "[" "[",
  sign "CB" "]" "]"]

/-- A key with its value; a range brings its own operator, a list has none. -/
def keyValue (key op v : Value) : Value :=
  let range := ((v.field "-between").toOption.join).filter truthy
  let op := if range.isSome then .scalar "-between" else op
  match range.getD v with
  | .array items =>
    if keyText op = "-between" then .hash [(keyText key, .hash [(keyText op, .array items)])]
    else .hash [(keyText key, .array items)]
  | v => .hash [(keyText key, .hash [(keyText op, v)])]

/-- `$c1 = [$c1] unless ref($c1) && ref($c1) eq 'ARRAY'`. -/
def asArray : Value → List Value
  | .array items => items
  | v => [v]

/-- `map { ref($_) ? each %$_ : $_ }`. -/
def spreadRefs : List Value → Except String (List Value)
  | [] => .ok []
  | v :: vs => do
    let front ← match v with
      | .undef => .ok [.undef]
      | .scalar s => .ok [.scalar s]
      | v => eachPair v
    let back ← spreadRefs vs
    return front ++ back

/-- `map { ref($_) && ref($_) eq 'HASH' ? each %$_ : $_ }`. -/
def spreadHashes : List Value → List Value
  | [] => []
  | .hash pairs :: vs =>
    (match pairs with
      | [] => []
      | (key, v) :: _ => [.scalar key, v]) ++ spreadHashes vs
  | v :: vs => v :: spreadHashes vs

/-- An operand is pushed onto those of a coordination. A string in its place is the name of
a global hash, which is left out. -/
def coordinate (operand coordination : Value) : Except String (Option Value) := do
  let operator ← coordination.field "operator"
  let operands ← coordination.field "operands"
  match operands.getD (.array []) with
  | .array items => return some (.hash [(keyText (operator.getD .undef),
      .array (spreadHashes (items ++ [operand])))])
  | _ => .error "Not an ARRAY reference"

def items : List (Rule Value) := [
  { leftSide := itemOf "0" ++ [("coordinated", "0")]
    rightSide := [saturated "UNKNOWN"]
    meaning := fun ms => .ok (some (arg ms 0)) },
  { leftSide := itemOf "1" ++ [("coordinated", "0")]
    rightSide := [saturated "UNKNOWN", saturated "IDOP", itemOf "0" ++ [("coordinated", "0")]]
    meaning := fun ms => .ok (some (keyValue (arg ms 0) (arg ms 1) (arg ms 2))) },
  { leftSide := itemOf "#feature" ++ [("coordinated", "1")]
    rightSide := [saturated "NOT", itemOf "#feature"]
    meaning := fun ms => do
      let list ← spreadRefs (asArray (arg ms 1))
      return some (.hash [(keyText (arg ms 0), .array list)]) },
  { leftSide := unsaturated "ITEM" ++ [("feature", "#feature"), ("coordinated", "1")]
    rightSide := [saturated "LOP", itemOf "#feature"]
    meaning := fun ms => .ok (some (.hash [("operator", arg ms 0),
      ("operands", .array (asArray (arg ms 1)))])) },
  { leftSide := itemOf "#feature" ++ [("coordinated", "1")]
    rightSide := [itemOf "#feature" ++ [("coordinated", "0")],
      unsaturated "ITEM" ++ [("feature", "#feature")]]
    meaning := fun ms => coordinate (arg ms 0) (arg ms 1) },
  { leftSide := saturated "ITEM" ++ [("coordinated", "0"), ("feature", "#feature")]
    rightSide := [saturated "OP", itemOf "#feature", saturated "CP"]
    meaning := fun ms => .ok (some (arg ms 1)) },
  { leftSide := saturated "ITEM" ++ [("coordinated", "0"), ("brackets", "1")]
    rightSide := [saturated "OB", itemOf "0" ++ [("brackets", "0")], saturated "CB"]
    meaning := fun ms => .ok (some (fieldArray (arg ms 1))) },
  { leftSide := saturated "ITEM" ++ [("coordinated", "0"), ("brackets", "1")]
    rightSide := [saturated "OB", unsaturated "RANGE", saturated "CB"]
    meaning := fun ms => .ok (some (arg ms 1)) },
  { leftSide := unsaturated "RANGE"
    rightSide := [itemOf "0" ++ [("coordinated", "0"), ("brackets", "0")],
      unsaturated "RANGE", itemOf "0" ++ [("coordinated", "0"), ("brackets", "0")]]
    meaning := fun ms => .ok (some (.hash [(keyText (arg ms 1),
      .array [arg ms 0, arg ms 2])])) }]

def orders : List (Rule Value) := [
  sign "DIR" "asc" "-asc",
  sign "DIR" "desc" "-desc",
  { leftSide := saturated "ORDER"
    rightSide := [unsaturated "order", itemOf "0"]
    meaning := fun ms => .ok (some (.hash [("field", reversedFields (arg ms 1))])) },
  { leftSide := saturated "ORDER"
    rightSide := [unsaturated "order", saturated "DIR", itemOf "0"]
    meaning := fun ms => .ok (some (.hash [("order", arg ms 1),
      ("field", reversedFields (arg ms 2))])) }]

/-- The request of an update with the given arguments. -/
def update (obj1 : Value) (arguments : List (String × Value)) : Except String (Option Value) :=
  .ok (some (.hash [("command", .scalar "update"), ("obj1", obj1),
    ("arguments", .hash arguments)]))

def blocking (word blocked : String) : Rule Value where
  leftSide := saturated "ROOT"
  rightSide := [saturated "QVD_OBJECT", saturated word]
  meaning ms := update (arg ms 0) [("blocked", .scalar blocked)]

def tagging (word change : String) : Rule Value where
  leftSide := saturated "ROOT"
  rightSide := [saturated "QVD_OBJECT", saturated word, itemOf "0"]
  meaning ms := update (arg ms 0)
    [("__tags_changes__", .hash [(change, fieldArray (arg ms 2))])]

/-- The assignment of ACLs or roles, and its withdrawal. -/
def granting (word kind changes change : String) : Rule Value where
  leftSide := saturated "ROOT"
  rightSide := [saturated "QVD_OBJECT", saturated word, saturated kind, itemOf "0"]
  meaning ms := update (arg ms 0) [(changes, .hash [(change, fieldArray (arg ms 3))])]

def assigning (word : String) : Rule Value where
  leftSide := saturated "ROOT"
  rightSide := [saturated "QVD_OBJECT", saturated word, itemOf "0"]
  meaning ms := .ok (some (.hash [("command", .scalar word), ("obj1", arg ms 0),
    ("arguments", .hash [("object", arg ms 2)])]))

def roots : List (Rule Value) := [
  { leftSide := saturated "ROOT"
    rightSide := [saturated "CMD" ++ [("order", "0"), ("in", "0"), ("of", "0"), ("to", "0"),
      ("with", "0")]]
    meaning := fun ms => .ok (some (arg ms 0)) },
  blocking "block" "1",
  blocking "unblock" "0",
  tagging "tag" "create",
  tagging "untag" "delete",
  granting "assign" "acl" "__acls_changes__" "assign_acls",
  granting "unassign" "acl" "__acls_changes__" "unassign_acls",
  granting "assign" "role" "__roles_changes__" "assign_roles",
  granting "unassign" "role" "__roles_changes__" "unassign_roles",
  assigning "assign",
  assigning "unassign",
  { leftSide := saturated "ROOT"
    rightSide := [saturated "QVD_OBJECT", saturated "can",
      itemOf "0" ++ [("coordinated", "0")]]
    meaning := fun ms => .ok (some (.hash [("command", .scalar "can"), ("obj1", arg ms 0),
      ("parameters", .hash [("acl_name", arg ms 2)])])) },
  { leftSide := saturated "ROOT"
    rightSide := [saturated "QVD_OBJECT", saturated "can"]
    meaning := fun ms => .ok (some (.hash [("command", .scalar "can"),
      ("obj1", arg ms 0)])) }]

/-- `$RULES`. -/
def rules : List (Rule Value) :=
  freeWords.map freeWord ++ actions ++ commands ++ objects ++ operators ++ items ++ orders ++
    roots

def admin : Grammar Value Response := Grammar.ofRules rules

/-- The unary productions lead from words to objects and items, and from there no further
than to a request. -/
theorem admin_accepted : Accepted admin :=
  accepted_of_rank (fun i => if i ∈ [55, 71, 84] then 1 else 0) (by decide +kernel)
    (by decide +kernel)

end Qvd.AdminGrammar
