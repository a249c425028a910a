import Qvd.AgendaChart

/-!
The parser of the command line: tokens, the unifier, grammars, the edges of the chart and
`parse`. A label is a hash, listed in the order in which `each` walks it. Meanings are Perl
values, `none` standing for undef; a callback or a type check that dies is an error.
-/
namespace Qvd.ChartParser

open Qvd.AgendaChart

/-! ### Tokens -/

structure Token where
  string : String
  fromPos : ℕ
  toPos : ℕ

/-- The positions that the tokenizer gives to the forms it has cut out. -/
def tokensFrom (position : ℕ) : List String → List Token
  | [] => []
  | form :: forms =>
    let token : Token := ⟨form, position, position + form.length⟩
    token :: tokensFrom (token.toPos + 1) forms

def tokens (forms : List String) : List Token := tokensFrom 0 forms

/-! ### Substitutions and the unifier -/

abbrev Label := List (String × String)

structure Substitution where
  items : String → Option String

namespace Substitution

def new : Substitution := ⟨fun _ => none⟩

def subst (s : Substitution) (k : String) : String := (s.items k).getD k

def set (s : Substitution) (k v : String) : Substitution :=
  ⟨fun x => if x = k then some v else s.items x⟩

end Substitution

/-- `/^#[^#]+$/`. -/
def isVar (k : String) : Bool :=
  match k.toList with
  | '#' :: c :: cs => (c :: cs).all (· != '#')
  | _ => false

/-- The pairs of the target that are left, and the substitution built so far. The values are
read through the old substitutions; a key that the source lacks is passed over. -/
def unifyPairs (source : Label) (tSubst sSubst : Substitution) :
    Label → Substitution → Option Substitution
  | [], substitution => some substitution
  | (key, tValue) :: target, substitution =>
    match source.lookup key with
    | none => unifyPairs source tSubst sSubst target substitution
    | some sValue =>
      let realTValue := tSubst.subst tValue
      let realSValue := sSubst.subst sValue
      if isVar realSValue then unifyPairs source tSubst sSubst target substitution
      else if isVar realTValue then
        unifyPairs source tSubst sSubst target (substitution.set realTValue realSValue)
      else if realTValue ≠ realSValue then none
      else unifyPairs source tSubst sSubst target substitution

/-- The new substitution starts as a copy of that of the target. -/
def unify (target source : Label) (tSubst sSubst : Substitution) : Option Substitution :=
  unifyPairs source tSubst sSubst target tSubst

/-! ### Grammars -/

variable {M R : Type*}

structure Rule (M : Type*) where
  leftSide : Label
  rightSide : List Label
  meaning : List (Option M) → Except String (Option M)

namespace Rule

def firstDaughter (r : Rule M) : Label := r.rightSide.headD []

def restOfDaughters (r : Rule M) : List Label := r.rightSide.tail

end Rule

/-- What the parser asks of a grammar. -/
structure Grammar (M R : Type*) where
  rules : List (Rule M)
  root : Label
  labelsForString : String → List Label
  meaningForString : String → Option M
  response : Option M → Except String R

/-- The values that the callbacks of the grammar build. -/
inductive Value
  | undef
  | scalar (s : String)
  | array (items : List Value)
  | hash (pairs : List (String × Value))

/-- `none` stands for undef. -/
def Value.defined : Value → Option Value
  | undef => none
  | v => some v

/-- `$value->{key}` under strict refs; of undef it is undef. -/
def Value.field (key : String) : Value → Except String (Option Value)
  | undef => .ok none
  | scalar _ => .error "Can't use string as a HASH ref while strict refs in use"
  | array _ => .error "Not a HASH reference"
  | hash pairs => .ok ((pairs.lookup key).bind defined)

/-- The wrapper around the meaning of a whole request. -/
structure Response where
  command : Option Value
  qvdObject : Option Value
  filters : Value
  arguments : Value
  parameters : Value
  fields : Value
  order : Value

/-- The type check of the attribute, then `BUILD`; only `qvd_object` is read in an `eval`. -/
def Response.new : Option Value → Except String Response
  | some (.hash json) => do
    let entry (key : String) : Option Value := (json.lookup key).bind Value.defined
    let field (key : String) : Except String (Option Value) :=
      match entry "obj1" with
      | none => .ok none
      | some obj => obj.field key
    let filters ← field "filters"
    return {
      command := entry "command"
      qvdObject := (field "qvd_object").toOption.join
      filters := filters.getD (.hash [])
      arguments := (entry "arguments").getD (.hash [])
      parameters := (entry "parameters").getD (.hash [])
      fields := (entry "fields").getD (.array [])
      order := (entry "order_by").getD (.hash []) }
  | _ => .error "Invalid type for attribute response"

/-- `$KNOWN_TAGS`: the labels of all the daughters. -/
def knownTags (rules : List (Rule Value)) : List String :=
  rules.flatMap fun r => r.rightSide.map fun daughter => (daughter.lookup "label").getD ""

/-- The grammar object over a table of rules. A known tag labels itself. -/
def Grammar.ofRules (rules : List (Rule Value)) : Grammar Value Response where
  rules := rules
  root := [("label", "ROOT"), ("saturated", "1")]
  labelsForString s :=
    if s ∈ knownTags rules then [[("label", s)]] else [[("label", "UNKNOWN")]]
  meaningForString s := some (.scalar s)
  response := Response.new

/-! ### Nodes and edges -/

structure Node (M : Type*) where
  rule : Option (Rule M)
  substitution : Substitution
  label : Label
  meaning : Option M

namespace Node

/-- A node built from a rule takes its label from there. -/
def ofRule (r : Rule M) (substitution : Substitution) : Node M :=
  ⟨some r, substitution, r.leftSide, none⟩

def ofString (label : Label) (meaning : Option M) : Node M :=
  ⟨none, Substitution.new, label, meaning⟩

def percolateMeaning (node : Node M) (constituents : List (Node M)) :
    Except String (Node M) :=
  match node.rule with
  | none => .error "Can't call method meaning on an undefined value"
  | some r => do
    let m ← r.meaning (constituents.map Node.meaning)
    return { node with meaning := m }

end Node

structure Edge (M : Type*) where
  node : Node M
  fromPos : ℕ
  toPos : ℕ
  found : List (Node M)
  toFind : List Label

namespace Edge

def isActive (e : Edge M) : Bool := e.toFind.head?.isSome

def firstToFind (e : Edge M) : Label := e.toFind.headD []

def restToFind (e : Edge M) : List Label := e.toFind.tail

/-- An edge that has found all its constituents gets its meaning from them. -/
def percolate (e : Edge M) : Except String (Edge M) :=
  if e.isActive then .ok e
  else do
    let node ← e.node.percolateMeaning e.found
    return { e with node := node }

end Edge

/-! ### The parser -/

def edgeOfLabel (g : Grammar M R) (token : Token) (label : Label) : Edge M :=
  ⟨Node.ofString label (g.meaningForString token.string), token.fromPos, token.toPos, [], []⟩

def edgesOfToken (g : Grammar M R) (token : Token) : List (Edge M) :=
  (g.labelsForString token.string).map (edgeOfLabel g token)

def edgesFromInitialTokens (g : Grammar M R) (tokens : List Token) : List (Edge M) :=
  tokens.flatMap (edgesOfToken g)

/-- `$LAST`. -/
def lastPosition (tokens : List Token) : ℕ :=
  tokens.foldl (fun last token => if last < token.toPos then token.toPos else last) 0

/-- The edge that a rule makes of an inactive edge, if its first daughter unifies. -/
def expandRule (e : Edge M) (r : Rule M) : Except String (Option (Edge M)) :=
  match unify r.firstDaughter e.node.label Substitution.new e.node.substitution with
  | none => .ok none
  | some substitution => do
    let edge ← Edge.percolate
      ⟨Node.ofRule r substitution, e.fromPos, e.toPos, [e.node], r.restOfDaughters⟩
    return some edge

def expandEdge (g : Grammar M R) (e : Edge M) : Except String (List (Edge M)) :=
  collect (expandRule e) g.rules

def locationCondition (inactive active : Edge M) : Bool :=
  inactive.fromPos == active.toPos + 1

/-- The new constituent is one of the rule of the active edge. -/
def nodeOfRule (rule : Option (Rule M)) (substitution : Substitution) :
    Except String (Node M) :=
  match rule with
  | none => .error "Invalid type for attribute rule"
  | some r => .ok (Node.ofRule r substitution)

/-- `combine_edge_aux`. -/
def combineEdge (active inactive : Edge M) : Except String (Option (Edge M)) :=
  if locationCondition inactive active then
    match unify active.firstToFind inactive.node.label active.node.substitution
        inactive.node.substitution with
    | none => .ok none
    | some substitution => do
      let node ← nodeOfRule active.node.rule substitution
      let edge ← Edge.percolate ⟨node, active.fromPos, inactive.toPos,
        active.found ++ [inactive.node], active.restToFind⟩
      return some edge
  else .ok none

/-- The calls of `parse_recursive`. -/
def parser (g : Grammar M R) : Grower (Edge M) String where
  isActive := Edge.isActive
  expand := expandEdge g
  combine := combineEdge

def isRoot (g : Grammar M R) (e : Edge M) : Bool :=
  (unify g.root e.node.label Substitution.new e.node.substitution).isSome

/-- The edges that `parse` takes for its answer. -/
def isComplete (g : Grammar M R) (last : ℕ) (e : Edge M) : Bool :=
  isRoot g e && e.fromPos == 0 && e.toPos == last

/-- What `parse` returns once `parse_recursive` is through. -/
def responses (g : Grammar M R) (last : ℕ) (chart : Chart (Edge M)) :
    Except String (List R) :=
  (chart.inactive.filter (isComplete g last)).mapM fun e => g.response e.node.meaning

/-- `parse`, with `fuel` calls of `parse_recursive` at most. -/
def parse (fuel : ℕ) (g : Grammar M R) (tokens : List Token) :
    Option (Except String (List R)) :=
  ((parser g).run fuel (edgesFromInitialTokens g tokens) ⟨[], []⟩).map fun chart =>
    chart.bind (responses g (lastPosition tokens))

/-! ### The positions of tokens -/

section Positions

theorem getElem?_tokensFrom_zero {p : ℕ} {forms : List String} {x : Token}
    (h : (tokensFrom p forms)[0]? = some x) : x.fromPos = p := by
  cases forms with
  | nil => simp [tokensFrom] at h
  | cons form forms =>
    simp only [tokensFrom, List.getElem?_cons_zero, Option.some.injEq] at h
    rw [← h]

theorem string_of_getElem? {p k : ℕ} {forms : List String} :
    ((tokensFrom p forms)[k]?).map Token.string = forms[k]? := by
  induction forms generalizing p k with
  | nil => simp [tokensFrom]
  | cons form forms ih =>
    cases k with
    | zero => simp [tokensFrom]
    | succ k => simpa [tokensFrom] using ih

theorem fromPos_le_toPos {p k : ℕ} {forms : List String} {x : Token}
    (h : (tokensFrom p forms)[k]? = some x) : p ≤ x.fromPos ∧ x.fromPos ≤ x.toPos := by
  induction forms generalizing p k with
  | nil => simp [tokensFrom] at h
  | cons form forms ih =>
    cases k with
    | zero =>
      simp only [tokensFrom, List.getElem?_cons_zero, Option.some.injEq] at h
      subst h
      exact ⟨Nat.le_refl _, Nat.le_add_right _ _⟩
    | succ k =>
      simp only [tokensFrom, List.getElem?_cons_succ] at h
      have hx := ih h
      omega

/-- A token starts where the one before it has ended, and one further. -/
theorem fromPos_succ {p k : ℕ} {forms : List String} {x y : Token}
    (hx : (tokensFrom p forms)[k]? = some x) (hy : (tokensFrom p forms)[k + 1]? = some y) :
    y.fromPos = x.toPos + 1 := by
  induction forms generalizing p k with
  | nil => simp [tokensFrom] at hx
  | cons form forms ih =>
    simp only [tokensFrom, List.getElem?_cons_succ] at hx hy
    cases k with
    | zero =>
      simp only [List.getElem?_cons_zero, Option.some.injEq] at hx
      rw [getElem?_tokensFrom_zero hy, ← hx]
    | succ k =>
      simp only [List.getElem?_cons_succ] at hx
      exact ih hx hy

theorem toPos_lt_fromPos {p j k : ℕ} {forms : List String} {x y : Token}
    (hx : (tokensFrom p forms)[j]? = some x) (hy : (tokensFrom p forms)[k]? = some y)
    (h : j < k) : x.toPos < y.fromPos := by
  induction h generalizing y with
  | refl =>
    have hstep := fromPos_succ hx hy
    omega
  | @step k hk ih =>
    obtain ⟨z, hz⟩ : ∃ z, (tokensFrom p forms)[k]? = some z := by
      have hlt := (List.getElem?_eq_some_iff.mp hy).1
      exact ⟨_, List.getElem?_eq_getElem (by omega)⟩
    have h1 := ih hz
    have h2 := fromPos_succ hz hy
    have h3 := (fromPos_le_toPos hz).2
    omega

/-- The location condition holds of neighbours, and of nothing else. -/
theorem fromPos_eq_iff {p j k : ℕ} {forms : List String} {x y : Token}
    (hx : (tokensFrom p forms)[j]? = some x) (hy : (tokensFrom p forms)[k]? = some y) :
    y.fromPos = x.toPos + 1 ↔ k = j + 1 := by
  constructor
  · intro h
    rcases Nat.lt_trichotomy k (j + 1) with hk | hk | hk
    · have hle : y.fromPos ≤ x.toPos := by
        rcases Nat.lt_succ_iff_lt_or_eq.mp hk with hlt | rfl
        · have h1 := toPos_lt_fromPos hy hx hlt
          have h2 := (fromPos_le_toPos hy).2
          have h3 := (fromPos_le_toPos hx).2
          omega
        · rw [hx, Option.some.injEq] at hy
          exact hy ▸ (fromPos_le_toPos hx).2
      omega
    · exact hk
    · obtain ⟨z, hz⟩ : ∃ z, (tokensFrom p forms)[j + 1]? = some z := by
        have hlt := (List.getElem?_eq_some_iff.mp hy).1
        exact ⟨_, List.getElem?_eq_getElem (by omega)⟩
      have h1 := fromPos_succ hx hz
      have h2 := toPos_lt_fromPos hz hy hk
      have h3 := (fromPos_le_toPos hz).2
      omega
  · rintro rfl
    exact fromPos_succ hx hy

theorem fromPos_injective {p j k : ℕ} {forms : List String} {x y : Token}
    (hx : (tokensFrom p forms)[j]? = some x) (hy : (tokensFrom p forms)[k]? = some y)
    (h : x.fromPos = y.fromPos) : j = k := by
  have h1 := (fromPos_le_toPos hx).2
  have h2 := (fromPos_le_toPos hy).2
  rcases Nat.lt_trichotomy j k with hlt | heq | hlt
  · have := toPos_lt_fromPos hx hy hlt
    omega
  · exact heq
  · have := toPos_lt_fromPos hy hx hlt
    omega

theorem toPos_injective {p j k : ℕ} {forms : List String} {x y : Token}
    (hx : (tokensFrom p forms)[j]? = some x) (hy : (tokensFrom p forms)[k]? = some y)
    (h : x.toPos = y.toPos) : j = k := by
  have h1 := (fromPos_le_toPos hx).2
  have h2 := (fromPos_le_toPos hy).2
  rcases Nat.lt_trichotomy j k with hlt | heq | hlt
  · have := toPos_lt_fromPos hx hy hlt
    omega
  · exact heq
  · have := toPos_lt_fromPos hy hx hlt
    omega

@[simp] theorem length_tokensFrom (p : ℕ) (forms : List String) :
    (tokensFrom p forms).length = forms.length := by
  induction forms generalizing p with
  | nil => rfl
  | cons form forms ih => simp [tokensFrom, ih]

/-- The last position is where the last token ends. -/
theorem foldl_toPos {p last : ℕ} {forms : List String} (h : last ≤ p) :
    (tokensFrom p forms).foldl
        (fun last token => if last < token.toPos then token.toPos else last) last =
      ((tokensFrom p forms).getLast?.map Token.toPos).getD last := by
  induction forms generalizing p last with
  | nil => rfl
  | cons form forms ih =>
    have hlast : (if last < p + form.length then p + form.length else last) =
        p + form.length := by
      split <;> omega
    simp only [tokensFrom, List.foldl_cons, hlast]
    rw [ih (Nat.le_succ _)]
    cases forms with
    | nil => rfl
    | cons form' forms => simp [tokensFrom, List.getLast?_cons]

theorem lastPosition_tokens {forms : List String} {x : Token}
    (h : (tokens forms)[forms.length - 1]? = some x) :
    lastPosition (tokens forms) = x.toPos := by
  have hlast : (tokens forms).getLast? = some x := by
    rw [List.getLast?_eq_getElem?, tokens, length_tokensFrom]
    exact h
  have hfold : (tokensFrom 0 forms).foldl
      (fun last token => if last < token.toPos then token.toPos else last) 0 = _ :=
    foldl_toPos (Nat.le_refl 0)
  rw [show (tokensFrom 0 forms).getLast? = some x from hlast] at hfold
  exact hfold

end Positions

end Qvd.ChartParser
