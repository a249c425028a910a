import Mathlib
import Qvd.AdminMeanings
import Qvd.ChartCompleteness
import Qvd.QuotedWords

/-!
Two commands of five tokens, a query with one filter and an update with one assignment, for any
words in the places of the name and the value: their derivations and their answers.
-/
namespace Qvd.QuotedCommands

open AdminGrammar AdminMeanings ChartCompleteness ChartParser ParseTrees QuotedWords SpanTables

/-- The command of a request. -/
def request : Label :=
  saturated "CMD" ++ [("order", "0"), ("in", "0"), ("of", "0"), ("to", "0"), ("with", "0")]

/-- The command that an update adds its arguments to. -/
def updated : Label := saturated "CMD" ++ [("order", "0"), ("of", "0"), ("with", "1")]

/-- The action of a command. -/
def verb : Label := unsaturated "CMD" ++ phrases "#order" "#of" "#to" "#with"

/-! ### The query -/

section Query

variable {obj n v : String} {t : Tree}

def getForms (obj n v : String) : List String := [obj, n, "=", v, "get"]

/-- What can be derived around the name and the value, whatever they are. -/
def getTable : Table
  | 0, 1 => some objectRow
  | 1, 1 => none
  | 2, 1 => some [.word [("label", "=")], .phrase 57]
  | 3, 1 => none
  | 4, 1 => some (.word [("label", "get")] :: phraseHeads [1, 28, 71])
  | 0, 2 => some (phraseHeads [37, 53, 54, 75, 84, 85, 86, 96])
  | 3, 2 => some (phraseHeads [37, 54, 73, 74, 82, 84])
  | 1, 3 => some [.phrase 72]
  | 0, 4 => some [.phrase 53]
  | 0, 5 => some (phraseHeads [37, 84])
  | _, _ => some []

theorem getTable_spec : Closed admin getTable 5 ∧
    Reads admin getTable admin.root 0 5 84 [5] ∧
    Reads admin getTable request 0 5 37 [4, 1] ∧
    Reads admin getTable (saturated "QVD_OBJECT") 0 4 53 [1, 3] ∧
    Reads admin getTable (itemOf "1") 1 3 72 [1, 1, 1] ∧
    Reads admin getTable (saturated "IDOP") 2 1 57 [1] ∧
    ReadsWord admin getTable (saturated "=") 2 [("label", "=")] ∧
    Reads admin getTable verb 4 1 28 [1] ∧
    ReadsWord admin getTable (saturated "get" ++ phrases "1" "1" "0" "0") 4
      [("label", "get")] := by
  decide +kernel

theorem coversWords_getTable (hobj : obj ∈ objectWords) :
    CoversWords admin getTable (getForms obj n v) := by
  refine coversWords_of fun k s hs heads hheads => ?_
  rcases k with _ | _ | _ | _ | _ | k
  · obtain rfl := Option.some.inj hs
    exact Option.some.inj hheads ▸ word_mem_objectRow hobj
  · cases hheads
  · obtain rfl := Option.some.inj hs
    obtain rfl := Option.some.inj hheads
    rw [tokenLabel_known (by decide)]
    decide
  · cases hheads
  · obtain rfl := Option.some.inj hs
    obtain rfl := Option.some.inj hheads
    rw [tokenLabel_known (by decide)]
    decide
  · cases hs

def getTree (obj n v : String) : Tree :=
  .phrase 84 [.phrase 37 [.phrase 53 [objectTree 0 obj, pairTree 1 n v],
    .phrase 28 [.word 4 0]]]

/-- All derivations of a query have the same form. -/
theorem get_derivation (hobj : obj ∈ objectWords)
    (h : IsDerivation admin (getForms obj n v) t) :
    Free n ∧ (Free v ∨ v = "ITEM") ∧ t = getTree obj n v := by
  have hw := coversWords_getTable (n := n) (v := v) hobj
  have hc : Closed admin getTable (getForms obj n v).length := getTable_spec.1
  have hroot : Constituent admin getTable (getForms obj n v) admin.root t 0 5 :=
    .of_derivation admin_accepted hw hc h
  obtain ⟨-, hreadsRoot, hreadsCommand, hreadsObject, hreadsPair, hsign, hequal, hreadsVerb,
    hget⟩ := getTable_spec
  obtain ⟨ds, rfl, hpieces⟩ := hroot.exists_phrase admin_accepted hw hc hreadsRoot rfl
  simp only [pieces_cons, pieces_nil] at hpieces
  obtain ⟨command, _, rfl, hcommand, rfl⟩ := hpieces
  obtain ⟨ds, rfl, hpieces⟩ := hcommand.exists_phrase admin_accepted hw hc hreadsCommand rfl
  simp only [pieces_cons, pieces_nil] at hpieces
  obtain ⟨object, _, rfl, hobject, action, _, rfl, haction, rfl⟩ := hpieces
  obtain ⟨ds, rfl, hpieces⟩ := hobject.exists_phrase admin_accepted hw hc hreadsObject rfl
  simp only [pieces_cons, pieces_nil] at hpieces
  obtain ⟨word, _, rfl, hword, filter, _, rfl, hfilter, rfl⟩ := hpieces
  obtain rfl := object_tree rfl hobj hword
  obtain ⟨hn, hv, rfl⟩ := pair_tree hw hc hfilter rfl rfl hreadsPair hsign hequal
  obtain rfl := keyed_tree hw hc haction hreadsVerb rfl hget
  exact ⟨hn, hv, rfl⟩

/-- The request of a query: the filter and nothing else. -/
def getResponse (obj n v : String) : Response where
  command := some (.scalar "get")
  qvdObject := some (.scalar obj)
  filters := assignment n v
  arguments := .hash []
  parameters := .hash []
  fields := .array []
  order := .hash []

theorem bare_getTree (hobj : obj ∈ objectWords) (hn : Free n) (hv : Free v ∨ v = "ITEM") :
    Bare admin (getForms obj n v) (getTree obj n v) admin.root
      (some (.hash [("command", .scalar "get"), ("obj1", .hash [("qvd_object", .scalar obj),
        ("filters", assignment n v)])])) := by
  have hword : Bare admin (getForms obj n v) (objectTree 0 obj) _ _ := bare_object rfl hobj
  have hpair : Bare admin (getForms obj n v) (pairTree 1 n v) _ _ :=
    bare_pair rfl rfl rfl hn hv
  have haction : Bare admin (getForms obj n v) (.phrase 28 [.word 4 0]) (unsaturated "CMD") _ :=
    bare_phrase rfl (.cons (bare_token rfl) (by rw [tokenLabel_known (by decide)]; decide) .nil) rfl rfl
  have hobject : Bare admin (getForms obj n v)
      (.phrase 53 [objectTree 0 obj, pairTree 1 n v]) (saturated "QVD_OBJECT") _ :=
    bare_phrase rfl (.cons hword (by decide) (.cons hpair (by decide) .nil)) rfl rfl
  have hcommand : Bare admin (getForms obj n v)
      (.phrase 37 [.phrase 53 [objectTree 0 obj, pairTree 1 n v], .phrase 28 [.word 4 0]])
      (saturated "CMD" ++ phrases "#order" "#of" "#to" "#with") _ :=
    bare_phrase rfl (.cons hobject (by decide) (.cons haction (by decide) .nil)) rfl rfl
  exact bare_phrase rfl (.cons hcommand (by decide) .nil) rfl rfl

def getTableFree : Table
  | 0, 1 => some objectRow
  | 1, 1 => some freeRow
  | 2, 1 => some [.word [("label", "=")], .phrase 57]
  | 3, 1 => some (.word [("label", "ITEM")] :: freeRow)
  | 4, 1 => some (.word [("label", "get")] :: phraseHeads [1, 28, 71])
  | 0, 2 => some (phraseHeads [37, 54, 84, 85, 86, 96])
  | 3, 2 => some (phraseHeads [37, 54, 84])
  | 1, 3 => some [.phrase 72]
  | 0, 4 => some [.phrase 53]
  | 0, 5 => some (phraseHeads [37, 84])
  | _, _ => some []

theorem closed_getTableFree : Closed admin getTableFree 5 := by
  decide +kernel

theorem coversWords_getTableFree (hobj : obj ∈ objectWords) (hn : Free n)
    (hv : Free v ∨ v = "ITEM") : CoversWords admin getTableFree (getForms obj n v) := by
  refine coversWords_of fun k s hs heads hheads => ?_
  rcases k with _ | _ | _ | _ | _ | k
  · obtain rfl := Option.some.inj hs
    exact Option.some.inj hheads ▸ word_mem_objectRow hobj
  · obtain rfl := Option.some.inj hs
    exact Option.some.inj hheads ▸ hn.word_mem
  · obtain rfl := Option.some.inj hs
    obtain rfl := Option.some.inj hheads
    rw [tokenLabel_known (by decide)]
    decide
  · obtain rfl := Option.some.inj hs
    obtain rfl := Option.some.inj hheads
    exact word_mem_of_value hv
  · obtain rfl := Option.some.inj hs
    obtain rfl := Option.some.inj hheads
    rw [tokenLabel_known (by decide)]
    decide
  · cases hs

theorem not_allows_getTableFree (first count : ℕ) :
    ∀ i ∈ [39, 40, 73, 75], ¬ (getTableFree first count).Allows (.phrase i) := by
  unfold getTableFree
  split <;> decide

/-- With free words around the sign no callback of a query dies. -/
theorem get_lives (hobj : obj ∈ objectWords) (hn : Free n) (hv : Free v ∨ v = "ITEM") :
    ¬ Dies admin (getForms obj n v) := by
  rintro (⟨t, first, count, a, e, hspan, ha, hm⟩ | ⟨t, a, e, ht, ha, hm⟩)
  · obtain ⟨m, hok⟩ := exists_meaning admin_accepted (coversWords_getTableFree hobj hn hv)
      closed_getTableFree (fun i ds first count r σ vs _ hallows hr _ =>
        ((total_of_getElem? hr).resolve_right fun hi =>
          not_allows_getTableFree first count i hi hallows) vs) t a first count hspan ha
    rw [hok] at hm
    cases hm
  · obtain ⟨-, -, rfl⟩ := get_derivation hobj ht
    obtain rfl := Option.some.inj ((bare_getTree hobj hn hv).symm.trans ha)
    cases hm

/-- When the answer to a query is the request it is meant to be. -/
theorem get_single_iff (hobj : obj ∈ objectWords) :
    Single admin (getForms obj n v) (getResponse obj n v) ↔
      Free n ∧ (Free v ∨ v = "ITEM") := by
  rw [single_iff admin_accepted]
  constructor
  · rintro ⟨-, t, ht, -⟩
    obtain ⟨hn, hv, -⟩ := get_derivation hobj ((ht t).mpr rfl)
    exact ⟨hn, hv⟩
  · rintro ⟨hn, hv⟩
    have hbare := bare_getTree hobj hn hv
    refine ⟨get_lives hobj hn hv, getTree obj n v, fun t' =>
      ⟨fun h => (get_derivation hobj h).2.2, ?_⟩, _, hbare, rfl⟩
    rintro rfl
    have hroot : Agrees admin.root admin.root = true := by decide
    refine ⟨?_, _, hbare, ?_⟩
    · simp [Tree.Spans, getTree, getForms, List.range']
    · rw [unify_of_agrees hroot]
      rfl

end Query

/-! ### The update -/

section Update

variable {obj n v : String} {t : Tree}

def setForms (obj n v : String) : List String := [obj, "set", n, "=", v]

def setTable : Table
  | 0, 1 => some objectRow
  | 1, 1 => some (.word [("label", "set")] :: phraseHeads [3, 29, 71])
  | 2, 1 => none
  | 3, 1 => some [.word [("label", "=")], .phrase 57]
  | 4, 1 => none
  | 0, 2 => some (phraseHeads [37, 54, 84])
  | 1, 2 => some [.phrase 75]
  | 0, 3 => some (phraseHeads [37, 38, 39, 40, 53, 54, 84, 85, 86, 96])
  | 2, 3 => some [.phrase 72]
  | 0, 5 => some (phraseHeads [40, 84])
  | _, _ => some []

theorem setTable_spec : Closed admin setTable 5 ∧
    Reads admin setTable admin.root 0 5 84 [5] ∧
    Reads admin setTable request 0 5 40 [2, 3] ∧
    Reads admin setTable updated 0 2 37 [1, 1] ∧
    Reads admin setTable (saturated "QVD_OBJECT") 0 1 55 [1] ∧
    Reads admin setTable (itemOf "1") 2 3 72 [1, 1, 1] ∧
    Reads admin setTable (saturated "IDOP") 3 1 57 [1] ∧
    ReadsWord admin setTable (saturated "=") 3 [("label", "=")] ∧
    Reads admin setTable verb 1 1 29 [1] ∧
    ReadsWord admin setTable (saturated "set" ++ phrases "0" "0" "1" "1") 1
      [("label", "set")] := by
  decide +kernel

theorem coversWords_setTable (hobj : obj ∈ objectWords) :
    CoversWords admin setTable (setForms obj n v) := by
  refine coversWords_of fun k s hs heads hheads => ?_
  rcases k with _ | _ | _ | _ | _ | k
  · obtain rfl := Option.some.inj hs
    exact Option.some.inj hheads ▸ word_mem_objectRow hobj
  · obtain rfl := Option.some.inj hs
    obtain rfl := Option.some.inj hheads
    rw [tokenLabel_known (by decide)]
    decide
  · cases hheads
  · obtain rfl := Option.some.inj hs
    obtain rfl := Option.some.inj hheads
    rw [tokenLabel_known (by decide)]
    decide
  · cases hheads
  · cases hs

def setTree (obj n v : String) : Tree :=
  .phrase 84 [.phrase 40 [.phrase 37 [.phrase 55 [objectTree 0 obj], .phrase 29 [.word 1 0]],
    pairTree 2 n v]]

/-- All derivations of an update have the same form. -/
theorem set_derivation (hobj : obj ∈ objectWords)
    (h : IsDerivation admin (setForms obj n v) t) :
    Free n ∧ (Free v ∨ v = "ITEM") ∧ t = setTree obj n v := by
  have hw := coversWords_setTable (n := n) (v := v) hobj
  have hc : Closed admin setTable (setForms obj n v).length := setTable_spec.1
  have hroot : Constituent admin setTable (setForms obj n v) admin.root t 0 5 :=
    .of_derivation admin_accepted hw hc h
  obtain ⟨-, hreadsRoot, hreadsUpdate, hreadsCommand, hreadsObject, hreadsPair, hsign, hequal,
    hreadsVerb, hset⟩ := setTable_spec
  obtain ⟨ds, rfl, hpieces⟩ := hroot.exists_phrase admin_accepted hw hc hreadsRoot rfl
  simp only [pieces_cons, pieces_nil] at hpieces
  obtain ⟨update, _, rfl, hupdate, rfl⟩ := hpieces
  obtain ⟨ds, rfl, hpieces⟩ := hupdate.exists_phrase admin_accepted hw hc hreadsUpdate rfl
  simp only [pieces_cons, pieces_nil] at hpieces
  obtain ⟨command, _, rfl, hcommand, item, _, rfl, hitem, rfl⟩ := hpieces
  obtain ⟨ds, rfl, hpieces⟩ := hcommand.exists_phrase admin_accepted hw hc hreadsCommand rfl
  simp only [pieces_cons, pieces_nil] at hpieces
  obtain ⟨object, _, rfl, hobject, action, _, rfl, haction, rfl⟩ := hpieces
  obtain ⟨ds, rfl, hpieces⟩ := hobject.exists_phrase admin_accepted hw hc hreadsObject rfl
  simp only [pieces_cons, pieces_nil] at hpieces
  obtain ⟨word, _, rfl, hword, rfl⟩ := hpieces
  obtain rfl := object_tree rfl hobj hword
  obtain ⟨hn, hv, rfl⟩ := pair_tree hw hc hitem rfl rfl hreadsPair hsign hequal
  obtain rfl := keyed_tree hw hc haction hreadsVerb rfl hset
  exact ⟨hn, hv, rfl⟩

/-- The arguments that an assignment comes to. -/
def assigned (n v : String) : Value :=
  .hash (insertList [] (arguments "-and" "=" (assignment n v)))

theorem assigned_eq (hand : n ≠ "-and") (hequal : n ≠ "=") :
    assigned n v = .hash [(n, .scalar v)] := by
  have hlookup : [(n, Value.hash [("=", .scalar v)])].lookup "=" = none := by
    have hne : ("=" == n) = false := by simpa using hequal.symm
    simp [List.lookup, hne]
  simp [assigned, assignment, arguments, argumentsFirst, insertList, insertPair, keyText, hand,
    hlookup]

/-- The operator of a conjunction has its place among the keys. -/
theorem assigned_and : assigned "-and" v = .hash [(v, .undef)] := by
  simp [assigned, assignment, arguments, argumentsAt, insertList, insertPair, keyText]

def setResponse (obj n v : String) : Response where
  command := some (.scalar "update")
  qvdObject := some (.scalar obj)
  filters := .hash []
  arguments := .hash [(n, .scalar v)]
  parameters := .hash []
  fields := .array []
  order := .hash []

theorem bare_setTree (hobj : obj ∈ objectWords) (hn : Free n) (hv : Free v ∨ v = "ITEM") :
    Bare admin (setForms obj n v) (setTree obj n v) admin.root
      (some (.hash [("arguments", assigned n v), ("command", .scalar "update"),
        ("obj1", .hash [("qvd_object", .scalar obj)])])) := by
  have hword : Bare admin (setForms obj n v) (objectTree 0 obj) _ _ := bare_object rfl hobj
  have hpair : Bare admin (setForms obj n v) (pairTree 2 n v) _ _ :=
    bare_pair rfl rfl rfl hn hv
  have haction : Bare admin (setForms obj n v) (.phrase 29 [.word 1 0]) (unsaturated "CMD") _ :=
    bare_phrase rfl (.cons (bare_token rfl) (by rw [tokenLabel_known (by decide)]; decide) .nil) rfl rfl
  have hobject : Bare admin (setForms obj n v) (.phrase 55 [objectTree 0 obj])
      (saturated "QVD_OBJECT") _ :=
    bare_phrase rfl (.cons hword (by decide) .nil) rfl rfl
  have hcommand : Bare admin (setForms obj n v)
      (.phrase 37 [.phrase 55 [objectTree 0 obj], .phrase 29 [.word 1 0]])
      (saturated "CMD" ++ phrases "#order" "#of" "#to" "#with") _ :=
    bare_phrase rfl (.cons hobject (by decide) (.cons haction (by decide) .nil)) rfl rfl
  have hupdate : Bare admin (setForms obj n v)
      (.phrase 40 [.phrase 37 [.phrase 55 [objectTree 0 obj], .phrase 29 [.word 1 0]],
        pairTree 2 n v]) (saturated "CMD" ++ [("order", "0"), ("of", "0"), ("with", "0")]) _ :=
    bare_phrase rfl (.cons hcommand (by decide) (.cons hpair (by decide) .nil)) rfl rfl
  exact bare_phrase rfl (.cons hupdate (by decide) .nil) rfl rfl

def setTableFree : Table
  | 0, 1 => some objectRow
  | 1, 1 => some (.word [("label", "set")] :: phraseHeads [3, 29, 71])
  | 2, 1 => some freeRow
  | 3, 1 => some [.word [("label", "=")], .phrase 57]
  | 4, 1 => some (.word [("label", "ITEM")] :: freeRow)
  | 0, 2 => some (phraseHeads [37, 54, 84])
  | 0, 3 => some (phraseHeads [37, 38, 84, 85, 86, 96])
  | 2, 3 => some [.phrase 72]
  | 0, 5 => some (phraseHeads [40, 84])
  | _, _ => some []

theorem setTableFree_spec : Closed admin setTableFree 5 ∧
    readings admin setTableFree [updated, itemOf "1"] 0 5 = [[2, 3]] ∧
    Reads admin setTableFree updated 0 2 37 [1, 1] := by
  decide +kernel

theorem coversWords_setTableFree (hobj : obj ∈ objectWords) (hn : Free n)
    (hv : Free v ∨ v = "ITEM") : CoversWords admin setTableFree (setForms obj n v) := by
  refine coversWords_of fun k s hs heads hheads => ?_
  rcases k with _ | _ | _ | _ | _ | k
  · obtain rfl := Option.some.inj hs
    exact Option.some.inj hheads ▸ word_mem_objectRow hobj
  · obtain rfl := Option.some.inj hs
    obtain rfl := Option.some.inj hheads
    rw [tokenLabel_known (by decide)]
    decide
  · obtain rfl := Option.some.inj hs
    exact Option.some.inj hheads ▸ hn.word_mem
  · obtain rfl := Option.some.inj hs
    obtain rfl := Option.some.inj hheads
    rw [tokenLabel_known (by decide)]
    decide
  · obtain rfl := Option.some.inj hs
    obtain rfl := Option.some.inj hheads
    exact word_mem_of_value hv
  · cases hs

theorem not_allows_setTableFree (first count : ℕ) :
    ∀ i ∈ [39, 73, 75], ¬ (setTableFree first count).Allows (.phrase i) := by
  unfold setTableFree
  split <;> decide

theorem allows_setTableFree {first count : ℕ}
    (h : (setTableFree first count).Allows (.phrase 40)) : first = 0 ∧ count = 5 := by
  revert h
  unfold setTableFree
  split
  case h_9 => exact fun _ => ⟨rfl, rfl⟩
  all_goals exact fun h => absurd h (by decide)

/-- The arguments of an update go into the hash of its command. -/
theorem update_returns (hw : CoversWords admin setTableFree (setForms obj n v)) {ds : List Tree}
    {σ : Substitution} {vs : List (Option Value)} {r : Rule Value}
    (hspan : (Tree.phrase 40 ds).Spans 0 5) (hr : admin.rules[40]? = some r)
    (hall : analyseAll admin (setForms obj n v) r.rightSide ds Substitution.new =
      some (σ, .ok vs)) : ∃ m, r.meaning vs = .ok m := by
  have hc : Closed admin setTableFree (setForms obj n v).length := setTableFree_spec.1
  obtain ⟨ks, hks, hpieces⟩ : ∃ ks ∈ readings admin setTableFree r.rightSide 0 5,
      Pieces admin setTableFree (setForms obj n v) r.rightSide ds ks 0 :=
    exists_pieces ofVariables_new hall (by rwa [Tree.Spans, yield_phrase] at hspan)
      fun d _ => covered admin_accepted hw hc d
  obtain rfl : _ = r := Option.some.inj hr
  obtain rfl := List.mem_singleton.mp (setTableFree_spec.2.1 ▸ hks)
  simp only [pieces_cons, pieces_nil] at hpieces
  obtain ⟨command, _, rfl, hcommand, item, _, rfl, -, rfl⟩ := hpieces
  obtain ⟨ds, rfl, -⟩ := hcommand.exists_phrase admin_accepted hw hc setTableFree_spec.2.2 rfl
  obtain ⟨a, σ', ms, ha, -, -, hms⟩ := analyseAll_cons.mp hall
  obtain ⟨r', τ, ms', hr', -, rfl⟩ := analyse_phrase.mp ha
  obtain rfl := Option.some.inj hr'
  cases ms' with
  | error e => simp [applyCallback, consMeaning, Except.bind] at hms
  | ok ws =>
    cases ms with
    | error e => simp [applyCallback, consMeaning, Except.bind, Except.map] at hms
    | ok us =>
      rw [Except.ok.inj hms]
      exact ⟨_, rfl⟩

theorem set_lives (hobj : obj ∈ objectWords) (hn : Free n) (hv : Free v ∨ v = "ITEM") :
    ¬ Dies admin (setForms obj n v) := by
  have hw := coversWords_setTableFree hobj hn hv
  rintro (⟨t, first, count, a, e, hspan, ha, hm⟩ | ⟨t, a, e, ht, ha, hm⟩)
  · obtain ⟨m, hok⟩ := exists_meaning admin_accepted hw setTableFree_spec.1
      (fun i ds first count r σ vs hspan hallows hr hall => by
        by_cases hi : i = 40
        · subst hi
          obtain ⟨rfl, rfl⟩ := allows_setTableFree hallows
          exact update_returns hw hspan hr hall
        · refine (total_of_getElem? hr).resolve_right (fun hmem => ?_) vs
          refine not_allows_setTableFree first count i ?_ hallows
          simpa [hi] using hmem) t a first count hspan ha
    rw [hok] at hm
    cases hm
  · obtain ⟨-, -, rfl⟩ := set_derivation hobj ht
    obtain rfl := Option.some.inj ((bare_setTree hobj hn hv).symm.trans ha)
    cases hm

/-- When the answer to an update is the request it is meant to be. -/
theorem set_single_iff (hobj : obj ∈ objectWords) :
    Single admin (setForms obj n v) (setResponse obj n v) ↔
      Free n ∧ n ≠ "-and" ∧ (Free v ∨ v = "ITEM") := by
  rw [single_iff admin_accepted]
  constructor
  · rintro ⟨-, t, ht, hentry⟩
    obtain ⟨hn, hv, rfl⟩ := set_derivation hobj ((ht t).mpr rfl)
    refine ⟨hn, ?_, hv⟩
    rintro rfl
    obtain ⟨a, ha, hresponse⟩ := hentry
    obtain rfl := Option.some.inj ((bare_setTree hobj hn hv).symm.trans ha)
    rw [assigned_and] at hresponse
    cases hresponse
  · rintro ⟨hn, hand, hv⟩
    have hequal : n ≠ "=" := by
      rintro rfl
      exact not_free_of_bound (by decide) hn
    have hbare := bare_setTree hobj hn hv
    rw [assigned_eq hand hequal] at hbare
    have hroot : Agrees admin.root admin.root = true := by decide
    refine ⟨set_lives hobj hn hv, setTree obj n v, fun t' =>
      ⟨fun h => (set_derivation hobj h).2.2, ?_⟩, _, hbare, rfl⟩
    rintro rfl
    refine ⟨?_, _, hbare, ?_⟩
    · simp [Tree.Spans, setTree, setForms, List.range']
    · rw [unify_of_agrees hroot]
      rfl

end Update

end Qvd.QuotedCommands
