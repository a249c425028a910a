import Qvd.AdminGrammar
import Qvd.AdminTokenizer

/-!
What the callbacks of the administrator's grammar do with any arguments: all but four of them
return, and none of them makes up a string with a quote in it.
-/
namespace Qvd.AdminMeanings

open AdminGrammar AdminTokenizer ChartParser ParseTrees

/-! ### Callbacks that always return -/

section Total

/-- The callback does not die, whatever its arguments are. -/
def Total (r : Rule Value) : Prop := ∀ ms, ∃ m, r.meaning ms = .ok m

theorem total_freeWords : ∀ r ∈ freeWords.map freeWord, Total r :=
  List.forall_mem_map.mpr fun _ _ _ => ⟨_, rfl⟩

theorem total_actions : ∀ r ∈ actions, Total r := by
  simp [actions, action, scalarOf, Total]

theorem total_commands : ∀ p ∈ commands.zipIdx 37, Total p.1 ∨ p.2 ∈ [39, 40, 73, 75] := by
  simp [commands, Total]

theorem total_objects : ∀ r ∈ objects, Total r := by
  rw [objects, List.forall_mem_append]
  exact ⟨List.forall_mem_map.mpr fun _ _ _ => ⟨_, rfl⟩, by simp [Total]⟩

theorem total_operators : ∀ r ∈ operators, Total r := by
  simp [operators, sign, scalarOf, Total]

theorem total_items : ∀ p ∈ items.zipIdx 71, Total p.1 ∨ p.2 ∈ [39, 40, 73, 75] := by
  simp [items, Total]

theorem total_orders : ∀ r ∈ orders, Total r := by
  simp [orders, sign, scalarOf, Total]

theorem total_roots : ∀ r ∈ roots, Total r := by
  simp [roots, update, blocking, tagging, granting, assigning, Total]

/-- Only the two productions that add to a command, the negation and the coordination look
into their arguments. -/
theorem total_of_getElem? {i : ℕ} {r : Rule Value} (h : admin.rules[i]? = some r) :
    Total r ∨ i ∈ [39, 40, 73, 75] := by
  have hmem : (r, i) ∈ rules.zipIdx := List.mem_zipIdx_iff_getElem?.mpr h
  have hlift : ∀ {l : List (Rule Value)} {k : ℕ}, (∀ r ∈ l, Total r) →
      ∀ p ∈ l.zipIdx k, Total p.1 ∨ p.2 ∈ [39, 40, 73, 75] :=
    fun hl p hp => .inl (hl p.1 (List.fst_mem_of_mem_zipIdx hp))
  revert hmem
  generalize hp : (r, i) = p
  rw [show r = p.1 by rw [← hp], show i = p.2 by rw [← hp]]
  clear hp
  revert p
  simp only [rules, List.zipIdx_append, List.forall_mem_append]
  exact ⟨⟨⟨⟨⟨⟨⟨hlift total_freeWords, hlift total_actions⟩, total_commands⟩,
    hlift total_objects⟩, hlift total_operators⟩, total_items⟩, hlift total_orders⟩,
    hlift total_roots⟩

end Total

/-! ### The characters of a meaning -/

section Characters

def Quoteless (s : String) : Prop := ∀ c ∈ s.toList, isQuote c = false

instance (s : String) : Decidable (Quoteless s) :=
  List.decidableBAll (fun c => isQuote c = false) s.toList

mutual

/-- No string of the value has a quote in it, and no key. -/
def Clean : Value → Prop
  | .undef => True
  | .scalar s => Quoteless s
  | .array items => CleanAll items
  | .hash pairs => CleanPairs pairs

def CleanAll : List Value → Prop
  | [] => True
  | v :: vs => Clean v ∧ CleanAll vs

def CleanPairs : List (String × Value) → Prop
  | [] => True
  | (key, v) :: pairs => Quoteless key ∧ Clean v ∧ CleanPairs pairs

end

@[simp] theorem clean_undef : Clean .undef := by
  simp only [Clean]

@[simp] theorem clean_scalar {s : String} : Clean (.scalar s) ↔ Quoteless s := by
  simp only [Clean]

@[simp] theorem clean_array {items : List Value} :
    Clean (.array items) ↔ ∀ v ∈ items, Clean v := by
  rw [Clean]
  induction items with
  | nil => simp [CleanAll]
  | cons v items ih => simp [CleanAll, ih]

@[simp] theorem clean_hash {pairs : List (String × Value)} :
    Clean (.hash pairs) ↔ ∀ p ∈ pairs, Quoteless p.1 ∧ Clean p.2 := by
  rw [Clean]
  induction pairs with
  | nil => simp [CleanPairs]
  | cons p pairs ih => simp [CleanPairs, ih, and_assoc]

theorem clean_nil : Clean (.hash []) := by
  simp

theorem clean_cons {key : String} {v : Value} {pairs : List (String × Value)}
    (hkey : Quoteless key) (hv : Clean v) (h : Clean (.hash pairs)) :
    Clean (.hash ((key, v) :: pairs)) :=
  clean_hash.mpr (List.forall_mem_cons.mpr ⟨⟨hkey, hv⟩, clean_hash.mp h⟩)

theorem clean_single {key : String} {v : Value} (hkey : Quoteless key) (hv : Clean v) :
    Clean (.hash [(key, v)]) :=
  clean_cons hkey hv clean_nil

theorem quoteless_keyText {v : Value} (h : Clean v) : Quoteless (keyText v) := by
  cases v with
  | undef => exact (by decide : Quoteless "")
  | scalar s => exact clean_scalar.mp h
  | array items => exact (by decide : Quoteless "ARRAY")
  | hash pairs => exact (by decide : Quoteless "HASH")

theorem clean_insertPair {key : String} {v : Value} {pairs : List (String × Value)}
    (hkey : Quoteless key) (hv : Clean v) (h : Clean (.hash pairs)) :
    Clean (.hash (insertPair key v pairs)) := by
  rw [clean_hash] at h ⊢
  induction pairs with
  | nil => simpa [insertPair] using ⟨hkey, hv⟩
  | cons p pairs ih =>
    rw [List.forall_mem_cons] at h
    rw [insertPair]
    split
    · exact List.forall_mem_cons.mpr ⟨⟨hkey, hv⟩, h.2⟩
    · exact List.forall_mem_cons.mpr ⟨h.1, ih h.2⟩

theorem clean_insertList {pairs : List (String × Value)} {list : List Value}
    (hlist : ∀ v ∈ list, Clean v) (h : Clean (.hash pairs)) :
    Clean (.hash (insertList pairs list)) := by
  induction pairs, list using insertList.induct with
  | case1 pairs => exact h
  | case2 pairs key =>
    exact clean_insertPair (quoteless_keyText (hlist key List.mem_cons_self)) clean_undef h
  | case3 pairs key v list ih =>
    rw [List.forall_mem_cons, List.forall_mem_cons] at hlist
    exact ih hlist.2.2 (clean_insertPair (quoteless_keyText hlist.1) hlist.2.1 h)

mutual

theorem clean_fields (operator : String) : ∀ v, Clean v → ∀ f ∈ fields operator v, Clean f
  | .undef, h => by simp [fields]
  | .scalar s, h => by simpa [fields] using h
  | .hash pairs, h => by
    rw [fields]
    exact clean_fieldsAt operator pairs (clean_hash.mp h)
  | .array items, h => by
    rw [fields]
    exact clean_fieldsOf operator _ items (clean_array.mp h)

theorem clean_fieldsOf (operator : String) (skip : Bool) : ∀ items : List Value,
    (∀ v ∈ items, Clean v) → ∀ f ∈ fieldsOf operator skip items, Clean f
  | [], h => by simp [fieldsOf]
  | item :: items, h => by
    rw [List.forall_mem_cons] at h
    rw [fieldsOf, List.forall_mem_append]
    refine ⟨?_, clean_fieldsOf operator false items h.2⟩
    split
    · simp
    · exact clean_fields operator item h.1

theorem clean_fieldsAt (operator : String) : ∀ pairs : List (String × Value),
    (∀ p ∈ pairs, Quoteless p.1 ∧ Clean p.2) → ∀ f ∈ fieldsAt operator pairs, Clean f
  | [], h => by simp [fieldsAt]
  | (key, v) :: pairs, h => by
    rw [List.forall_mem_cons] at h
    rw [fieldsAt]
    split
    · exact clean_fields operator v h.1.2
    · exact clean_fieldsAt operator pairs h.2

end

theorem clean_fieldArray {v : Value} (h : Clean v) : Clean (fieldArray v) :=
  clean_array.mpr (clean_fields "-and" v h)

theorem clean_reversedFields {v : Value} (h : Clean v) : Clean (reversedFields v) :=
  clean_array.mpr fun f hf => clean_fields "-and" v h f (List.mem_reverse.mp hf)

mutual

theorem clean_arguments (conj equal : String) :
    ∀ v, Clean v → ∀ f ∈ arguments conj equal v, Clean f
  | .undef, h => by simp [arguments]
  | .scalar s, h => by simpa [arguments] using h
  | .hash pairs, h => by
    rw [clean_hash] at h
    rw [arguments]
    split
    · exact clean_argumentsAt conj equal pairs h
    · split
      · rename_i v hv
        obtain ⟨l, l', rfl, -⟩ := List.lookup_eq_some_iff.mp hv
        simpa using (h (equal, v) (by simp)).2
      · exact clean_argumentsFirst conj equal pairs h
  | .array items, h => by
    rw [arguments]
    exact clean_argumentsOf conj equal _ items (clean_array.mp h)

theorem clean_argumentsOf (conj equal : String) (skip : Bool) : ∀ items : List Value,
    (∀ v ∈ items, Clean v) → ∀ f ∈ argumentsOf conj equal skip items, Clean f
  | [], h => by simp [argumentsOf]
  | item :: items, h => by
    rw [List.forall_mem_cons] at h
    rw [argumentsOf, List.forall_mem_append]
    refine ⟨?_, clean_argumentsOf conj equal false items h.2⟩
    split
    · simp
    · exact clean_arguments conj equal item h.1

theorem clean_argumentsAt (conj equal : String) : ∀ pairs : List (String × Value),
    (∀ p ∈ pairs, Quoteless p.1 ∧ Clean p.2) → ∀ f ∈ argumentsAt conj equal pairs, Clean f
  | [], h => by simp [argumentsAt]
  | (key, v) :: pairs, h => by
    rw [List.forall_mem_cons] at h
    rw [argumentsAt]
    split
    · exact clean_arguments conj equal v h.1.2
    · exact clean_argumentsAt conj equal pairs h.2

theorem clean_argumentsFirst (conj equal : String) : ∀ pairs : List (String × Value),
    (∀ p ∈ pairs, Quoteless p.1 ∧ Clean p.2) → ∀ f ∈ argumentsFirst conj equal pairs, Clean f
  | [], h => by simp [argumentsFirst]
  | (key, v) :: pairs, h => by
    rw [List.forall_mem_cons] at h
    rw [argumentsFirst, List.forall_mem_cons, clean_scalar]
    exact ⟨h.1.1, clean_arguments conj equal v h.1.2⟩

end

theorem clean_field {key : String} {v w : Value} (hv : Clean v)
    (h : v.field key = .ok (some w)) : Clean w := by
  cases v with
  | undef => simp [Value.field] at h
  | scalar s => simp [Value.field] at h
  | array items => simp [Value.field] at h
  | hash pairs =>
    simp only [Value.field, Except.ok.injEq, Option.bind_eq_some_iff] at h
    obtain ⟨x, hx, hw⟩ := h
    obtain ⟨l, l', rfl, -⟩ := List.lookup_eq_some_iff.mp hx
    have hx : Clean x := (clean_hash.mp hv (key, x) (by simp)).2
    cases x <;> simp only [Value.defined, Option.some.injEq, reduceCtorEq] at hw
    all_goals exact hw ▸ hx

theorem clean_asArray {v : Value} (h : Clean v) : ∀ w ∈ asArray v, Clean w := by
  cases v with
  | array items => exact clean_array.mp h
  | undef => simp [asArray]
  | scalar s => simpa [asArray] using h
  | hash pairs => simpa [asArray] using h

theorem clean_eachPair {v : Value} (hv : Clean v) {list : List Value}
    (h : eachPair v = .ok list) : ∀ w ∈ list, Clean w := by
  unfold eachPair at h
  split at h
  · cases h
    simp
  · cases h
    simp only [clean_hash, List.forall_mem_cons] at hv
    simp [hv.1]
  · cases h

/-- A reference brings its first pair, and anything else itself. -/
theorem spreadRefs_cons {v : Value} {vs list : List Value}
    (h : spreadRefs (v :: vs) = .ok list) :
    ∃ front back, list = front ++ back ∧ spreadRefs vs = .ok back ∧
      (front = [v] ∨ eachPair v = .ok front) := by
  cases v <;>
    simp only [spreadRefs, bind, Except.bind, pure, Except.pure] at h
  case undef | scalar =>
    split at h
    · cases h
    · rename_i back hback
      exact ⟨_, back, (Except.ok.inj h).symm, hback, .inl rfl⟩
  case array | hash =>
    split at h
    · cases h
    · rename_i front hfront
      split at h
      · cases h
      · rename_i back hback
        exact ⟨front, back, (Except.ok.inj h).symm, hback, .inr hfront⟩

theorem clean_spreadRefs {vs list : List Value} (hvs : ∀ v ∈ vs, Clean v)
    (h : spreadRefs vs = .ok list) : ∀ w ∈ list, Clean w := by
  induction vs generalizing list with
  | nil =>
    cases h
    simp
  | cons v vs ih =>
    rw [List.forall_mem_cons] at hvs
    obtain ⟨front, back, rfl, hback, hfront⟩ := spreadRefs_cons h
    rw [List.forall_mem_append]
    refine ⟨?_, ih hvs.2 hback⟩
    rcases hfront with rfl | hpair
    · simpa using hvs.1
    · exact clean_eachPair hvs.1 hpair

theorem clean_spreadHashes {vs : List Value} (hvs : ∀ v ∈ vs, Clean v) :
    ∀ w ∈ spreadHashes vs, Clean w := by
  induction vs with
  | nil => simp [spreadHashes]
  | cons v vs ih =>
    rw [List.forall_mem_cons] at hvs
    cases v with
    | hash pairs =>
      cases pairs with
      | nil => simpa [spreadHashes] using ih hvs.2
      | cons p pairs =>
        simp only [clean_hash, List.forall_mem_cons] at hvs
        simpa [spreadHashes] using ⟨hvs.1.1.1, hvs.1.1.2, ih hvs.2⟩
    | undef => simpa [spreadHashes] using ih hvs.2
    | scalar s => simpa [spreadHashes] using ⟨hvs.1, ih hvs.2⟩
    | array items => simpa [spreadHashes] using ⟨clean_array.mp hvs.1, ih hvs.2⟩

theorem clean_keyValue {key op v : Value} (hkey : Clean key) (hop : Clean op) (hv : Clean v) :
    Clean (keyValue key op v) := by
  have hbetween : Clean (.scalar "-between") := clean_scalar.mpr (by decide)
  have hrange : ∀ w, ((v.field "-between").toOption.join).filter truthy = some w → Clean w := by
    intro w hw
    cases hfield : v.field "-between" with
    | error e => simp [hfield, Except.toOption] at hw
    | ok o =>
      simp only [hfield, Except.toOption, Option.join_some, Option.filter_eq_some_iff] at hw
      exact clean_field hv (hfield.trans (congrArg _ hw.1))
  unfold keyValue
  generalize ((v.field "-between").toOption.join).filter truthy = range at hrange
  have hop' : Clean (if range.isSome then .scalar "-between" else op) := by
    split
    · exact hbetween
    · exact hop
  have hv' : Clean (range.getD v) := by
    cases range with
    | none => exact hv
    | some w => exact hrange w rfl
  dsimp only
  generalize (if range.isSome then Value.scalar "-between" else op) = op' at hop'
  generalize range.getD v = v' at hv'
  have hpair : ∀ {w : Value}, Clean w →
      Clean (.hash [(keyText key, .hash [(keyText op', w)])]) := fun hw =>
    clean_single (quoteless_keyText hkey) (clean_single (quoteless_keyText hop') hw)
  split
  · split
    · exact hpair hv'
    · exact clean_single (quoteless_keyText hkey) hv'
  · exact hpair hv'

theorem clean_coordinate {operand coordination : Value} {m : Option Value}
    (hoperand : Clean operand) (hcoordination : Clean coordination)
    (h : coordinate operand coordination = .ok m) : Clean (m.getD .undef) := by
  simp only [coordinate, bind, Except.bind, pure, Except.pure] at h
  split at h
  · cases h
  · rename_i operator hoperator
    split at h
    · cases h
    · rename_i operands hoperands
      split at h
      · rename_i items hitems
        have hop : Clean (operator.getD .undef) := by
          cases operator with
          | none => exact clean_undef
          | some w => exact clean_field hcoordination hoperator
        have harray : Clean (.array items) := by
          rw [← hitems]
          cases operands with
          | none => simp
          | some w => exact clean_field hcoordination hoperands
        have hlist : ∀ w ∈ items ++ [operand], Clean w := by
          rw [List.forall_mem_append]
          exact ⟨clean_array.mp harray, by simpa using hoperand⟩
        rw [← Except.ok.inj h]
        exact clean_single (quoteless_keyText hop) (clean_array.mpr (clean_spreadHashes hlist))
      · cases h

theorem clean_withPairsOf {pairs : List (String × Value)} {v : Value} {m : Option Value}
    (hpairs : Clean (.hash pairs)) (hv : Clean v) (h : withPairsOf pairs v = .ok m) :
    Clean (m.getD .undef) := by
  cases v with
  | undef => cases h
  | scalar s => cases h
  | array items => cases h
  | hash front =>
    rw [← Except.ok.inj h, Option.getD_some]
    rw [clean_hash] at hv
    clear h
    induction front generalizing pairs with
    | nil => exact hpairs
    | cons p front ih =>
      rw [List.forall_mem_cons] at hv
      exact ih (clean_insertPair hv.1.1 hv.1.2 hpairs) hv.2

/-- The callback makes clean meanings of clean arguments. -/
def Keeps (r : Rule Value) : Prop :=
  ∀ ms m, (∀ k, Clean (arg ms k)) → r.meaning ms = .ok m → Clean (m.getD .undef)

theorem keeps_of_ok {r : Rule Value} {f : List (Option Value) → Value}
    (hr : r.meaning = fun ms => .ok (some (f ms)))
    (h : ∀ ms, (∀ k, Clean (arg ms k)) → Clean (f ms)) : Keeps r := by
  intro ms m harg hm
  rw [hr] at hm
  rw [← Except.ok.inj hm]
  exact h ms harg

theorem keeps_scalar {r : Rule Value} {s : String} (hr : r.meaning = scalarOf s)
    (hs : Quoteless s) : Keeps r :=
  keeps_of_ok (f := fun _ => .scalar s) hr fun _ _ => clean_scalar.mpr hs

theorem keeps_actions : ∀ r ∈ actions, Keeps r := by
  simp only [actions, List.forall_mem_cons, List.not_mem_nil, false_implies, implies_true,
    and_true]
  refine ⟨?_, ?_, ?_, ?_, ?_, ?_, ?_, ?_, ?_⟩ <;> exact keeps_scalar rfl (by decide)

theorem keeps_commands : ∀ r ∈ commands, Keeps r := by
  simp only [commands, List.forall_mem_cons, List.not_mem_nil, false_implies, implies_true,
    and_true]
  refine ⟨keeps_of_ok rfl fun ms harg => ?_, keeps_of_ok rfl fun ms harg => ?_,
    fun ms m harg hm => ?_, fun ms m harg hm => ?_⟩
  · exact clean_cons (by decide) (harg 1) (clean_single (by decide) (harg 0))
  · exact clean_cons (by decide) (harg 1) (clean_cons (by decide)
      (clean_reversedFields (harg 2)) (clean_single (by decide) (harg 0)))
  · exact clean_withPairsOf (clean_single (by decide) (harg 1)) (harg 0) hm
  · have hlist := clean_insertList (clean_arguments "-and" "=" _ (harg 1)) clean_nil
    exact clean_withPairsOf (clean_single (by decide) hlist) (harg 0) hm

theorem keeps_objects : ∀ r ∈ objects, Keeps r := by
  have hwords : ∀ w ∈ objectWords, Quoteless w := by decide
  simp only [objects, List.forall_mem_append, List.forall_mem_map, List.forall_mem_cons,
    List.not_mem_nil, false_implies, implies_true, and_true]
  refine ⟨fun w hw => keeps_scalar rfl (hwords w hw), keeps_of_ok rfl fun ms harg => ?_,
    keeps_of_ok rfl fun ms harg => ?_, keeps_of_ok rfl fun ms harg => ?_⟩
  · exact clean_cons (by decide) (harg 0) (clean_single (by decide) (harg 1))
  · exact clean_cons (by decide) (harg 0) (clean_single (by decide)
      (clean_single (by decide) (clean_fieldArray (harg 1))))
  · exact clean_single (by decide) (harg 0)

theorem keeps_operators : ∀ r ∈ operators, Keeps r := by
  simp only [operators, List.forall_mem_cons, List.not_mem_nil, false_implies, implies_true,
    and_true]
  refine ⟨?_, ?_, ?_, ?_, ?_, ?_, ?_, ?_, ?_, ?_, ?_, ?_, ?_, ?_, ?_⟩ <;>
    exact keeps_scalar rfl (by decide)

theorem keeps_items : ∀ r ∈ items, Keeps r := by
  simp only [items, List.forall_mem_cons, List.not_mem_nil, false_implies, implies_true,
    and_true]
  refine ⟨keeps_of_ok rfl fun ms harg => harg 0, keeps_of_ok rfl fun ms harg => ?_,
    fun ms m harg hm => ?_, keeps_of_ok rfl fun ms harg => ?_, fun ms m harg hm => ?_,
    keeps_of_ok rfl fun ms harg => harg 1, keeps_of_ok rfl fun ms harg => ?_,
    keeps_of_ok rfl fun ms harg => harg 1, keeps_of_ok rfl fun ms harg => ?_⟩
  · exact clean_keyValue (harg 0) (harg 1) (harg 2)
  · simp only [bind, Except.bind, pure, Except.pure] at hm
    split at hm
    · cases hm
    · rename_i list hlist
      rw [← Except.ok.inj hm]
      exact clean_single (quoteless_keyText (harg 0))
        (clean_array.mpr (clean_spreadRefs (clean_asArray (harg 1)) hlist))
  · exact clean_cons (by decide) (harg 0)
      (clean_single (by decide) (clean_array.mpr (clean_asArray (harg 1))))
  · exact clean_coordinate (harg 0) (harg 1) hm
  · exact clean_fieldArray (harg 1)
  · exact clean_single (quoteless_keyText (harg 1))
      (clean_array.mpr (by simpa using ⟨harg 0, harg 2⟩))

theorem keeps_orders : ∀ r ∈ orders, Keeps r := by
  simp only [orders, List.forall_mem_cons, List.not_mem_nil, false_implies, implies_true,
    and_true]
  refine ⟨keeps_scalar rfl (by decide), keeps_scalar rfl (by decide),
    keeps_of_ok rfl fun ms harg => ?_, keeps_of_ok rfl fun ms harg => ?_⟩
  · exact clean_single (by decide) (clean_reversedFields (harg 1))
  · exact clean_cons (by decide) (harg 1)
      (clean_single (by decide) (clean_reversedFields (harg 2)))

theorem keeps_update {r : Rule Value} {f : List (Option Value) → List (String × Value)}
    (hr : r.meaning = fun ms => update (arg ms 0) (f ms))
    (h : ∀ ms, (∀ k, Clean (arg ms k)) → Clean (.hash (f ms))) : Keeps r := by
  refine keeps_of_ok hr fun ms harg => ?_
  exact clean_cons (by decide) (clean_scalar.mpr (by decide)) (clean_cons (by decide) (harg 0)
    (clean_single (by decide) (h ms harg)))

theorem keeps_roots : ∀ r ∈ roots, Keeps r := by
  have hchange : ∀ {changes change : String} {v : Value}, Quoteless changes →
      Quoteless change → Clean v →
      Clean (.hash [(changes, .hash [(change, fieldArray v)])]) := fun hchanges hchange hv =>
    clean_single hchanges (clean_single hchange (clean_fieldArray hv))
  simp only [roots, List.forall_mem_cons, List.not_mem_nil, false_implies, implies_true,
    and_true]
  refine ⟨keeps_of_ok rfl fun ms harg => harg 0, keeps_update rfl fun ms harg => ?_,
    keeps_update rfl fun ms harg => ?_,
    keeps_update rfl fun ms harg => hchange (by decide) (by decide) (harg 2),
    keeps_update rfl fun ms harg => hchange (by decide) (by decide) (harg 2),
    keeps_update rfl fun ms harg => hchange (by decide) (by decide) (harg 3),
    keeps_update rfl fun ms harg => hchange (by decide) (by decide) (harg 3),
    keeps_update rfl fun ms harg => hchange (by decide) (by decide) (harg 3),
    keeps_update rfl fun ms harg => hchange (by decide) (by decide) (harg 3),
    keeps_of_ok rfl fun ms harg => ?_, keeps_of_ok rfl fun ms harg => ?_,
    keeps_of_ok rfl fun ms harg => ?_, keeps_of_ok rfl fun ms harg => ?_⟩
  · exact clean_single (by decide) (clean_scalar.mpr (by decide))
  · exact clean_single (by decide) (clean_scalar.mpr (by decide))
  · exact clean_cons (by decide) (clean_scalar.mpr (by decide)) (clean_cons (by decide) (harg 0)
      (clean_single (by decide) (clean_single (by decide) (harg 2))))
  · exact clean_cons (by decide) (clean_scalar.mpr (by decide)) (clean_cons (by decide) (harg 0)
      (clean_single (by decide) (clean_single (by decide) (harg 2))))
  · exact clean_cons (by decide) (clean_scalar.mpr (by decide)) (clean_cons (by decide) (harg 0)
      (clean_single (by decide) (clean_single (by decide) (harg 2))))
  · exact clean_cons (by decide) (clean_scalar.mpr (by decide))
      (clean_single (by decide) (harg 0))

theorem keeps_of_mem {r : Rule Value} (h : r ∈ admin.rules) : Keeps r := by
  have hwords : ∀ w ∈ freeWords, Quoteless w := by decide
  have hfree : ∀ r ∈ freeWords.map freeWord, Keeps r :=
    List.forall_mem_map.mpr fun w hw => keeps_scalar rfl (hwords w hw)
  revert r
  change ∀ r ∈ rules, Keeps r
  simp only [rules, List.forall_mem_append]
  exact ⟨⟨⟨⟨⟨⟨⟨hfree, keeps_actions⟩, keeps_commands⟩, keeps_objects⟩, keeps_operators⟩,
    keeps_items⟩, keeps_orders⟩, keeps_roots⟩

theorem clean_arg {ms : List (Option Value)} (h : ∀ m ∈ ms, Clean (m.getD .undef)) (k : ℕ) :
    Clean (arg ms k) := by
  unfold arg
  cases hk : ms[k]? with
  | none => exact clean_undef
  | some m => exact h m (List.mem_of_getElem? hk)

/-- The quotes of a meaning come from the tokens. -/
theorem clean_analyse {forms : List String} (hforms : ∀ form ∈ forms, Quoteless form)
    (t : Tree) : ∀ a m, t.analyse admin forms = some a → a.meaning = .ok m →
      Clean (m.getD .undef) := by
  induction t using Tree.induct with
  | word k l =>
    intro a m ha hm
    obtain ⟨form, label, hform, -, rfl⟩ := analyse_word.mp ha
    rw [← Except.ok.inj hm]
    exact clean_scalar.mpr (hforms form (List.mem_of_getElem? hform))
  | phrase i ds ih =>
    intro a m ha hm
    obtain ⟨r, σ, ms, hr, hall, rfl⟩ := analyse_phrase.mp ha
    cases ms with
    | error e => cases hm
    | ok vs =>
      refine keeps_of_mem (List.mem_of_getElem? hr) vs m (clean_arg fun w hw => ?_) hm
      obtain ⟨d, hd, b, hb, hbm⟩ := meaning_of_mem_arguments hall w hw
      exact ih d hd b w hb hbm

end Characters

end Qvd.AdminMeanings
