import Qvd.ParseTrees

/-!
Tables of what can be derived from the spans of a token list, for any grammar.
A row lists what a tree over its span can be at its top, or leaves it open; a table is closed
if whatever a production can make of its rows is in the row of the whole. A closed table
covers all trees, and says how their tops divide their spans.
-/
namespace Qvd.SpanTables

open ChartParser ParseTrees

/-- The top of a tree: a token under a label, or a production. -/
inductive Head
  | word (label : Label)
  | phrase (rule : ℕ)
deriving DecidableEq, Repr

/-- What the trees over a span can be at their tops. -/
abbrev Row := Option (List Head)

def Row.Allows (row : Row) (h : Head) : Prop :=
  ∀ heads, row = some heads → h ∈ heads

instance (row : Row) (h : Head) : Decidable (row.Allows h) :=
  match row with
  | none => isTrue fun _ heq => nomatch heq
  | some heads =>
    if hmem : h ∈ heads then isTrue fun _ heq => Option.some.inj heq ▸ hmem
    else isFalse fun hall => hmem (hall heads rfl)

/-- Rows by the first token and the number of tokens. -/
abbrev Table := ℕ → ℕ → Row

section Tables

variable {M R : Type} (g : Grammar M R) (table : Table) (forms : List String)

def Head.label : Head → Label
  | .word label => label
  | .phrase i => ((g.rules[i]?).map Rule.leftSide).getD []

/-- The label does not rule the constituent out. -/
def Fits (target : Label) (h : Head) : Bool :=
  !clash target (h.label g)

def Row.possible (row : Row) (target : Label) : Bool :=
  match row with
  | none => true
  | some heads => heads.any (Fits g target)

/-- How the daughters of a production can divide a span, by their lengths. -/
def readings : List Label → ℕ → ℕ → List (List ℕ)
  | [], _, 0 => [[]]
  | [], _, _ + 1 => []
  | f :: fs, first, count =>
    (List.range count).flatMap fun k =>
      ((readings fs (first + (k + 1)) (count - (k + 1))).filter fun _ =>
        (table first (k + 1)).possible g f).map ((k + 1) :: ·)

/-- The labels of the tokens are in the rows. -/
def CoversWords : Prop :=
  ∀ k form label, forms[k]? = some form → label ∈ g.labelsForString form →
    (table k 1).Allows (.word label)

/-- Whatever the grammar can make of the rows of parts is in the row of the whole. -/
def Closed (size : ℕ) : Prop :=
  ∀ p ∈ g.rules.zipIdx, ∀ first ∈ List.range size, ∀ count ∈ List.range (size - first),
    (table first (count + 1)).Allows (.phrase p.2) ∨
      readings g table p.1.rightSide first (count + 1) = []

instance (size : ℕ) : Decidable (Closed g table size) :=
  inferInstanceAs (Decidable (∀ p ∈ g.rules.zipIdx, ∀ first ∈ List.range size,
    ∀ count ∈ List.range (size - first), (table first (count + 1)).Allows (.phrase p.2) ∨
      readings g table p.1.rightSide first (count + 1) = []))

/-- A tree has its top. -/
def HasHead : Tree → Head → Prop
  | .word k l, .word label =>
    ∃ form, forms[k]? = some form ∧ (g.labelsForString form)[l]? = some label
  | .phrase i _, .phrase j => i = j
  | _, _ => False

/-- A tree over a span, the top of which the table allows and the label does not rule out. -/
structure Constituent (target : Label) (t : Tree) (first count : ℕ) : Prop where
  spans : t.Spans first count
  analysed : ∃ a, t.analyse g forms = some a
  head : ∃ h, HasHead g forms t h ∧ (table first count).Allows h ∧ Fits g target h = true

/-- Daughters that follow each other, under their labels and with their lengths. -/
def Pieces : List Label → List Tree → List ℕ → ℕ → Prop
  | [], [], [], _ => True
  | f :: fs, d :: ds, k :: ks, first =>
    Constituent g table forms f d first k ∧ Pieces fs ds ks (first + k)
  | _, _, _, _ => False

end Tables

/-! ### Constituents of a closed table -/

section Cover

variable {M R : Type} {g : Grammar M R} {table : Table} {forms : List String}

theorem ofVariables_analyseAll {fs : List Label} {ds : List Tree} {σ τ : Substitution}
    {ms : Except String (List (Option M))} (hσ : OfVariables σ)
    (h : analyseAll g forms fs ds σ = some (τ, ms)) : OfVariables τ := by
  induction fs generalizing ds σ ms with
  | nil =>
    obtain rfl : ds = [] := List.length_eq_zero_iff.mp (analyseAll_length h).symm
    simp only [analyseAll_nil, Option.some.injEq, Prod.mk.injEq] at h
    exact h.1 ▸ hσ
  | cons f fs ih =>
    cases ds with
    | nil => simp [analyseAll] at h
    | cons d ds =>
      obtain ⟨a, σ', ms', -, hu, hall, -⟩ := analyseAll_cons.mp h
      exact ih (ofVariables_unifyPairs hσ hu) hall

/-- A constituent binds nothing but variables. -/
theorem ofVariables_analyse {t : Tree} {a : Analysis M} (h : t.analyse g forms = some a) :
    OfVariables a.substitution := by
  cases t with
  | word k l =>
    obtain ⟨form, label, -, -, rfl⟩ := analyse_word.mp h
    exact ofVariables_new
  | phrase i ds =>
    obtain ⟨r, σ, ms, -, hall, rfl⟩ := analyse_phrase.mp h
    exact ofVariables_analyseAll ofVariables_new hall

theorem exists_hasHead {t : Tree} {a : Analysis M} (h : t.analyse g forms = some a) :
    ∃ top, HasHead g forms t top ∧ a.label = top.label g := by
  cases t with
  | word k l =>
    obtain ⟨form, label, hform, hlabel, rfl⟩ := analyse_word.mp h
    exact ⟨.word label, ⟨form, hform, hlabel⟩, rfl⟩
  | phrase i ds =>
    obtain ⟨r, σ, ms, hr, -, rfl⟩ := analyse_phrase.mp h
    refine ⟨.phrase i, rfl, ?_⟩
    simp only [Head.label, hr, Option.map_some, Option.getD_some]

theorem hasHead_unique {t : Tree} {top top' : Head} (h : HasHead g forms t top)
    (h' : HasHead g forms t top') : top = top' := by
  cases t <;> cases top <;> cases top' <;> simp only [HasHead] at h h'
  · obtain ⟨form, hform, hlabel⟩ := h
    obtain ⟨form', hform', hlabel'⟩ := h'
    obtain rfl := Option.some.inj (hform.symm.trans hform')
    rw [Option.some.inj (hlabel.symm.trans hlabel')]
  · rw [← h, ← h']

/-- What has matched a label fits it. -/
theorem fits_of_unify {target : Label} {t : Tree} {a : Analysis M} {σ τ : Substitution}
    {top : Head} (ha : t.analyse g forms = some a) (hσ : OfVariables σ)
    (hu : unify target a.label σ a.substitution = some τ) (htop : a.label = top.label g) :
    Fits g target top = true := by
  rw [Fits, Bool.not_eq_true', ← htop, Bool.eq_false_iff]
  intro hclash
  rw [unify, unify_eq_none_of_clash hσ (ofVariables_analyse ha) hclash] at hu
  cases hu

theorem lt_of_mem_yield {t : Tree} : ∀ {a}, t.analyse g forms = some a →
    ∀ k ∈ t.yield, k < forms.length := by
  induction t using Tree.induct with
  | word k l =>
    intro a ha j hj
    obtain ⟨form, -, hform, -⟩ := analyse_word.mp ha
    rw [yield_word, List.mem_singleton] at hj
    exact hj ▸ (List.getElem?_eq_some_iff.mp hform).1
  | phrase i ds ih =>
    intro a ha
    obtain ⟨r, σ, ms, -, hall, -⟩ := analyse_phrase.mp ha
    rw [yield_phrase]
    intro k hk
    obtain ⟨d, hd, hkd⟩ := mem_yieldAll.mp hk
    obtain ⟨b, hb⟩ := analyse_of_analyseAll hall d hd
    exact ih d hd hb k hkd

/-- The statement of the cover, for one tree. -/
def Covered (g : Grammar M R) (table : Table) (forms : List String) (t : Tree) : Prop :=
  ∀ a first count, t.analyse g forms = some a → t.Spans first count →
    0 < count ∧ ∃ top, HasHead g forms t top ∧ (table first count).Allows top

/-- The daughters of a phrase are pieces of its span, with one of the readings. -/
theorem exists_pieces {fs : List Label} {ds : List Tree} {σ τ : Substitution}
    {ms : Except String (List (Option M))} {first count : ℕ} (hσ : OfVariables σ)
    (hall : analyseAll g forms fs ds σ = some (τ, ms))
    (hspan : yieldAll ds = List.range' first count)
    (hds : ∀ d ∈ ds, Covered g table forms d) :
    ∃ ks ∈ readings g table fs first count, Pieces g table forms fs ds ks first := by
  induction fs generalizing ds σ ms first count with
  | nil =>
    obtain rfl : ds = [] := List.length_eq_zero_iff.mp (analyseAll_length hall).symm
    obtain rfl : count = 0 := by
      have hlen := congrArg List.length hspan
      simpa using hlen.symm
    exact ⟨[], List.mem_singleton_self _, trivial⟩
  | cons f fs ih =>
    cases ds with
    | nil => simp [analyseAll] at hall
    | cons d ds =>
      obtain ⟨a, σ', ms', ha, hu, hrest, -⟩ := analyseAll_cons.mp hall
      rw [yieldAll_cons] at hspan
      obtain ⟨k, hk, hd, hds'⟩ := List.range'_eq_append_iff.mp hspan.symm
      rw [Nat.mul_one] at hds'
      obtain ⟨hpos, top, htop, hallows⟩ := hds d List.mem_cons_self a first k ha hd
      obtain ⟨top', htop', hlabel⟩ := exists_hasHead ha
      obtain rfl := hasHead_unique htop htop'
      have hfits := fits_of_unify ha hσ hu hlabel
      obtain ⟨ks, hks, hpieces⟩ := ih (ofVariables_unifyPairs hσ hu) hrest hds'
        fun e he => hds e (List.mem_cons_of_mem _ he)
      have hcon : Constituent g table forms f d first k := ⟨hd, ⟨a, ha⟩, top, htop, hallows, hfits⟩
      refine ⟨k :: ks, List.mem_flatMap.mpr ⟨k - 1, List.mem_range.mpr (by omega), ?_⟩,
        hcon, hpieces⟩
      have hpossible : (table first k).possible g f = true := by
        unfold Row.possible
        cases hrow : table first k with
        | none => rfl
        | some heads => exact List.any_eq_true.mpr ⟨top, hallows heads hrow, hfits⟩
      rw [show k - 1 + 1 = k by omega]
      exact List.mem_map_of_mem (List.mem_filter.mpr ⟨hks, hpossible⟩)

/-- A closed table covers all trees. -/
theorem covered (hg : Accepted g) (hw : CoversWords g table forms)
    (hc : Closed g table forms.length) (t : Tree) : Covered g table forms t := by
  induction t using Tree.induct with
  | word k l =>
    intro a first count ha hspan
    obtain ⟨form, label, hform, hlabel, rfl⟩ := analyse_word.mp ha
    rw [Tree.Spans, yield_word] at hspan
    obtain rfl : count = 1 := by simpa using (congrArg List.length hspan).symm
    obtain rfl : k = first := by simpa using hspan
    exact ⟨Nat.one_pos, .word label, ⟨form, hform, hlabel⟩,
      hw k form label hform (List.mem_of_getElem? hlabel)⟩
  | phrase i ds ih =>
    intro a first count ha hspan
    obtain ⟨r, σ, ms, hr, hall, -⟩ := analyse_phrase.mp ha
    have hbound := lt_of_mem_yield ha
    rw [Tree.Spans] at hspan
    rw [hspan] at hbound
    rw [yield_phrase] at hspan
    obtain ⟨ks, hks, -⟩ : ∃ ks ∈ readings g table r.rightSide first count,
        Pieces g table forms r.rightSide ds ks first :=
      exists_pieces ofVariables_new hall hspan ih
    cases count with
    | zero =>
      -- a production has daughters, and each of them a token
      have hne := hg.daughters r (List.mem_of_getElem? hr)
      cases hright : r.rightSide with
      | nil => exact absurd hright hne
      | cons f fs =>
        rw [hright, readings] at hks
        cases hks
    | succ count =>
      have hlast := hbound (first + count) (by simp)
      refine ⟨Nat.succ_pos _, .phrase i, rfl, ?_⟩
      refine (hc (r, i) (List.mem_zipIdx_iff_getElem?.mpr hr) first (List.mem_range.mpr ?_)
        count (List.mem_range.mpr ?_)).resolve_right fun hnone => ?_
      · omega
      · omega
      · dsimp only at hnone
        rw [hnone] at hks
        cases hks

end Cover

/-! ### Reading a tree off its table -/

section Reading

variable {M R : Type} {g : Grammar M R} {table other : Table} {forms : List String}
  {target : Label} {t : Tree} {first count : ℕ}

/-- The tops in a row that a label admits. -/
def fitting (g : Grammar M R) (row : Row) (target : Label) : Row :=
  row.map (List.filter (Fits g target))

/-- One production fits, and its span has one division. -/
def Reads (g : Grammar M R) (table : Table) (target : Label) (first count i : ℕ)
    (ks : List ℕ) : Prop :=
  fitting g (table first count) target = some [.phrase i] ∧
    (g.rules[i]?).map (fun r => readings g table r.rightSide first count) = some [ks]

instance (target : Label) (first count i : ℕ) (ks : List ℕ) :
    Decidable (Reads g table target first count i ks) :=
  inferInstanceAs (Decidable (_ ∧ _))

/-- One label of a token fits. -/
def ReadsWord (g : Grammar M R) (table : Table) (target : Label) (k : ℕ) (label : Label) :
    Prop :=
  fitting g (table k 1) target = some [.word label]

instance (target : Label) (k : ℕ) (label : Label) :
    Decidable (ReadsWord g table target k label) :=
  inferInstanceAs (Decidable (_ = _))

@[simp] theorem pieces_nil {ds : List Tree} :
    Pieces g table forms [] ds [] first ↔ ds = [] := by
  cases ds <;> simp [Pieces]

@[simp] theorem pieces_cons {f : Label} {fs : List Label} {ds : List Tree} {k : ℕ}
    {ks : List ℕ} :
    Pieces g table forms (f :: fs) ds (k :: ks) first ↔
      ∃ d es, ds = d :: es ∧ Constituent g table forms f d first k ∧
        Pieces g table forms fs es ks (first + k) := by
  constructor
  · intro h
    cases ds with
    | nil => exact h.elim
    | cons d es => exact ⟨d, es, rfl, h⟩
  · rintro ⟨d, es, rfl, h⟩
    exact h

theorem spans_of_pieces {fs : List Label} {ds : List Tree} {ks : List ℕ}
    (h : Pieces g table forms fs ds ks first) : ∀ d ∈ ds, ∃ k n, d.Spans k n := by
  induction fs generalizing ds ks first with
  | nil => cases ds <;> cases ks <;> simp_all [Pieces]
  | cons f fs ih =>
    cases ds <;> cases ks <;> simp only [Pieces] at h
    exact List.forall_mem_cons.mpr ⟨⟨_, _, h.1.spans⟩, ih h.2⟩

/-- A tree that has matched a label, under a closed table. -/
theorem Constituent.of_unify (hg : Accepted g) (hw : CoversWords g table forms)
    (hc : Closed g table forms.length) {a : Analysis M} {σ τ : Substitution}
    (hspan : t.Spans first count) (ha : t.analyse g forms = some a) (hσ : OfVariables σ)
    (hu : unify target a.label σ a.substitution = some τ) :
    Constituent g table forms target t first count := by
  obtain ⟨-, top, htop, hallows⟩ := covered hg hw hc t a first count ha hspan
  obtain ⟨top', htop', hlabel⟩ := exists_hasHead ha
  obtain rfl := hasHead_unique htop htop'
  exact ⟨hspan, ⟨a, ha⟩, top, htop, hallows, fits_of_unify ha hσ hu hlabel⟩

theorem Constituent.of_derivation (hg : Accepted g) (hw : CoversWords g table forms)
    (hc : Closed g table forms.length) (h : IsDerivation g forms t) :
    Constituent g table forms g.root t 0 forms.length := by
  obtain ⟨hspan, a, ha, hroot⟩ := h
  obtain ⟨τ, hu⟩ := Option.isSome_iff_exists.mp hroot
  exact .of_unify hg hw hc hspan ha ofVariables_new hu

/-- Another closed table holds of the same constituents. -/
theorem Constituent.transfer (hg : Accepted g) (hw : CoversWords g other forms)
    (hc : Closed g other forms.length) (h : Constituent g table forms target t first count) :
    Constituent g other forms target t first count := by
  obtain ⟨hspan, ⟨a, ha⟩, top, htop, -, hfits⟩ := h
  obtain ⟨-, top', htop', hallows⟩ := covered hg hw hc t a first count ha hspan
  obtain rfl := hasHead_unique htop htop'
  exact ⟨hspan, ⟨a, ha⟩, top, htop, hallows, hfits⟩

/-- The top of a constituent is one of those that fit. -/
theorem Constituent.exists_fitting (h : Constituent g table forms target t first count)
    {heads : List Head} (hrow : fitting g (table first count) target = some heads) :
    ∃ top ∈ heads, HasHead g forms t top := by
  obtain ⟨-, -, top, htop, hallows, hfits⟩ := h
  obtain ⟨all, hall, rfl⟩ := Option.map_eq_some_iff.mp hrow
  exact ⟨top, List.mem_filter.mpr ⟨hallows all hall, hfits⟩, htop⟩

/-- A phrase of a closed table is made of pieces. -/
theorem Constituent.pieces (hg : Accepted g) (hw : CoversWords g table forms)
    (hc : Closed g table forms.length) {i : ℕ} {ds : List Tree}
    (h : Constituent g table forms target (.phrase i ds) first count) {fs : List Label}
    (hright : (g.rules[i]?).map Rule.rightSide = some fs) :
    ∃ ks ∈ readings g table fs first count, Pieces g table forms fs ds ks first := by
  obtain ⟨hspan, ⟨a, ha⟩, -⟩ := h
  obtain ⟨r, σ, ms, hr, hall, -⟩ := analyse_phrase.mp ha
  rw [hr, Option.map_some, Option.some.injEq] at hright
  rw [Tree.Spans, yield_phrase] at hspan
  exact exists_pieces ofVariables_new (hright ▸ hall) hspan fun d _ => covered hg hw hc d

/-- A unary production over one token. -/
theorem Constituent.daughter (hg : Accepted g) (hw : CoversWords g table forms)
    (hc : Closed g table forms.length) {i : ℕ} {ds : List Tree} {f : Label}
    (h : Constituent g table forms target (.phrase i ds) first 1)
    (hright : (g.rules[i]?).map Rule.rightSide = some [f]) :
    ∃ d, ds = [d] ∧ Constituent g table forms f d first 1 := by
  obtain ⟨ks, hks, hpieces⟩ := h.pieces hg hw hc hright
  obtain rfl : ks = [1] := by
    simp only [readings, List.range_one, List.flatMap_singleton, List.mem_map,
      List.mem_filter] at hks
    obtain ⟨ks', ⟨hnil, -⟩, rfl⟩ := hks
    rw [List.mem_singleton.mp hnil]
  obtain ⟨d, es, rfl, hd, hes⟩ := pieces_cons.mp hpieces
  obtain rfl := pieces_nil.mp hes
  exact ⟨d, rfl, hd⟩

/-- Where one production fits and its span has one division, the tree is that phrase. -/
theorem Constituent.exists_phrase (hg : Accepted g) (hw : CoversWords g table forms)
    (hc : Closed g table forms.length) {i : ℕ} {fs : List Label} {ks : List ℕ}
    (h : Constituent g table forms target t first count)
    (hreads : Reads g table target first count i ks)
    (hright : (g.rules[i]?).map Rule.rightSide = some fs) :
    ∃ ds, t = .phrase i ds ∧ Pieces g table forms fs ds ks first := by
  obtain ⟨top, hmem, htop⟩ := h.exists_fitting hreads.1
  obtain rfl := List.mem_singleton.mp hmem
  cases t with
  | word k l => exact htop.elim
  | phrase j ds =>
    obtain rfl : j = i := htop
    obtain ⟨ks', hks', hpieces⟩ := h.pieces hg hw hc hright
    obtain ⟨r, hr, rfl⟩ := Option.map_eq_some_iff.mp hright
    have hread := hreads.2
    rw [hr, Option.map_some, Option.some.injEq] at hread
    rw [hread, List.mem_singleton] at hks'
    exact ⟨ds, rfl, hks' ▸ hpieces⟩

/-- A top that is a token: the token of the span, under the label. -/
theorem Constituent.word (h : Constituent g table forms target t first count) {label : Label}
    (htop : HasHead g forms t (.word label)) :
    ∃ l form, t = .word first l ∧ forms[first]? = some form ∧
      (g.labelsForString form)[l]? = some label := by
  cases t with
  | phrase i ds => exact htop.elim
  | word k l =>
    obtain ⟨form, hform, hlabel⟩ := htop
    have hspan := h.spans
    rw [Tree.Spans, yield_word] at hspan
    obtain rfl : count = 1 := by simpa using (congrArg List.length hspan).symm
    obtain rfl : k = first := by simpa using hspan
    exact ⟨l, form, rfl, hform, hlabel⟩

end Reading

/-! ### One token -/

section Leaves

variable {M R : Type} {g : Grammar M R} {forms : List String}

/-- The row of one token, and nothing about the others. -/
def leafTable (k : ℕ) (row : List Head) : Table := fun first count =>
  if first = k ∧ count = 1 then some row else none

/-- The row has whatever unary productions make of it. -/
def LeafClosed (g : Grammar M R) (row : List Head) : Prop :=
  ∀ p ∈ g.rules.zipIdx, p.1.rightSide.length ≠ 1 ∨ .phrase p.2 ∈ row ∨
    row.any (Fits g p.1.firstDaughter) = false

instance (row : List Head) : Decidable (LeafClosed g row) :=
  inferInstanceAs (Decidable (∀ p ∈ g.rules.zipIdx, p.1.rightSide.length ≠ 1 ∨
    .phrase p.2 ∈ row ∨ row.any (Fits g p.1.firstDaughter) = false))

theorem closed_leafTable (hg : Accepted g) {k size : ℕ} {row : List Head}
    (h : LeafClosed g row) : Closed g (leafTable k row) size := by
  intro p hp first _ count _
  by_cases hplace : first = k ∧ count = 0
  · obtain ⟨rfl, rfl⟩ := hplace
    have hrow : leafTable first row first 1 = some row := if_pos ⟨rfl, rfl⟩
    rcases h p hp with hlen | hmem | hnone
    · refine .inr ?_
      cases hright : p.1.rightSide with
      | nil => exact absurd hright (hg.daughters _ (List.fst_mem_of_mem_zipIdx hp))
      | cons f fs =>
        cases fs with
        | nil => exact absurd (by rw [hright]; rfl) hlen
        | cons e es => simp [readings]
    · exact .inl fun heads hheads => Option.some.inj (hrow.symm.trans hheads) ▸ hmem
    · refine .inr ?_
      cases hright : p.1.rightSide with
      | nil => exact absurd hright (hg.daughters _ (List.fst_mem_of_mem_zipIdx hp))
      | cons f fs =>
        have hf : row.any (Fits g f) = false := by
          rw [← hnone, Rule.firstDaughter, hright]
          rfl
        simp [readings, hrow, Row.possible, hf]
  · refine .inl fun heads hheads => ?_
    rw [leafTable, if_neg (by omega)] at hheads
    cases hheads

@[simp] theorem leafTable_self (k : ℕ) (row : List Head) : leafTable k row k 1 = some row :=
  if_pos ⟨rfl, rfl⟩

theorem coversWords_leafTable {k : ℕ} {row : List Head} {form : String}
    (hform : forms[k]? = some form)
    (h : ∀ label ∈ g.labelsForString form, .word label ∈ row) :
    CoversWords g (leafTable k row) forms := by
  intro j form' label hform' hlabel heads hheads
  rw [leafTable] at hheads
  split at hheads
  · rename_i hplace
    obtain rfl := hplace.1
    obtain rfl := Option.some.inj (hform.symm.trans hform')
    exact Option.some.inj hheads ▸ h label hlabel
  · cases hheads

end Leaves

/-! ### Trees without bindings -/

section Bare

variable {M R : Type} {g : Grammar M R} {table : Table} {forms : List String}

/-- Equal constants wherever both labels have one, and a variable of the source elsewhere. -/
def Agrees (target source : Label) : Bool :=
  target.all fun p =>
    match source.lookup p.1 with
    | none => true
    | some v => isVar v || (!isVar p.2 && p.2 == v)

theorem unify_of_agrees {target source : Label} (h : Agrees target source = true) :
    unify target source Substitution.new Substitution.new = some Substitution.new := by
  have hnew : ∀ v, Substitution.new.subst v = v := fun _ => rfl
  suffices ∀ σ, unifyPairs source Substitution.new Substitution.new target σ = some σ from this _
  intro σ
  induction target with
  | nil => rfl
  | cons p target ih =>
    obtain ⟨key, tValue⟩ := p
    rw [Agrees, List.all_cons, Bool.and_eq_true] at h
    have hrest := ih h.2
    cases hl : source.lookup key with
    | none => simpa [unifyPairs, hl] using hrest
    | some sValue =>
      simp only [hl, Bool.or_eq_true, Bool.and_eq_true, Bool.not_eq_true', beq_iff_eq] at h
      rcases h.1 with hvar | ⟨htv, rfl⟩
      · simpa [unifyPairs, hl, hnew, hvar] using hrest
      · simpa [unifyPairs, hl, hnew, htv] using hrest

/-- The constituent of a tree, where no production has bound a variable. -/
def Bare (g : Grammar M R) (forms : List String) (t : Tree) (label : Label) (m : Option M) :
    Prop :=
  t.analyse g forms = some ⟨label, Substitution.new, .ok m⟩

/-- Daughters that agree with the labels of a right side. -/
inductive BareAll (g : Grammar M R) (forms : List String) :
    List Label → List Tree → List (Option M) → Prop
  | nil : BareAll g forms [] [] []
  | cons {f label : Label} {d : Tree} {v : Option M} {fs : List Label} {ds : List Tree}
      {vs : List (Option M)} : Bare g forms d label v → Agrees f label = true →
      BareAll g forms fs ds vs → BareAll g forms (f :: fs) (d :: ds) (v :: vs)

theorem bare_word {k l : ℕ} {form : String} {label : Label} (hform : forms[k]? = some form)
    (hlabel : (g.labelsForString form)[l]? = some label) :
    Bare g forms (.word k l) label (g.meaningForString form) :=
  analyse_word.mpr ⟨form, label, hform, hlabel, rfl⟩

theorem BareAll.analyseAll {fs : List Label} {ds : List Tree} {vs : List (Option M)}
    (h : BareAll g forms fs ds vs) :
    analyseAll g forms fs ds Substitution.new = some (Substitution.new, .ok vs) := by
  induction h with
  | nil => exact analyseAll_nil _
  | cons hd hagrees _ ih =>
    exact analyseAll_cons.mpr ⟨_, _, _, hd, unify_of_agrees hagrees, ih, rfl⟩

theorem bare_phrase {i : ℕ} {r : Rule M} {ds : List Tree} {vs : List (Option M)} {m : Option M}
    {label : Label} (hr : g.rules[i]? = some r) (hds : BareAll g forms r.rightSide ds vs)
    (hm : r.meaning vs = .ok m) (hlabel : r.leftSide = label) :
    Bare g forms (.phrase i ds) label m :=
  analyse_phrase.mpr ⟨r, _, _, hr, hds.analyseAll, by rw [← hm, ← hlabel]; rfl⟩

end Bare

/-! ### Callbacks -/

section Callbacks

variable {M R : Type} {g : Grammar M R} {table : Table} {forms : List String}

/-- No callback dies, if those in the table return whenever they are called. -/
theorem exists_meaning (hg : Accepted g) (hw : CoversWords g table forms)
    (hc : Closed g table forms.length)
    (hreturn : ∀ i ds first count r σ vs, (Tree.phrase i ds).Spans first count →
      (table first count).Allows (.phrase i) → g.rules[i]? = some r →
      analyseAll g forms r.rightSide ds Substitution.new = some (σ, .ok vs) →
      ∃ m, r.meaning vs = .ok m) (t : Tree) :
    ∀ a first count, t.Spans first count → t.analyse g forms = some a →
      ∃ m, a.meaning = .ok m := by
  induction t using Tree.induct with
  | word k l =>
    intro a first count _ ha
    obtain ⟨form, label, -, -, rfl⟩ := analyse_word.mp ha
    exact ⟨_, rfl⟩
  | phrase i ds ih =>
    intro a first count hspan ha
    obtain ⟨-, top, htop, hallows⟩ := covered hg hw hc _ a first count ha hspan
    obtain ⟨r, σ, ms, hr, hall, rfl⟩ := analyse_phrase.mp ha
    cases top with
    | word label => exact htop.elim
    | phrase j =>
      obtain rfl : i = j := htop
      obtain ⟨ks, -, hpieces⟩ := exists_pieces ofVariables_new hall
        (by rwa [Tree.Spans, yield_phrase] at hspan) fun d _ => covered hg hw hc d
      obtain ⟨vs, rfl⟩ := ok_of_analyseAll hall fun d hd b hb => by
        obtain ⟨k, n, hspan'⟩ := spans_of_pieces hpieces d hd
        exact ih d hd b k n hspan' hb
      exact hreturn i ds first count r σ vs hspan hallows hr hall

end Callbacks

end Qvd.SpanTables
