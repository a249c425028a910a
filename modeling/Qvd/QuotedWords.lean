import Qvd.AdminGrammar
import Qvd.SpanTables

/-!
Single words in the grammar of the administrator: which of them can be free values, the trees
over them, and the trees of a name with an equals sign and a value.
-/
namespace Qvd.QuotedWords

open AdminGrammar ChartParser ParseTrees SpanTables

/-! ### The words of the grammar -/

section Words

def wordHeads (words : List String) : List Head := words.map fun w => .word [("label", w)]

def phraseHeads (rules : List ℕ) : List Head := rules.map .phrase

/-- The known tags that are no values. -/
def boundWords : List String :=
  ["!", "!=", "(", ")", ",", ":", ";", "<", "<=", "=", ">", ">=", "CB", "CMD", "CP", "DIR",
    "IDOP", "ITEM", "LOP", "NOT", "OB", "OP", "ORDER", "QVD_OBJECT", "RANGE", "[", "]", "asc",
    "desc", "order", "~"]

/-- A word that the grammar does not know, or one that it also takes for a value. -/
def Free (s : String) : Prop := s ∉ knownTags rules ∨ s ∈ "UNKNOWN" :: freeWords

instance (s : String) : Decidable (Free s) :=
  inferInstanceAs (Decidable (s ∉ knownTags rules ∨ s ∈ "UNKNOWN" :: freeWords))

def tokenLabel (s : String) : Label :=
  if s ∈ knownTags rules then [("label", s)] else [("label", "UNKNOWN")]

theorem labelsForString_eq (s : String) : admin.labelsForString s = [tokenLabel s] := by
  change (if s ∈ knownTags rules then _ else _) = _
  rw [tokenLabel]
  split <;> rfl

/-- The known tags are the free words and the bound ones. -/
theorem known_words :
    (∀ s ∈ "UNKNOWN" :: freeWords ++ boundWords, s ∈ knownTags rules) ∧
    (∀ s ∈ knownTags rules, s ∈ "UNKNOWN" :: freeWords ++ boundWords) ∧
    ∀ s ∈ boundWords, s ∉ "UNKNOWN" :: freeWords := by
  decide +kernel

theorem tokenLabel_known {s : String} (h : s ∈ "UNKNOWN" :: freeWords ++ boundWords) :
    tokenLabel s = [("label", s)] :=
  if_pos (known_words.1 s h)

theorem tokenLabel_free {s : String} (h : s ∈ "UNKNOWN" :: freeWords) :
    tokenLabel s = [("label", s)] :=
  tokenLabel_known (List.mem_append_left _ h)

theorem tokenLabel_bound {s : String} (h : s ∈ boundWords) : tokenLabel s = [("label", s)] :=
  tokenLabel_known (List.mem_append_right _ h)

theorem bound_of_not_free {s : String} (h : ¬ Free s) : s ∈ boundWords := by
  rw [Free, not_or, not_not] at h
  exact (List.mem_append.mp (known_words.2.1 s h.1)).resolve_left h.2

theorem not_free_of_bound {s : String} (h : s ∈ boundWords) : ¬ Free s := by
  rintro (hunknown | hfree)
  · exact hunknown (known_words.1 s (List.mem_append_right _ h))
  · exact known_words.2.2 s h hfree

/-- The label of a token names it, or says that it is unknown. -/
theorem eq_of_tokenLabel {s w : String} (h : tokenLabel s = [("label", w)]) (hw : w ≠ "UNKNOWN") :
    s = w := by
  rw [tokenLabel] at h
  split at h
  · simpa using h
  · exact absurd (by simpa using h.symm) hw

end Words

/-! ### The trees of single tokens -/

section Single

variable {table : Table} {forms : List String} {t : Tree} {k : ℕ} {s : String} {target : Label}

def freeRow : List Head :=
  wordHeads ("UNKNOWN" :: freeWords) ++
    phraseHeads (List.range 37 ++ List.range' 41 12 ++ [55, 71])

def boundRow : List Head :=
  wordHeads boundWords ++ phraseHeads (List.range' 55 16 ++ [80, 81, 84])

def objectRow : List Head :=
  wordHeads objectWords ++ phraseHeads (List.range' 16 12 ++ List.range' 41 12 ++ [55, 71])

/-- A free value as an item. -/
def value : Label := itemOf "0" ++ [("coordinated", "0")]

/-- The row of the free words, and what fits in it. -/
theorem freeRow_spec : LeafClosed admin freeRow ∧
    (∀ w ∈ freeWords,
      fitting admin (some freeRow) (saturated w) = some [.word [("label", w)]]) ∧
    fitting admin (some freeRow) (saturated "UNKNOWN") =
      some (.word [("label", "UNKNOWN")] :: phraseHeads (List.range 28)) ∧
    fitting admin (some freeRow) value = some [.phrase 71] ∧
    fitting admin (some freeRow) (unsaturated "QVD_OBJECT") =
      some (phraseHeads (List.range' 41 12)) := by
  decide +kernel

theorem boundRow_spec : LeafClosed admin boundRow ∧
    fitting admin (some boundRow) (saturated "UNKNOWN") = some [] ∧
    fitting admin (some boundRow) value = some [.word [("label", "ITEM")]] := by
  decide +kernel

theorem Free.word_mem (h : Free s) : .word (tokenLabel s) ∈ freeRow := by
  refine List.mem_append_left _ (List.mem_map.mpr ?_)
  rcases h with hunknown | hmem
  · exact ⟨"UNKNOWN", List.mem_cons_self, by rw [tokenLabel, if_neg hunknown]⟩
  · exact ⟨s, hmem, by rw [tokenLabel_free hmem]⟩

theorem word_mem_boundRow (h : ¬ Free s) : .word (tokenLabel s) ∈ boundRow := by
  have hbound := bound_of_not_free h
  rw [tokenLabel_bound hbound]
  exact List.mem_append_left _ (List.mem_map.mpr ⟨s, hbound, rfl⟩)

/-- A constituent of one token, under the row of the token. -/
theorem leaf_constituent (hform : forms[k]? = some s) {row : List Head}
    (hclosed : LeafClosed admin row) (hword : .word (tokenLabel s) ∈ row)
    (h : Constituent admin table forms target t k 1) :
    Constituent admin (leafTable k row) forms target t k 1 := by
  refine h.transfer admin_accepted (coversWords_leafTable hform ?_)
    (closed_leafTable admin_accepted hclosed)
  rw [labelsForString_eq, List.forall_mem_singleton]
  exact hword

/-- The top of a constituent of one token. -/
theorem leaf_top (hform : forms[k]? = some s) {row : List Head}
    (hclosed : LeafClosed admin row) (hword : .word (tokenLabel s) ∈ row)
    (h : Constituent admin table forms target t k 1) {heads : List Head}
    (hrow : fitting admin (some row) target = some heads) :
    ∃ top ∈ heads, HasHead admin forms t top :=
  (leaf_constituent hform hclosed hword h).exists_fitting (by rwa [leafTable_self])

theorem leaf_daughter (hform : forms[k]? = some s) {row : List Head}
    (hclosed : LeafClosed admin row) (hword : .word (tokenLabel s) ∈ row) {i : ℕ}
    {ds : List Tree} {f : Label} (h : Constituent admin table forms target (.phrase i ds) k 1)
    (hright : (admin.rules[i]?).map Rule.rightSide = some [f]) :
    ∃ d, ds = [d] ∧ Constituent admin (leafTable k row) forms f d k 1 := by
  refine (leaf_constituent hform hclosed hword h).daughter admin_accepted
    (coversWords_leafTable hform ?_) (closed_leafTable admin_accepted hclosed) hright
  rw [labelsForString_eq, List.forall_mem_singleton]
  exact hword

/-- A token stands under one label. -/
theorem word_of_hasHead {n : ℕ} (h : Constituent admin table forms target t k n) {label : Label}
    (htop : HasHead admin forms t (.word label)) :
    ∃ s, t = .word k 0 ∧ forms[k]? = some s ∧ tokenLabel s = label := by
  obtain ⟨l, s, rfl, hform, hlabel⟩ := h.word htop
  rw [labelsForString_eq] at hlabel
  cases l with
  | zero => exact ⟨s, rfl, hform, Option.some.inj hlabel⟩
  | succ l => cases hlabel

/-- A key word is read off its own token. -/
theorem keyWord_tree (hform : forms[k]? = some s) (hs : Free s) {w : String}
    (hw : w ∈ freeWords) (h : Constituent admin table forms (saturated w) t k 1) :
    s = w ∧ t = .word k 0 := by
  obtain ⟨top, hmem, htop⟩ := leaf_top hform freeRow_spec.1 hs.word_mem h
    (freeRow_spec.2.1 w hw)
  rw [List.mem_singleton.mp hmem] at htop
  obtain ⟨s', ht, hform', hlabel⟩ := word_of_hasHead h htop
  obtain rfl := Option.some.inj (hform.symm.trans hform')
  exact ⟨eq_of_tokenLabel hlabel (by rintro rfl; revert hw; decide), ht⟩

theorem freeWord_getElem? {i : ℕ} {w : String} (h : freeWords[i]? = some w) :
    admin.rules[i]? = some (freeWord w) := by
  have hlt : i < (freeWords.map freeWord).length := by
    rw [List.length_map]
    exact (List.getElem?_eq_some_iff.mp h).1
  change rules[i]? = _
  simp only [rules, List.append_assoc]
  rw [List.getElem?_append_left hlt, List.getElem?_map, h]
  rfl

/-- A token as a free value: by the production of its key word, or as it is. -/
def freeTree (k : ℕ) (s : String) : Tree :=
  if s ∈ freeWords then .phrase (freeWords.idxOf s) [.word k 0] else .word k 0

/-- A free value has one tree, and the other words have none. -/
theorem unknown_tree (hform : forms[k]? = some s)
    (h : Constituent admin table forms (saturated "UNKNOWN") t k 1) :
    Free s ∧ t = freeTree k s := by
  by_cases hs : Free s
  · refine ⟨hs, ?_⟩
    obtain ⟨top, hmem, htop⟩ := leaf_top hform freeRow_spec.1 hs.word_mem h
      freeRow_spec.2.2.1
    rcases List.mem_cons.mp hmem with rfl | hmem
    · obtain ⟨s', rfl, hform', hlabel⟩ := word_of_hasHead h htop
      obtain rfl := Option.some.inj (hform.symm.trans hform')
      refine (if_neg fun hfree => ?_).symm
      rw [tokenLabel_free (List.mem_cons_of_mem _ hfree)] at hlabel
      obtain rfl : s = "UNKNOWN" := by simpa using hlabel
      revert hfree
      decide
    · obtain ⟨i, hi, rfl⟩ := List.mem_map.mp hmem
      obtain ⟨w, hw⟩ : ∃ w, freeWords[i]? = some w :=
        ⟨_, List.getElem?_eq_getElem (List.mem_range.mp hi)⟩
      cases t with
      | word j l => exact htop.elim
      | phrase j ds =>
        obtain rfl : j = i := htop
        obtain ⟨d, rfl, hd⟩ := leaf_daughter hform freeRow_spec.1 hs.word_mem h
          (by rw [freeWord_getElem? hw]; rfl)
        obtain ⟨rfl, rfl⟩ := keyWord_tree hform hs (List.mem_of_getElem? hw) hd
        have hidx : freeWords.idxOf s = j := by
          obtain ⟨hlt, rfl⟩ := List.getElem?_eq_some_iff.mp hw
          exact List.Nodup.idxOf_getElem (by decide) j hlt
        rw [freeTree, if_pos (List.mem_of_getElem? hw), hidx]
  · obtain ⟨top, hmem, -⟩ := leaf_top hform boundRow_spec.1 (word_mem_boundRow hs) h
      boundRow_spec.2.1
    cases hmem

/-- A token as an item. -/
def itemTree (k : ℕ) (s : String) : Tree :=
  if s = "ITEM" then .word k 0 else .phrase 71 [freeTree k s]

/-- A free value has one tree as an item, and of the other words only the name of the
category. -/
theorem value_tree (hform : forms[k]? = some s)
    (h : Constituent admin table forms value t k 1) :
    (Free s ∨ s = "ITEM") ∧ t = itemTree k s := by
  by_cases hs : Free s
  · have hne : s ≠ "ITEM" := by
      rintro rfl
      exact not_free_of_bound (by decide) hs
    obtain ⟨top, hmem, htop⟩ := leaf_top hform freeRow_spec.1 hs.word_mem h
      freeRow_spec.2.2.2.1
    rw [List.mem_singleton.mp hmem] at htop
    cases t with
    | word j l => exact htop.elim
    | phrase j ds =>
      obtain rfl : j = 71 := htop
      obtain ⟨d, rfl, hd⟩ := leaf_daughter hform freeRow_spec.1 hs.word_mem h rfl
      obtain ⟨-, rfl⟩ := unknown_tree hform hd
      exact ⟨.inl hs, (if_neg hne).symm⟩
  · obtain ⟨top, hmem, htop⟩ := leaf_top hform boundRow_spec.1 (word_mem_boundRow hs) h
      boundRow_spec.2.2
    rw [List.mem_singleton.mp hmem] at htop
    obtain ⟨s', rfl, hform', hlabel⟩ := word_of_hasHead h htop
    obtain rfl := Option.some.inj (hform.symm.trans hform')
    obtain rfl := eq_of_tokenLabel hlabel (by decide)
    exact ⟨.inr rfl, rfl⟩

theorem word_mem_of_value (h : Free s ∨ s = "ITEM") :
    .word (tokenLabel s) ∈ .word [("label", "ITEM")] :: freeRow := by
  rcases h with hfree | rfl
  · exact List.mem_cons_of_mem _ hfree.word_mem
  · rw [tokenLabel_bound (by decide)]
    exact List.mem_cons_self

theorem word_mem_objectRow {obj : String} (hobj : obj ∈ objectWords) :
    .word (tokenLabel obj) ∈ objectRow := by
  have hwords : ∀ w ∈ objectWords, w ∈ "UNKNOWN" :: freeWords := by decide
  rw [tokenLabel_free (hwords obj hobj)]
  exact List.mem_append_left _ (List.mem_map.mpr ⟨obj, hobj, rfl⟩)

/-- The tree of an object without filters. -/
def objectTree (k : ℕ) (obj : String) : Tree :=
  .phrase (41 + objectWords.idxOf obj) [.word k 0]

theorem object_getElem? {j : ℕ} {w : String} (h : objectWords[j]? = some w) :
    admin.rules[41 + j]? = some (object w) := by
  have hlt : j < (objectWords.map object).length := by
    rw [List.length_map]
    exact (List.getElem?_eq_some_iff.mp h).1
  obtain ⟨front, rest, hfront, hrules⟩ : ∃ front rest, front.length = 41 ∧
      rules = front ++ (objectWords.map object ++ rest) :=
    ⟨freeWords.map freeWord ++ actions ++ commands, _, rfl,
      by simp only [rules, objects, List.append_assoc]; rfl⟩
  change rules[41 + j]? = _
  rw [hrules, List.getElem?_append_right (by omega), hfront, Nat.add_sub_cancel_left,
    List.getElem?_append_left hlt, List.getElem?_map, h]
  rfl

theorem object_tree {obj : String} (hform : forms[k]? = some obj) (hobj : obj ∈ objectWords)
    (h : Constituent admin table forms (unsaturated "QVD_OBJECT") t k 1) :
    t = objectTree k obj := by
  have hwords : ∀ w ∈ objectWords, w ∈ freeWords := by decide
  have hs : Free obj := .inr (List.mem_cons_of_mem _ (hwords obj hobj))
  obtain ⟨top, hmem, htop⟩ := leaf_top hform freeRow_spec.1 hs.word_mem h
    freeRow_spec.2.2.2.2
  obtain ⟨i, hi, rfl⟩ := List.mem_map.mp hmem
  obtain ⟨hle, hlt⟩ := List.mem_range'_1.mp hi
  obtain ⟨j, rfl⟩ := Nat.exists_eq_add_of_le hle
  obtain ⟨w, hw⟩ : ∃ w, objectWords[j]? = some w :=
    ⟨_, List.getElem?_eq_getElem (Nat.add_lt_add_iff_left.mp hlt)⟩
  cases t with
  | word j l => exact htop.elim
  | phrase i ds =>
    obtain rfl : i = 41 + j := htop
    obtain ⟨d, rfl, hd⟩ := leaf_daughter hform freeRow_spec.1 hs.word_mem h
      (by rw [object_getElem? hw]; rfl)
    obtain ⟨rfl, rfl⟩ := keyWord_tree hform hs (hwords w (List.mem_of_getElem? hw)) hd
    obtain ⟨hlt', rfl⟩ := List.getElem?_eq_some_iff.mp hw
    rw [objectTree, List.Nodup.idxOf_getElem (by decide) j hlt']

end Single

/-! ### The shape of a derivation -/

section Shape

variable {table : Table} {forms : List String} {t : Tree} {first k count : ℕ} {target : Label}
  {obj n v : String}

theorem coversWords_of (h : ∀ k s, forms[k]? = some s → (table k 1).Allows (.word (tokenLabel s))) :
    CoversWords admin table forms := by
  intro k form label hform hlabel
  rw [labelsForString_eq, List.mem_singleton] at hlabel
  exact hlabel ▸ h k form hform

/-- A production over a key word, where the table has no other for the label. -/
theorem keyed_tree (hw : CoversWords admin table forms) (hc : Closed admin table forms.length)
    (h : Constituent admin table forms target t k 1) {i : ℕ} {f label : Label}
    (hreads : Reads admin table target k 1 i [1])
    (hright : (admin.rules[i]?).map Rule.rightSide = some [f])
    (hword : ReadsWord admin table f k label) : t = .phrase i [.word k 0] := by
  obtain ⟨ds, rfl, hpieces⟩ := h.exists_phrase admin_accepted hw hc hreads hright
  simp only [pieces_cons, pieces_nil] at hpieces
  obtain ⟨d, _, rfl, hd, rfl⟩ := hpieces
  obtain ⟨top, hmem, htop⟩ := hd.exists_fitting hword
  rw [List.mem_singleton.mp hmem] at htop
  obtain ⟨s, rfl, -, -⟩ := word_of_hasHead hd htop
  rfl

/-- The tree of a name with an equals sign and a value. -/
def pairTree (k : ℕ) (n v : String) : Tree :=
  .phrase 72 [freeTree k n, .phrase 57 [.word (k + 1) 0], itemTree (k + 1 + 1) v]

@[simp] theorem yield_freeTree : (freeTree k n).yield = [k] := by
  rw [freeTree]
  split <;> simp

@[simp] theorem yield_itemTree : (itemTree k n).yield = [k] := by
  rw [itemTree]
  split <;> simp

@[simp] theorem yield_objectTree : (objectTree k obj).yield = [k] := by
  simp [objectTree]

@[simp] theorem yield_pairTree : (pairTree k n v).yield = [k, k + 1, k + 2] := by
  simp [pairTree]

theorem pair_tree (hw : CoversWords admin table forms) (hc : Closed admin table forms.length)
    (h : Constituent admin table forms target t k 3) (hn : forms[k]? = some n)
    (hv : forms[k + 1 + 1]? = some v)
    (hreads : Reads admin table target k 3 72 [1, 1, 1])
    (hsign : Reads admin table (saturated "IDOP") (k + 1) 1 57 [1])
    (hword : ReadsWord admin table (saturated "=") (k + 1) [("label", "=")]) :
    Free n ∧ (Free v ∨ v = "ITEM") ∧ t = pairTree k n v := by
  obtain ⟨ds, rfl, hpieces⟩ := h.exists_phrase admin_accepted hw hc hreads rfl
  simp only [pieces_cons, pieces_nil] at hpieces
  obtain ⟨name, _, rfl, hname, sign, _, rfl, hequal, item, _, rfl, hitem, rfl⟩ := hpieces
  obtain ⟨hfree, rfl⟩ := unknown_tree hn hname
  obtain rfl := keyed_tree hw hc hequal hsign rfl hword
  obtain ⟨hvalue, rfl⟩ := value_tree hv hitem
  exact ⟨hfree, hvalue, rfl⟩

end Shape

/-! ### The meanings of the parts -/

section Parts

variable {forms : List String} {k : ℕ} {s obj n v : String}

theorem bare_token (hform : forms[k]? = some s) :
    Bare admin forms (.word k 0) (tokenLabel s) (some (.scalar s)) :=
  bare_word hform (by rw [labelsForString_eq]; rfl)

theorem agrees_keyWord (hs : s ∈ "UNKNOWN" :: freeWords ++ boundWords) :
    Agrees (saturated s) (tokenLabel s) = true := by
  rw [tokenLabel_known hs]
  simp [Agrees, saturated]

theorem bare_free (hform : forms[k]? = some s) (h : Free s) :
    ∃ label, Bare admin forms (freeTree k s) label (some (.scalar s)) ∧
      Agrees (saturated "UNKNOWN") label = true := by
  by_cases hs : s ∈ freeWords
  · have hrule : admin.rules[freeWords.idxOf s]? = some (freeWord s) :=
      freeWord_getElem? (List.getElem?_idxOf hs)
    rw [freeTree, if_pos hs]
    refine ⟨saturated "UNKNOWN", bare_phrase hrule (.cons (bare_token hform) ?_ .nil) rfl rfl,
      by decide⟩
    exact agrees_keyWord (List.mem_append_left _ (List.mem_cons_of_mem _ hs))
  · rw [freeTree, if_neg hs]
    refine ⟨_, bare_token hform, ?_⟩
    rcases h with hunknown | hmem
    · rw [tokenLabel, if_neg hunknown]
      decide
    · obtain rfl := (List.mem_cons.mp hmem).resolve_right hs
      exact agrees_keyWord (List.mem_append_left _ hmem)

theorem bare_value (hform : forms[k]? = some s) (h : Free s ∨ s = "ITEM") :
    ∃ label, Bare admin forms (itemTree k s) label (some (.scalar s)) ∧
      Agrees value label = true := by
  by_cases hs : s = "ITEM"
  · subst hs
    refine ⟨_, bare_token hform, ?_⟩
    rw [tokenLabel_bound (by decide)]
    decide
  · obtain ⟨label, hfree, hagrees⟩ := bare_free hform (h.resolve_right hs)
    rw [itemTree, if_neg hs]
    exact ⟨value, bare_phrase rfl (.cons hfree hagrees .nil) rfl rfl, by decide⟩

theorem bare_object (hform : forms[k]? = some obj) (hobj : obj ∈ objectWords) :
    Bare admin forms (objectTree k obj) (unsaturated "QVD_OBJECT") (some (.scalar obj)) := by
  have hwords : ∀ w ∈ objectWords, w ∈ freeWords := by decide
  refine bare_phrase (object_getElem? (List.getElem?_idxOf hobj))
    (.cons (bare_token hform) ?_ .nil) rfl rfl
  exact agrees_keyWord (List.mem_append_left _ (List.mem_cons_of_mem _ (hwords obj hobj)))

/-- The meaning of a name with an equals sign and a value. -/
def assignment (n v : String) : Value := .hash [(n, .hash [("=", .scalar v)])]

theorem keyValue_equal (n v : String) :
    keyValue (.scalar n) (.scalar "=") (.scalar v) = assignment n v :=
  rfl

theorem bare_pair (hn : forms[k]? = some n) (hsign : forms[k + 1]? = some "=")
    (hv : forms[k + 1 + 1]? = some v) (hfree : Free n) (hvalue : Free v ∨ v = "ITEM") :
    Bare admin forms (pairTree k n v) (itemOf "1" ++ [("coordinated", "0")])
      (some (assignment n v)) := by
  obtain ⟨nLabel, hname, hnAgrees⟩ := bare_free hn hfree
  obtain ⟨vLabel, hitem, hvAgrees⟩ := bare_value hv hvalue
  have hequal : Bare admin forms (.phrase 57 [.word (k + 1) 0]) (saturated "IDOP")
      (some (.scalar "=")) :=
    bare_phrase rfl (.cons (bare_token hsign) (agrees_keyWord (by decide)) .nil) rfl rfl
  have hmeaning : (Except.ok (some (keyValue (.scalar n) (.scalar "=") (.scalar v))) :
      Except String (Option Value)) = .ok (some (assignment n v)) := by
    rw [keyValue_equal]
  exact bare_phrase rfl (.cons hname hnAgrees (.cons hequal (by decide)
    (.cons hitem hvAgrees .nil))) hmeaning rfl

end Parts

end Qvd.QuotedWords
