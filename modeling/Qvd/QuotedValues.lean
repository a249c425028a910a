import Qvd.AdminTokenizer
import Qvd.QuotedCommands

/-!
Quoted values on the command line: a query and an update with a value between quotes, from the
characters of the line to the request.
-/
namespace Qvd.QuotedValues

open AdminGrammar AdminMeanings AdminTokenizer ChartCompleteness ChartParser LineText ParseTrees
  QuotedCommands QuotedWords

/-! ### Tokens at the front of a line -/

section Tokens

variable {s form rest w v : Text}

/-- The passes after the last match change nothing. -/
theorem loop_eq_loop {m k : ℕ} (hm : s.length ≤ m) (hk : s.length ≤ k) : loop m s = loop k s := by
  have hnil : ∀ n, loop n [] = ([], []) := fun n => by cases n <;> rfl
  induction m generalizing s k with
  | zero =>
    obtain rfl := List.length_eq_zero_iff.mp (Nat.le_zero.mp hm)
    rw [hnil, hnil]
  | succ m ih =>
    cases k with
    | zero =>
      obtain rfl := List.length_eq_zero_iff.mp (Nat.le_zero.mp hk)
      rw [hnil, hnil]
    | succ k =>
      unfold loop
      cases hcut : cut s with
      | none => rfl
      | some p =>
        obtain ⟨form, rest⟩ := p
        have hlt := (cut_spec hcut).length_lt
        dsimp only
        rw [ih (s := rest) (k := k) (by omega) (by omega)]

theorem forms_of_cut (h : cut s = some (form, rest)) :
    forms s = form.filter (fun c => !isQuote c) :: forms rest := by
  have hlt := (cut_spec h).length_lt
  unfold forms
  cases hlen : s.length with
  | zero => omega
  | succ k =>
    rw [loop, h]
    dsimp only
    rw [loop_eq_loop (s := rest) (m := k) (k := rest.length) (by omega) le_rfl]

theorem trimLeft_of_head (h : ∀ c ∈ s.head?, isSpace c = false) : trimLeft s = s := by
  cases s with
  | nil => rfl
  | cons c s => exact trimLeft_cons_of_not (h c rfl)

theorem takeWhile_append_of_head {p : Char → Bool} (hw : ∀ c ∈ w, p c = true)
    (hrest : ∀ c ∈ rest.head?, p c = false) : (w ++ rest).takeWhile p = w := by
  have hstop : rest.takeWhile p = [] := by
    cases rest with
    | nil => rfl
    | cons c rest => exact List.takeWhile_cons_of_neg (by simp [hrest c rfl])
  rw [List.takeWhile_append_of_pos hw, hstop, List.append_nil]

theorem dropWhile_append_of_head {p : Char → Bool} (hw : ∀ c ∈ w, p c = true)
    (hrest : ∀ c ∈ rest.head?, p c = false) : (w ++ rest).dropWhile p = rest := by
  have hsplit := List.takeWhile_append_dropWhile (p := p) (l := w ++ rest)
  rw [takeWhile_append_of_head hw hrest] at hsplit
  exact List.append_cancel_left hsplit

theorem forall_head?_cons {p : Char → Bool} {c : Char} (h : p c = false) :
    ∀ d ∈ (c :: s).head?, p d = false :=
  fun _ hd => Option.some.inj hd ▸ h

theorem filter_quotes (h : ∀ c ∈ w, isQuote c = false) :
    w.filter (fun c => !isQuote c) = w :=
  List.filter_eq_self.mpr fun c hc => by rw [h c hc]; rfl

/-- A word is cut off where it ends. -/
theorem forms_word (hne : w ≠ []) (hw : ∀ c ∈ w, inToken c = true)
    (hrest : ∀ c ∈ rest.head?, inToken c = false) :
    forms (w ++ rest) = w :: forms (trimLeft rest) := by
  have hspace : ∀ c ∈ w, isSpace c = false := by
    intro c hc
    have hin := hw c hc
    rw [inToken, Bool.and_eq_true, Bool.not_eq_true'] at hin
    exact hin.1
  have hquote : ∀ c ∈ w, isQuote c = false := by
    intro c hc
    rw [← Bool.not_eq_true]
    intro hq
    exact absurd (hw c hc) (by simp [(of_isQuote hq).2.1])
  have htrim : trimLeft (w ++ rest) = w ++ rest := by
    refine trimLeft_of_head fun c hc => hspace c ?_
    rw [List.head?_append_of_ne_nil _ hne] at hc
    exact List.mem_of_mem_head? hc
  have hcut : cut (w ++ rest) = some (w, trimLeft rest) := by
    rw [cut, htrim, token, takeWhile_append_of_head hw hrest,
      dropWhile_append_of_head hw hrest, if_neg hne]
    rfl
  rw [forms_of_cut hcut, filter_quotes hquote]

theorem forms_equal (hrest : ∀ c ∈ rest.head?, isSpace c = false) :
    forms ('=' :: rest) = ['='] :: forms rest := by
  have hcut : cut ('=' :: rest) = some (['='], rest) := by
    have htrim : trimLeft ('=' :: rest) = '=' :: rest := rfl
    have htoken : token ('=' :: rest) = none := rfl
    have hspecial : specialToken ('=' :: rest) = some (['='], rest) := by
      rw [specialToken, if_neg (by simp), if_pos (by decide)]
    rw [cut, htrim, htoken, hspecial, Option.none_or, Option.map_some, trimLeft_of_head hrest]
  rw [forms_of_cut hcut]
  rfl

/-- What stands between two quotes is one token. -/
theorem forms_quoted {c q : Char} (hc : isQuote c = true) (hq : isQuote q = true)
    (hv : ∀ d ∈ v, isQuote d = false) :
    forms (c :: (v ++ q :: rest)) = v :: forms (trimLeft rest) := by
  obtain ⟨hspace, htoken, hspecial, hpair⟩ := of_isQuote hc
  have hvn : ∀ d ∈ v, (!isQuote d) = true := fun d hd => by rw [hv d hd]; rfl
  have hqn : ∀ d ∈ (q :: rest).head?, (!isQuote d) = false :=
    forall_head?_cons (by rw [hq]; rfl)
  have hcut : cut (c :: (v ++ q :: rest)) = some (c :: v ++ [q], trimLeft rest) := by
    have htrim : trimLeft (c :: (v ++ q :: rest)) = c :: (v ++ q :: rest) :=
      trimLeft_cons_of_not hspace
    have hnone : token (c :: (v ++ q :: rest)) = none := by
      rw [token, List.takeWhile_cons_of_neg (by simp [htoken]), if_pos rfl]
    have hfound : specialToken (c :: (v ++ q :: rest)) = some (c :: v ++ [q], rest) := by
      rw [specialToken, if_neg (by rw [hpair]; simp), if_neg (by simp [hspecial]), if_pos hc,
        dropWhile_append_of_head hvn hqn, takeWhile_append_of_head hvn hqn]
    rw [cut, htrim, hnone, hfound]
    rfl
  rw [forms_of_cut hcut, List.filter_append, List.filter_cons_of_neg (by simp [hc]),
    List.filter_cons_of_neg (by simp [hq]), filter_quotes hv, List.filter_nil, List.append_nil]

end Tokens

/-! ### The two lines -/

section Lines

variable {obj n v : String} {rest : Text}

def getLine (obj n v : String) : Text := (obj ++ " " ++ n ++ "='" ++ v ++ "' get").toList

def setLine (obj n v : String) : Text := (obj ++ " set " ++ n ++ "='" ++ v ++ "'").toList

/-- A word that the tokenizer takes for one token. -/
structure IsWord (n : String) : Prop where
  ne_nil : n.toList ≠ []
  all : ∀ c ∈ n.toList, inToken c = true

instance (n : String) : Decidable (IsWord n) :=
  decidable_of_iff (n.toList ≠ [] ∧ n.toList.all inToken = true)
    ⟨fun h => ⟨h.1, List.all_eq_true.mp h.2⟩, fun h => ⟨h.1, List.all_eq_true.mpr h.2⟩⟩

theorem isWord_object : ∀ obj ∈ objectWords, IsWord obj := by
  decide

theorem forms_spaced (hn : IsWord n) (rest : Text) :
    forms (n.toList ++ ' ' :: rest) = n.toList :: forms (trimLeft rest) := by
  rw [forms_word hn.ne_nil hn.all (forall_head?_cons (by decide))]
  rfl

/-- A name, an equals sign and a value between quotes. -/
theorem forms_pair (hn : IsWord n) (hv : Quoteless v) {q : Char} (hq : isQuote q = true) :
    forms (n.toList ++ '=' :: q :: (v.toList ++ q :: rest)) =
      n.toList :: ['='] :: v.toList :: forms (trimLeft rest) := by
  have hspace : ∀ c ∈ (q :: (v.toList ++ q :: rest)).head?, isSpace c = false :=
    forall_head?_cons (of_isQuote hq).1
  have hequal : trimLeft ('=' :: q :: (v.toList ++ q :: rest)) =
      '=' :: q :: (v.toList ++ q :: rest) := rfl
  rw [forms_word hn.ne_nil hn.all (forall_head?_cons (by decide)), hequal, forms_equal hspace,
    forms_quoted hq hq hv]

theorem trimLeft_word (hn : IsWord n) (rest : Text) :
    trimLeft (n.toList ++ rest) = n.toList ++ rest := by
  refine trimLeft_of_head fun c hc => ?_
  rw [List.head?_append_of_ne_nil _ hn.ne_nil] at hc
  have hin := hn.all c (List.mem_of_mem_head? hc)
  rw [inToken, Bool.and_eq_true, Bool.not_eq_true'] at hin
  exact hin.1

theorem forms_getLine (hobj : obj ∈ objectWords) (hn : IsWord n) (hv : Quoteless v) :
    (forms (getLine obj n v)).map String.ofList = getForms obj n v := by
  have hq : isQuote (Char.ofNat 39) = true := by decide
  have hline : getLine obj n v = obj.toList ++ ' ' :: (n.toList ++ '=' :: Char.ofNat 39 ::
      (v.toList ++ Char.ofNat 39 :: " get".toList)) := by
    simp [getLine]
  have hget : forms (trimLeft " get".toList) = ["get".toList] := by decide
  rw [hline, forms_spaced (isWord_object obj hobj), trimLeft_word hn, forms_pair hn hv hq, hget]
  simp [getForms]

theorem forms_setLine (hobj : obj ∈ objectWords) (hn : IsWord n) (hv : Quoteless v) :
    (forms (setLine obj n v)).map String.ofList = setForms obj n v := by
  have hq : isQuote (Char.ofNat 39) = true := by decide
  have hset : IsWord "set" := by decide
  have hline : setLine obj n v = obj.toList ++ ' ' :: ("set".toList ++ ' ' :: (n.toList ++
      '=' :: Char.ofNat 39 :: (v.toList ++ [Char.ofNat 39]))) := by
    simp [setLine]
  rw [hline, forms_spaced (isWord_object obj hobj), trimLeft_word hset, forms_spaced hset,
    trimLeft_word hn, forms_pair hn hv hq]
  simp [setForms]
  rfl

end Lines

/-! ### From the line to the request -/

section Requests

variable {obj n v : String} {line : Text} {r : Response}

/-- The line has one analysis, with this request for its meaning. -/
def MeansOnly (line : Text) (r : Response) : Prop :=
  ∃ toks, tokenization line = some toks ∧
    ∃ N, ∀ fuel, N < fuel → ChartParser.parse fuel admin toks = some (.ok [r])

theorem meansOnly_iff :
    MeansOnly line r ↔ Single admin ((forms line).map String.ofList) r := by
  have htokens : tokenization line = some (tokens ((forms line).map String.ofList)) := rfl
  simp only [MeansOnly, htokens, Option.some.injEq, exists_eq_left', Single]

/-- The tokenizer drops all quotes. -/
theorem quoteless_forms (line : Text) : ∀ form ∈ (forms line).map String.ofList,
    Quoteless form := by
  rw [List.forall_mem_map]
  suffices ∀ k s, ∀ form ∈ (loop k s).1, ∀ c ∈ form, isQuote c = false by
    intro form hform c hc
    rw [String.toList_ofList] at hc
    exact this _ _ form hform c hc
  intro k
  induction k with
  | zero => exact fun s form hform => absurd hform List.not_mem_nil
  | succ k ih =>
    intro s form hform
    unfold loop at hform
    split at hform
    · exact absurd hform List.not_mem_nil
    · rcases List.mem_cons.mp hform with rfl | hmem
      · intro c hc
        simpa using (List.mem_filter.mp hc).2
      · exact ih _ form hmem

theorem clean_entry {json : List (String × Value)} {key : String} {w : Value}
    (h : Clean (.hash json)) (hkey : (json.lookup key).bind Value.defined = some w) : Clean w := by
  have hfield : (Value.hash json).field key = .ok (some w) := by rw [Value.field, hkey]
  exact clean_field h hfield

theorem clean_getD {o : Option Value} {w : Value} (ho : ∀ x, o = some x → Clean x)
    (hw : Clean w) : Clean (o.getD w) := by
  cases o with
  | none => exact hw
  | some x => exact ho x rfl

/-- The wrapper takes its values out of the meaning. -/
theorem clean_response {m : Option Value} (hm : Clean (m.getD .undef))
    (h : Response.new m = .ok r) : Clean r.filters ∧ Clean r.arguments := by
  unfold Response.new at h
  split at h
  · rename_i json
    simp only [bind, Except.bind, pure, Except.pure] at h
    split at h
    · cases h
    · rename_i filters hfilters
      rw [← Except.ok.inj h]
      refine ⟨clean_getD (fun x hx => ?_) clean_nil, clean_getD (fun x hx => ?_) clean_nil⟩
      · subst hx
        split at hfilters
        · cases hfilters
        · rename_i obj hobj
          exact clean_field (clean_entry hm hobj) hfilters
      · exact clean_entry hm hx
  · cases h

/-- No request has a quote in its filters or its arguments. -/
theorem clean_of_meansOnly (h : MeansOnly line r) : Clean r.filters ∧ Clean r.arguments := by
  obtain ⟨-, t, -, a, ha, hresponse⟩ := (single_iff admin_accepted).mp (meansOnly_iff.mp h)
  cases hm : a.meaning with
  | error e => rw [hm] at hresponse; cases hresponse
  | ok m =>
    rw [hm] at hresponse
    exact clean_response (clean_analyse (quoteless_forms line) t a m ha hm) hresponse

/-- A quoted value is the value of the filter if it has no quotes of its own and is free, or
the one tag that goes for an item. -/
theorem get_line_iff (hobj : obj ∈ objectWords) (hn : IsWord n) :
    MeansOnly (getLine obj n v) (getResponse obj n v) ↔
      Quoteless v ∧ Free n ∧ (Free v ∨ v = "ITEM") := by
  constructor
  · intro h
    have hv : Quoteless v := by
      have hclean := (clean_of_meansOnly h).1
      simp only [getResponse, assignment, clean_hash, clean_scalar, List.forall_mem_singleton]
        at hclean
      exact hclean.2.2
    rw [meansOnly_iff, forms_getLine hobj hn hv, get_single_iff hobj] at h
    exact ⟨hv, h⟩
  · rintro ⟨hv, h⟩
    rw [meansOnly_iff, forms_getLine hobj hn hv, get_single_iff hobj]
    exact h

theorem set_line_iff (hobj : obj ∈ objectWords) (hn : IsWord n) :
    MeansOnly (setLine obj n v) (setResponse obj n v) ↔
      Quoteless v ∧ Free n ∧ n ≠ "-and" ∧ (Free v ∨ v = "ITEM") := by
  constructor
  · intro h
    have hv : Quoteless v := by
      have hclean := (clean_of_meansOnly h).2
      simp only [setResponse, clean_hash, clean_scalar, List.forall_mem_singleton] at hclean
      exact hclean.2
    rw [meansOnly_iff, forms_setLine hobj hn hv, set_single_iff hobj] at h
    exact ⟨hv, h⟩
  · rintro ⟨hv, h⟩
    rw [meansOnly_iff, forms_setLine hobj hn hv, set_single_iff hobj]
    exact h

/-- When a quoted value comes through, in a query and in an update. Of the tags of the grammar
the key words do, as the productions for free values say, and the names of two categories;
operators, brackets, directions and the names of the other categories do not. -/
theorem quoted_value_iff {obj n v : String} (hobj : obj ∈ objectWords) (hn : IsWord n) :
    (MeansOnly (getLine obj n v) (getResponse obj n v) ↔
      Quoteless v ∧ Free n ∧ (Free v ∨ v = "ITEM")) ∧
    (MeansOnly (setLine obj n v) (setResponse obj n v) ↔
      Quoteless v ∧ Free n ∧ n ≠ "-and" ∧ (Free v ∨ v = "ITEM")) :=
  ⟨get_line_iff hobj hn, set_line_iff hobj hn⟩

theorem quoted_value_iff_vm_name :
    (MeansOnly (getLine "vm" "name" "a b") (getResponse "vm" "name" "a b") ↔
      Quoteless "a b" ∧ Free "name" ∧ (Free "a b" ∨ "a b" = "ITEM")) ∧
    (MeansOnly (setLine "vm" "name" "a b") (setResponse "vm" "name" "a b") ↔
      Quoteless "a b" ∧ Free "name" ∧ "name" ≠ "-and" ∧ (Free "a b" ∨ "a b" = "ITEM")) :=
  quoted_value_iff (by decide) (by decide)

/-- An equals sign between quotes is the operator, and the query is refused. -/
theorem equals_sign_lost :
    ¬ MeansOnly (getLine "vm" "name" "=") (getResponse "vm" "name" "=") := by
  rw [get_line_iff (by decide) (by decide)]
  rintro ⟨-, -, h⟩
  revert h
  decide +kernel

end Requests

end Qvd.QuotedValues
