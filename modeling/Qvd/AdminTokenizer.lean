import Mathlib
import Qvd.ChartParser
import Qvd.LineText

/-!
The tokenizer of the administration commands: a loop of two matches at the front of the line that
is left once neither matches. What of the line is in the tokens then.
-/
namespace Qvd.AdminTokenizer

open LineText ChartParser

/-! ### The loop -/

section Loop

/-- `["']`. -/
def isQuote (c : Char) : Bool := "\"'".toList.contains c

/-- The characters of `$SPECIAL_TOKEN` that stand alone. -/
def isSpecial (c : Char) : Bool := "=,;)([]!<>~:".toList.contains c

/-- The characters of `$TOKEN`. -/
def inToken (c : Char) : Bool :=
  !isSpace c && !"<=>,;)(][!~:'\"".toList.contains c

/-- `$TOKEN` at the front: the match and the rest. -/
def token (s : Text) : Option (Text × Text) :=
  if s.takeWhile inToken = [] then none
  else some (s.takeWhile inToken, s.dropWhile inToken)

/-- `$SPECIAL_TOKEN` at the front. -/
def specialToken : Text → Option (Text × Text)
  | [] => none
  | c :: s =>
    if "<>!".toList.contains c ∧ s.head? = some '=' then some ([c, '='], s.tail)
    else if isSpecial c then some ([c], s)
    else if isQuote c then
      match s.dropWhile fun d => !isQuote d with
      | [] => none
      | q :: rest => some (c :: s.takeWhile (fun d => !isQuote d) ++ [q], rest)
    else none

/-- One of the substitutions: the form it captures and the string it leaves. -/
def cut (s : Text) : Option (Text × Text) :=
  ((token (trimLeft s)).or (specialToken (trimLeft s))).map fun p => (p.1, trimLeft p.2)

/-- The forms that are cut off, without quotes, and the string at the exit of the loop. -/
def loop : ℕ → Text → List Text × Text
  | 0, s => ([], s)
  | n + 1, s =>
    match cut s with
    | none => ([], s)
    | some (form, rest) => (form.filter (fun c => !isQuote c) :: (loop n rest).1, (loop n rest).2)

/-- Each pass takes a character at least. -/
def forms (s : Text) : List Text := (loop s.length s).1

/-- `parse`: a list of one analysis. -/
def parse (s : Text) : List (List Token) := [tokens ((forms s).map String.ofList)]

/-- `unrecognized`. -/
def unrecognized (response : List (List Token)) : Bool := response.length < 1

/-- The first stage of `parse_string`; `none` is the exception. -/
def tokenization (s : Text) : Option (List Token) :=
  if unrecognized (parse s) then none else (parse s).head?

end Loop

/-! ### What makes up a line -/

section Lines

/-- White space and quotes. -/
def Gap (s : Text) : Prop := ∀ c ∈ s, isSpace c = true ∨ isQuote c = true

/-- Some texts in order with gaps between them. -/
inductive MakesUp : List Text → Text → Prop
  | nil {gap : Text} : Gap gap → MakesUp [] gap
  | cons {gap text rest : Text} {texts : List Text} : Gap gap → MakesUp texts rest →
      MakesUp (text :: texts) (gap ++ (text ++ rest))

/-- A line is refused, or its tokens make it up. -/
def Whole (s : Text) : Prop :=
  ∀ tokens, tokenization s = some tokens → MakesUp (tokens.map (·.string.toList)) s

/-- The quotes come in pairs, or nothing but white space stands after the last one. -/
def Closed (s : Text) : Prop :=
  s.countP isQuote % 2 = 0 ∨ ∀ c ∈ s.rtakeWhile fun c => !isQuote c, isSpace c = true

/-- The characters of neither kind. -/
def isPlain (c : Char) : Bool := !isSpace c && !isQuote c

end Lines

/-! ### One pass -/

section Pass

variable {s form rest text : Text} {texts : List Text}

theorem Gap.append {front back : Text} (hfront : Gap front) (hback : Gap back) :
    Gap (front ++ back) := fun c hmem =>
  (List.mem_append.mp hmem).elim (hfront c) (hback c)

theorem gap_of_space (h : ∀ c ∈ s, isSpace c = true) : Gap s := fun c hmem => .inl (h c hmem)

theorem isPlain_iff {c : Char} :
    isPlain c = true ↔ isSpace c = false ∧ isQuote c = false := by
  simp [isPlain]

theorem countP_isPlain_eq_zero : s.countP isPlain = 0 ↔ Gap s := by
  rw [List.countP_eq_zero]
  refine forall₂_congr fun c _ => ?_
  rw [isPlain_iff]
  cases isSpace c <;> simp

/-- No quote is white space or a character of a token or stands alone. -/
theorem of_isQuote {c : Char} (h : isQuote c = true) :
    isSpace c = false ∧ inToken c = false ∧ isSpecial c = false ∧
      "<>!".toList.contains c = false := by
  have hmem : c = '"' ∨ c = Char.ofNat 39 := by
    unfold isQuote at h
    rw [List.contains_iff_mem] at h
    simpa using h
  rcases hmem with rfl | rfl
  · decide
  · decide

theorem countP_isQuote_of_space (h : ∀ c ∈ s, isSpace c = true) : s.countP isQuote = 0 := by
  refine List.countP_eq_zero.mpr fun c hmem hquote => ?_
  have hspace := h c hmem
  rw [(of_isQuote hquote).1] at hspace
  cases hspace

/-- Every character is of some kind. -/
theorem kinds (c : Char) :
    isSpace c = true ∨ inToken c = true ∨ isSpecial c = true ∨ isQuote c = true := by
  by_cases hspace : isSpace c = true
  · exact .inl hspace
  · unfold inToken
    by_cases hset : "<=>,;)(][!~:'\"".toList.contains c = true
    · refine .inr (.inr ?_)
      rw [isSpecial, isQuote, List.contains_iff_mem, List.contains_iff_mem]
      rw [List.contains_iff_mem] at hset
      simp at hset ⊢
      grind
    · refine .inr (.inl ?_)
      rw [Bool.not_eq_true] at hspace hset
      rw [hspace, hset]
      rfl

/-- A match: a text between gaps, with quotes in pairs. -/
structure Framed (form text : Text) : Prop where
  frame : ∃ left right, form = left ++ (text ++ right) ∧ Gap left ∧ Gap right
  text_eq : form.filter (fun c => !isQuote c) = text
  quotes : form.countP isQuote % 2 = 0
  ne_nil : form ≠ []

theorem Framed.of_not_quote (h : ∀ c ∈ form, isQuote c = false) (hne : form ≠ []) :
    Framed form form where
  frame := ⟨[], [], (List.append_nil form).symm, nofun, nofun⟩
  text_eq := List.filter_eq_self.mpr fun c hmem => by rw [h c hmem]; rfl
  quotes := by
    rw [List.countP_eq_zero.mpr fun c hmem => by simp [h c hmem]]
  ne_nil := hne

theorem Framed.quoted {c q : Char} (hc : isQuote c = true) (hq : isQuote q = true)
    (h : ∀ d ∈ text, isQuote d = false) : Framed (c :: text ++ [q]) text where
  frame := by
    refine ⟨[c], [q], rfl, ?_, ?_⟩
    · exact fun d hmem => .inr (List.mem_singleton.mp hmem ▸ hc)
    · exact fun d hmem => .inr (List.mem_singleton.mp hmem ▸ hq)
  text_eq := by
    have htext : text.filter (fun c => !isQuote c) = text :=
      List.filter_eq_self.mpr fun d hmem => by rw [h d hmem]; rfl
    rw [List.filter_append, List.filter_cons_of_neg (by simp [hc]), htext,
      List.filter_cons_of_neg (by simp [hq]), List.filter_nil, List.append_nil]
  quotes := by
    have htext : text.countP isQuote = 0 :=
      List.countP_eq_zero.mpr fun d hmem => by simp [h d hmem]
    rw [List.countP_append, List.countP_cons_of_pos hc, htext, List.countP_cons_of_pos hq,
      List.countP_nil]
  ne_nil := List.cons_ne_nil _ _

theorem token_spec (h : token s = some (form, rest)) :
    s = form ++ rest ∧ Framed form form := by
  unfold token at h
  split at h
  · cases h
  · rename_i hne
    obtain ⟨rfl, rfl⟩ := Prod.mk.inj (Option.some.inj h)
    refine ⟨(List.takeWhile_append_dropWhile).symm, Framed.of_not_quote ?_ hne⟩
    intro c hmem
    by_contra hquote
    have htoken := List.mem_takeWhile_imp hmem
    rw [(of_isQuote (by simpa using hquote)).2.1] at htoken
    cases htoken

theorem specialToken_spec (h : specialToken s = some (form, rest)) :
    s = form ++ rest ∧ ∃ text, Framed form text := by
  cases s with
  | nil => cases h
  | cons c s =>
    rw [specialToken] at h
    split at h
    · rename_i hpair
      obtain ⟨rfl, rfl⟩ := Prod.mk.inj (Option.some.inj h)
      refine ⟨?_, [c, '='], Framed.of_not_quote ?_ (List.cons_ne_nil _ _)⟩
      · cases s with
        | nil => cases hpair.2
        | cons d s =>
          obtain rfl := Option.some.inj hpair.2
          rfl
      · intro d hmem
        by_contra hquote
        have hquote : isQuote d = true := by simpa using hquote
        rcases List.mem_cons.mp hmem with rfl | hmem
        · exact absurd hpair.1 (by rw [(of_isQuote hquote).2.2.2]; decide)
        · rw [List.mem_singleton.mp hmem] at hquote
          exact absurd hquote (by decide)
    · split at h
      · rename_i hspecial
        obtain ⟨rfl, rfl⟩ := Prod.mk.inj (Option.some.inj h)
        refine ⟨rfl, [c], Framed.of_not_quote (fun d hmem => ?_) (List.cons_ne_nil _ _)⟩
        by_contra hquote
        rw [List.mem_singleton.mp hmem] at hquote
        rw [(of_isQuote (by simpa using hquote)).2.2.1] at hspecial
        cases hspecial
      · split at h
        · rename_i hquote
          split at h
          · cases h
          · rename_i q after hafter
            obtain ⟨rfl, rfl⟩ := Prod.mk.inj (Option.some.inj h)
            have hq : isQuote q = true := by
              have hhead := List.head?_dropWhile_not (fun d => !isQuote d) s
              rw [hafter] at hhead
              simpa using hhead
            refine ⟨?_, _, Framed.quoted hquote hq fun d hmem => ?_⟩
            · have hsplit := List.takeWhile_append_dropWhile (p := fun d => !isQuote d) (l := s)
              rw [hafter] at hsplit
              calc c :: s = c :: (s.takeWhile (fun d => !isQuote d) ++ q :: after) := by rw [hsplit]
                _ = c :: s.takeWhile (fun d => !isQuote d) ++ [q] ++ after := by simp
            · simpa using List.mem_takeWhile_imp hmem
        · cases h

/-- Where nothing matches there is white space, or a quote without another one after it. -/
theorem none_spec (htoken : token s = none) (hspecial : specialToken s = none)
    (hhead : ∀ c ∈ s.head?, isSpace c = false) :
    s = [] ∨ ∃ q tail, s = q :: tail ∧ isQuote q = true ∧ ∀ c ∈ tail, isQuote c = false := by
  cases s with
  | nil => exact .inl rfl
  | cons c s =>
    have hspace : isSpace c = false := hhead c rfl
    have hnot : inToken c = false := by
      by_contra hin
      unfold token at htoken
      rw [List.takeWhile_cons_of_pos (by simpa using hin), if_neg (List.cons_ne_nil _ _)] at htoken
      cases htoken
    rw [specialToken] at hspecial
    split at hspecial
    · cases hspecial
    · split at hspecial
      · cases hspecial
      · rename_i hother
        have hquote : isQuote c = true := by
          rcases kinds c with h | h | h | h
          · rw [hspace] at h
            cases h
          · rw [hnot] at h
            cases h
          · exact absurd h hother
          · exact h
        rw [if_pos hquote] at hspecial
        split at hspecial
        · rename_i hnone
          refine .inr ⟨c, s, rfl, hquote, fun d hmem => ?_⟩
          simpa using List.dropWhile_eq_nil_iff.mp hnone d hmem
        · cases hspecial

theorem MakesUp.gap {gap : Text} (hgap : Gap gap) (h : MakesUp texts s) :
    MakesUp texts (gap ++ s) := by
  cases h with
  | nil hrest => exact .nil (hgap.append hrest)
  | cons hfirst hrest =>
    rw [← List.append_assoc]
    exact .cons (hgap.append hfirst) hrest

/-- What one pass does: a text between gaps is taken from the front. -/
structure Passes (s form rest : Text) : Prop where
  front : ∃ front, s = front ++ rest
  length_lt : rest.length < s.length
  makesUp : ∀ texts, MakesUp texts rest →
    MakesUp (form.filter (fun c => !isQuote c) :: texts) s
  plain : s.countP isPlain =
    (form.filter fun c => !isQuote c).countP isPlain + rest.countP isPlain
  quotes : s.countP isQuote % 2 = rest.countP isQuote % 2

theorem trimLeft_split (s : Text) : ∃ gap, s = gap ++ trimLeft s ∧ ∀ c ∈ gap, isSpace c = true :=
  ⟨s.takeWhile isSpace, List.takeWhile_append_dropWhile.symm, fun _ h => List.mem_takeWhile_imp h⟩

theorem cut_spec (h : cut s = some (form, rest)) : Passes s form rest := by
  obtain ⟨⟨piece, after⟩, hpiece, hsame⟩ := Option.map_eq_some_iff.mp h
  obtain ⟨rfl, rfl⟩ := Prod.mk.inj hsame
  have hframed : trimLeft s = piece ++ after ∧ ∃ text, Framed piece text := by
    rcases Option.or_eq_some_iff.mp hpiece with htoken | ⟨-, hspecial⟩
    · obtain ⟨hsplit, hframed⟩ := token_spec htoken
      exact ⟨hsplit, piece, hframed⟩
    · exact specialToken_spec hspecial
  obtain ⟨hsplit, text, hframed⟩ := hframed
  obtain ⟨left, right, hform, hleft, hright⟩ := hframed.frame
  obtain ⟨before, hbefore, hbeforeSpace⟩ := trimLeft_split s
  obtain ⟨behind, hbehind, hbehindSpace⟩ := trimLeft_split after
  have hline : s = before ++ (piece ++ (behind ++ trimLeft after)) := by
    rw [← hbehind, ← hsplit, ← hbefore]
  have hbeforeGap := gap_of_space hbeforeSpace
  have hbehindGap := gap_of_space hbehindSpace
  change Passes s piece (trimLeft after)
  constructor
  · exact ⟨before ++ (piece ++ behind), by rw [hline]; simp only [List.append_assoc]⟩
  · have hpos := List.length_pos_of_ne_nil hframed.ne_nil
    rw [hline]
    simp only [List.length_append]
    omega
  · intro texts htexts
    have hrest := htexts.gap (hright.append hbehindGap)
    have hall : MakesUp (text :: texts) _ := .cons (hbeforeGap.append hleft) hrest
    rw [hframed.text_eq, hline, hform]
    simpa only [List.append_assoc] using hall
  · rw [hframed.text_eq, hline, hform]
    simp only [List.countP_append, countP_isPlain_eq_zero.mpr hbeforeGap,
      countP_isPlain_eq_zero.mpr hleft, countP_isPlain_eq_zero.mpr hright,
      countP_isPlain_eq_zero.mpr hbehindGap, Nat.zero_add, Nat.add_zero]
  · rw [hline]
    simp only [List.countP_append, countP_isQuote_of_space hbeforeSpace,
      countP_isQuote_of_space hbehindSpace, Nat.zero_add]
    rw [Nat.add_mod, hframed.quotes, Nat.zero_add, Nat.mod_mod]

end Pass

/-! ### The whole loop -/

section Whole

variable {s : Text}

/-- What the loop leaves: the texts before it, and a rest that nothing matches. -/
structure Leaves (s : Text) (texts : List Text) (rest : Text) : Prop where
  front : ∃ front, s = front ++ rest
  makesUp : Gap rest → MakesUp texts s
  plain : s.countP isPlain = (texts.map (·.countP isPlain)).sum + rest.countP isPlain
  quotes : s.countP isQuote % 2 = rest.countP isQuote % 2
  stuck : cut rest = none

theorem loop_spec (n : ℕ) (h : s.length ≤ n) : Leaves s (loop n s).1 (loop n s).2 := by
  have hend : ∀ {s : Text}, cut s = none → Leaves s [] s := fun hcut =>
    ⟨⟨[], rfl⟩, .nil, (Nat.zero_add _).symm, rfl, hcut⟩
  induction n generalizing s with
  | zero =>
    obtain rfl := List.length_eq_zero_iff.mp (Nat.le_zero.mp h)
    exact hend rfl
  | succ n ih =>
    unfold loop
    cases hcut : cut s with
    | none => exact hend hcut
    | some p =>
      obtain ⟨form, rest⟩ := p
      have hpass := cut_spec hcut
      have hrest := ih (Nat.le_of_lt_succ (Nat.lt_of_lt_of_le hpass.length_lt h))
      dsimp only
      constructor
      · obtain ⟨front, hfront⟩ := hpass.front
        obtain ⟨back, hback⟩ := hrest.front
        exact ⟨front ++ back, by rw [List.append_assoc, ← hback, ← hfront]⟩
      · exact fun hgap => hpass.makesUp _ (hrest.makesUp hgap)
      · rw [hpass.plain, hrest.plain, List.map_cons, List.sum_cons, Nat.add_assoc]
      · exact hpass.quotes.trans hrest.quotes
      · exact hrest.stuck

theorem plain_of_makesUp {texts : List Text} (h : MakesUp texts s) :
    s.countP isPlain = (texts.map (·.countP isPlain)).sum := by
  induction h with
  | nil hgap => exact countP_isPlain_eq_zero.mpr hgap
  | cons hgap _ ih =>
    rw [List.countP_append, List.countP_append, countP_isPlain_eq_zero.mpr hgap, ih,
      List.map_cons, List.sum_cons, Nat.zero_add]

/-- The tokens make up the line if the rest is a gap: a rest with anything else has a character
that no token has. -/
theorem makesUp_iff {texts : List Text} {rest : Text} (h : Leaves s texts rest) :
    MakesUp texts s ↔ Gap rest := by
  refine ⟨fun hmakes => countP_isPlain_eq_zero.mp ?_, h.makesUp⟩
  have hcount := plain_of_makesUp hmakes
  have hplain := h.plain
  omega

theorem stuck_cases (h : cut s = none) : (∀ c ∈ s, isSpace c = true) ∨
    ∃ before q tail, s = before ++ q :: tail ∧ (∀ c ∈ before, isSpace c = true) ∧
      isQuote q = true ∧ ∀ c ∈ tail, isQuote c = false := by
  obtain ⟨before, hbefore, hspace⟩ := trimLeft_split s
  have hnone := Option.or_eq_none_iff.mp (Option.map_eq_none_iff.mp h)
  have hhead : ∀ c ∈ (trimLeft s).head?, isSpace c = false := by
    intro c hc
    have hnot := List.head?_dropWhile_not isSpace s
    rw [show (s.dropWhile isSpace).head? = some c from hc] at hnot
    exact hnot
  rcases none_spec hnone.1 hnone.2 hhead with hnil | ⟨q, tail, htail, hq, hquotes⟩
  · rw [hnil, List.append_nil] at hbefore
    exact .inl (hbefore ▸ hspace)
  · exact .inr ⟨before, q, tail, htail ▸ hbefore, hspace, hq, hquotes⟩

theorem gap_rest_iff {texts : List Text} {rest : Text} (h : Leaves s texts rest) :
    Gap rest ↔ Closed s := by
  obtain ⟨front, hfront⟩ := h.front
  have hquotes := h.quotes
  rcases stuck_cases h.stuck with hspace | ⟨before, q, tail, rfl, hspace, hq, htail⟩
  · refine iff_of_true (gap_of_space hspace) (.inl ?_)
    rw [hquotes, countP_isQuote_of_space hspace]
  · have hodd : s.countP isQuote % 2 = 1 := by
      have hnone : tail.countP isQuote = 0 :=
        List.countP_eq_zero.mpr fun c hmem => by simp [htail c hmem]
      rw [hquotes, List.countP_append, countP_isQuote_of_space hspace,
        List.countP_cons_of_pos hq, hnone]
    have hlast : s.rtakeWhile (fun c => !isQuote c) = tail := by
      have htake : tail.reverse.takeWhile (fun c => !isQuote c) = tail.reverse :=
        List.takeWhile_eq_self_iff.mpr fun c hmem => by simp [htail c (List.mem_reverse.mp hmem)]
      unfold List.rtakeWhile
      rw [hfront, List.reverse_append, List.reverse_append, List.reverse_cons, List.append_assoc,
        List.append_assoc, List.takeWhile_append_of_pos fun c hmem => by
          simp [htail c (List.mem_reverse.mp hmem)], List.singleton_append,
        List.takeWhile_cons_of_neg (by simp [hq]), List.append_nil, List.reverse_reverse]
    unfold Closed
    rw [hlast, or_iff_right (by omega)]
    constructor
    · intro hgap c hmem
      rcases hgap c (List.mem_append_right _ (List.mem_cons_of_mem _ hmem)) with hc | hc
      · exact hc
      · rw [htail c hmem] at hc
        cases hc
    · intro htailSpace
      refine (gap_of_space hspace).append fun c hmem => ?_
      rcases List.mem_cons.mp hmem with rfl | hmem
      · exact .inr hq
      · exact .inl (htailSpace c hmem)

theorem map_string_tokensFrom (position : ℕ) (forms : List Text) :
    (tokensFrom position (forms.map String.ofList)).map (·.string.toList) = forms := by
  induction forms generalizing position with
  | nil => rfl
  | cons form forms ih =>
    rw [List.map_cons]
    unfold tokensFrom
    rw [List.map_cons, ih]
    exact congrArg (· :: forms) String.toList_ofList

/-- A line is in its tokens exactly where its quotes come in pairs, or only white space follows
the last one. -/
theorem whole_iff_closed (s : Text) : Whole s ↔ Closed s := by
  have hloop := loop_spec s.length le_rfl
  rw [← gap_rest_iff hloop, ← makesUp_iff hloop]
  have htokens : tokenization s = some (tokens ((forms s).map String.ofList)) := rfl
  have htexts := map_string_tokensFrom 0 (forms s)
  constructor
  · intro h
    have hmakes := h _ htokens
    rw [tokens, htexts] at hmakes
    exact hmakes
  · intro h tokens hsome
    rw [htokens] at hsome
    rw [← Option.some.inj hsome, ChartParser.tokens, htexts]
    exact h

/-- The filter is gone, and the command before it is left. -/
theorem filter_dropped : ¬Whole "vm del \"id=5".toList ∧
    forms "vm del \"id=5".toList = ["vm".toList, "del".toList] := by
  have hforms : forms "vm del \"id=5".toList = ["vm".toList, "del".toList] := by decide
  refine ⟨fun h => ?_, hforms⟩
  have hmakes := h _ rfl
  rw [tokens, map_string_tokensFrom, hforms] at hmakes
  exact absurd (plain_of_makesUp hmakes) (by decide)

end Whole

end Qvd.AdminTokenizer
