import Mathlib.Data.List.Basic

/-!
Fields in a line of text: the words of a text, that is its pieces between separators, and
the codes that keep separators out of a field. A letter that a code leaves a separator still
splits the field it is in, and no other does.
-/
namespace Qvd.EscapedFields

variable {α β : Type*}

/-- The pieces of a text without separators, as long as they get. -/
def words (p : α → Bool) (s : List α) : List (List α) :=
  (s.splitOnP p).filter (fun w => !w.isEmpty)

section Words

variable {p : α → Bool} {s t : List α}

theorem words_append_cons (s t : List α) {c : α} (hc : p c = true) :
    words p (s ++ c :: t) = words p s ++ words p t := by
  rw [words, List.splitOnP_append_cons _ _ hc, List.filter_append]
  rfl

theorem words_of_none (h : ∀ c ∈ s, p c = false) (hs : s ≠ []) : words p s = [s] := by
  rw [words, List.splitOnP_eq_singleton h]
  cases s with
  | nil => exact absurd rfl hs
  | cons c s => rfl

@[simp] theorem words_nil : words p [] = [] := rfl

/-- The words of a line are those of its fields. -/
theorem words_intercalate {c : α} (hc : p c = true) (fields : List (List α)) :
    words p (List.intercalate [c] fields) = fields.flatMap (words p) := by
  induction fields with
  | nil => rfl
  | cons f fields ih =>
    cases fields with
    | nil => simp
    | cons g fields =>
      rw [List.intercalate_cons_cons, List.append_assoc, List.singleton_append,
        words_append_cons _ _ hc, ih]
      simp

theorem mem_of_mem_intercalate {c d : α} {fields : List (List α)}
    (h : d ∈ List.intercalate [c] fields) : d = c ∨ ∃ f ∈ fields, d ∈ f := by
  induction fields with
  | nil => cases h
  | cons f fields ih =>
    cases fields with
    | nil => exact .inr ⟨f, List.mem_cons_self, by simpa using h⟩
    | cons g fields =>
      rw [List.intercalate_cons_cons, List.append_assoc, List.mem_append, List.singleton_append,
        List.mem_cons] at h
      rcases h with h | h | h
      · exact .inr ⟨f, List.mem_cons_self, h⟩
      · exact .inl h
      · exact (ih h).imp_right fun ⟨f', hf', hd⟩ => ⟨f', List.mem_cons_of_mem f hf', hd⟩

theorem ne_nil_of_mem_words {w : List α} (h : w ∈ words p s) : w ≠ [] := by
  rw [words, List.mem_filter] at h
  simpa using h.2

/-- What the pieces of a text are made of. -/
theorem mem_of_mem_splitOnP {w : List α} (h : w ∈ s.splitOnP p) :
    ∀ c ∈ w, c ∈ s ∧ p c = false := by
  induction s generalizing w with
  | nil =>
    rw [List.splitOnP_nil, List.mem_singleton] at h
    simp [h]
  | cons a s ih =>
    rw [List.splitOnP_cons_eq_if_modifyHead] at h
    split at h
    · rcases List.mem_cons.mp h with rfl | h
      · simp
      · exact fun c hc => ⟨List.mem_cons_of_mem a (ih h c hc).1, (ih h c hc).2⟩
    · next ha =>
      obtain ⟨v, vs, hvs⟩ := List.exists_cons_of_ne_nil (List.splitOnP_ne_nil p s)
      rw [hvs] at h ih
      rcases List.mem_cons.mp h with rfl | h
      · intro c hc
        rcases List.mem_cons.mp hc with rfl | hc
        · exact ⟨List.mem_cons_self, by simpa using ha⟩
        · exact ⟨List.mem_cons_of_mem a (ih List.mem_cons_self c hc).1,
            (ih List.mem_cons_self c hc).2⟩
      · exact fun c hc => ⟨List.mem_cons_of_mem a (ih (List.mem_cons_of_mem v h) c hc).1,
          (ih (List.mem_cons_of_mem v h) c hc).2⟩

theorem mem_of_mem_words {w : List α} (h : w ∈ words p s) : ∀ c ∈ w, c ∈ s ∧ p c = false :=
  mem_of_mem_splitOnP (List.mem_of_mem_filter h)

end Words

/-! ### Codes -/

/-- A code that writes some letters as they are though they are separators, and every other
letter without separators. -/
structure Code (p : β → Bool) (raw : α → Bool) where
  write : α → List β
  separator : ∀ c, raw c = true → ∃ d, write c = [d] ∧ p d = true
  letter : ∀ c, raw c = false → write c ≠ [] ∧ ∀ d ∈ write c, p d = false

section Codes

variable {p : β → Bool} {raw : α → Bool} (code : Code p raw)

theorem splitOnP_write (s : List α) :
    (s.flatMap code.write).splitOnP p = (s.splitOnP raw).map (·.flatMap code.write) := by
  induction s with
  | nil => rfl
  | cons c s ih =>
    rw [List.flatMap_cons, List.splitOnP_cons_eq_if_modifyHead]
    cases hc : raw c with
    | true =>
      obtain ⟨d, hwrite, hd⟩ := code.separator c hc
      rw [hwrite, List.singleton_append, List.splitOnP_cons_eq_if_modifyHead, if_pos hd,
        if_pos rfl, ih]
      rfl
    | false =>
      have hletters (u t : List β) (hu : ∀ d ∈ u, p d = false) :
          (u ++ t).splitOnP p = (t.splitOnP p).modifyHead (u ++ ·) := by
        induction u with
        | nil =>
          rw [List.nil_append]
          cases t.splitOnP p <;> rfl
        | cons d u ih =>
          rw [List.cons_append, List.splitOnP_cons_eq_if_modifyHead,
            if_neg (by simp [hu d List.mem_cons_self]),
            ih fun e he => hu e (List.mem_cons_of_mem d he), List.modifyHead_modifyHead]
          rfl
      obtain ⟨v, vs, hvs⟩ := List.exists_cons_of_ne_nil (List.splitOnP_ne_nil raw s)
      rw [hletters _ _ (code.letter c hc).2, ih, hvs]
      simp

/-- The words of a written text are the written words of the text between the letters that
stay separators. -/
theorem words_write (s : List α) :
    words p (s.flatMap code.write) = (words raw s).map (·.flatMap code.write) := by
  rw [words, splitOnP_write, words, List.filter_map]
  refine congrArg _ (List.filter_congr fun w hw => ?_)
  cases w with
  | nil => rfl
  | cons c w =>
    have hc := (mem_of_mem_splitOnP hw c List.mem_cons_self).2
    obtain ⟨d, u, hd⟩ := List.exists_cons_of_ne_nil (code.letter c hc).1
    simp [hd]

end Codes

end Qvd.EscapedFields
