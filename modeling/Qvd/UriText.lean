import Mathlib.Data.List.DropRight
import Qvd.LineText

/-!
Percent-coded texts, and texts made of fields with a separator between them. The coding leaves
the characters of one class as they are; the separators stay apart from the fields as long as
they are outside that class.
-/
namespace Qvd.UriText

open Qvd.LineText

def IsBytes (s : Text) : Prop := ∀ c ∈ s, c.toNat < 256

def hexValue (c : Char) : Option ℕ :=
  if c.isDigit then some (c.toNat - 48)
  else if 'a' ≤ c ∧ c ≤ 'f' then some (c.toNat - 87)
  else if 'A' ≤ c ∧ c ≤ 'F' then some (c.toNat - 55)
  else none

def hexDigit (n : ℕ) : Char := (Nat.digitChar n).toUpper

/-- `s/%([0-9A-Fa-f]{2})/chr hex $1/eg`. -/
def percentDecode : Text → Text
  | '%' :: a :: b :: rest =>
    match hexValue a, hexValue b with
    | some x, some y => Char.ofNat (16 * x + y) :: percentDecode rest
    | _, _ => '%' :: percentDecode (a :: b :: rest)
  | c :: rest => c :: percentDecode rest
  | [] => []

/-- A character of the class stays, another one is written by its number. -/
def percentEncodeChar (keep : Char → Bool) (c : Char) : Text :=
  if keep c then [c] else ['%', hexDigit (c.toNat / 16), hexDigit (c.toNat % 16)]

def percentEncode (keep : Char → Bool) (s : Text) : Text := s.flatMap (percentEncodeChar keep)

/-- `split /SEP/`: the fields, but for empty ones at the end. -/
def splitFields (sep : Char) (s : Text) : List Text := (s.splitOn sep).rdropWhile List.isEmpty

section Coding

variable {keep : Char → Bool} {s : Text} {c : Char}

theorem percentDecode_cons_ne (h : c ≠ '%') (s : Text) :
    percentDecode (c :: s) = c :: percentDecode s := by
  rw [percentDecode]
  rintro a b rest rfl
  exact absurd rfl h

theorem hexValue_hexDigit {n : ℕ} (h : n < 16) : hexValue (hexDigit n) = some n := by
  have hall : ∀ m < 16, hexValue (hexDigit m) = some m := by decide
  exact hall n h

theorem percentDecode_percentEncodeChar (hkeep : keep '%' = false) (hc : c.toNat < 256)
    (s : Text) : percentDecode (percentEncodeChar keep c ++ s) = c :: percentDecode s := by
  rw [percentEncodeChar]
  split
  · rename_i hin
    refine percentDecode_cons_ne ?_ s
    rintro rfl
    simp [hkeep] at hin
  · have hsum : 16 * (c.toNat / 16) + c.toNat % 16 = c.toNat := Nat.div_add_mod ..
    rw [List.cons_append, List.cons_append, List.cons_append, List.nil_append, percentDecode,
      hexValue_hexDigit (by omega), hexValue_hexDigit (by omega)]
    simp only [hsum, Char.ofNat_toNat]

/-- Decoding undoes the coding of bytes. -/
theorem percentDecode_percentEncode (hkeep : keep '%' = false) (hs : IsBytes s) :
    percentDecode (percentEncode keep s) = s := by
  induction s with
  | nil => rfl
  | cons c s ih =>
    obtain ⟨hc, hs⟩ := List.forall_mem_cons.mp hs
    rw [percentEncode, List.flatMap_cons, percentDecode_percentEncodeChar hkeep hc]
    exact congrArg _ (ih hs)

/-- The coded text is made of the class, the percent sign and hexadecimal digits. -/
theorem mem_percentEncode (hs : IsBytes s) (hc : c ∈ percentEncode keep s) :
    keep c = true ∨ c = '%' ∨ ∃ n < 16, c = hexDigit n := by
  obtain ⟨d, hd, hc⟩ := List.mem_flatMap.mp hc
  have hlt := hs d hd
  rw [percentEncodeChar] at hc
  split at hc
  · rename_i hkeep
    exact .inl (List.mem_singleton.mp hc ▸ hkeep)
  · simp only [List.mem_cons, List.not_mem_nil, or_false] at hc
    rcases hc with rfl | rfl | rfl
    · exact .inr (.inl rfl)
    · exact .inr (.inr ⟨_, by omega, rfl⟩)
    · exact .inr (.inr ⟨_, by omega, rfl⟩)

end Coding

/-- Fields that are not empty and do not hold the separator are split as they were joined. -/
theorem splitFields_intercalate {sep : Char} {fields : List Text}
    (h : ∀ f ∈ fields, sep ∉ f ∧ f ≠ []) :
    splitFields sep ([sep].intercalate fields) = fields := by
  cases hf : fields with
  | nil => simp [splitFields]
  | cons field rest =>
    rw [← hf, splitFields, List.splitOn_intercalate sep (fun f hmem => (h f hmem).1) (by simp [hf]),
      List.rdropWhile_eq_self_iff]
    intro hne
    simpa using (h _ (List.getLast_mem hne)).2

/-- What is in the joined text is in a field or the separator. -/
theorem mem_intercalate {sep c : Char} {fields : List Text} (h : c ∈ [sep].intercalate fields) :
    c = sep ∨ ∃ f ∈ fields, c ∈ f := by
  induction fields with
  | nil => simp at h
  | cons field fields ih =>
    cases fields with
    | nil => exact .inr ⟨field, List.mem_singleton_self _, by simpa using h⟩
    | cons next rest =>
      rw [List.intercalate_cons_cons, List.append_assoc] at h
      rcases List.mem_append.mp h with h | h
      · exact .inr ⟨field, List.mem_cons_self, h⟩
      · rcases List.mem_append.mp h with h | h
        · exact .inl (List.mem_singleton.mp h)
        · rcases ih h with h | ⟨f, hf, hc⟩
          · exact .inl h
          · exact .inr ⟨f, List.mem_cons_of_mem _ hf, hc⟩

end Qvd.UriText
