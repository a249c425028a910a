import Mathlib.Data.List.DropRight
import Mathlib.Algebra.Order.Ring.Nat
import Mathlib.Tactic.Ring

/-!
Numerals of a fixed width, and bytes written as pairs of hexadecimal digits.
-/
namespace Qvd.FixedDigits

/-! ### Digits -/

section Digits

/-- The last `w` digits of a number, with zeros in front. -/
def fixedDigits (b : ℕ) : ℕ → ℕ → List Char
  | 0, _ => []
  | w + 1, n => fixedDigits b w (n / b) ++ [(n % b).digitChar]

variable {b w k n : ℕ}

@[simp] theorem length_fixedDigits : (fixedDigits b w n).length = w := by
  induction w generalizing n with
  | zero => rfl
  | succ w ih => rw [fixedDigits, List.length_append, ih, List.length_singleton]

theorem fixedDigits_zero : fixedDigits b w 0 = List.replicate w '0' := by
  induction w with
  | zero => rfl
  | succ w ih =>
    rw [fixedDigits, Nat.zero_div, ih, Nat.zero_mod, List.replicate_succ']
    rfl

/-- The last digits of a numeral with enough zeros in front of it. -/
theorem rtake_replicate_append (hb : 1 < b) (hk : w ≤ k) :
    (List.replicate k '0' ++ Nat.toDigits b n).rtake w = fixedDigits b w n := by
  induction w generalizing n with
  | zero => exact List.rtake_zero _
  | succ w ih =>
    have hw : w ≤ k := Nat.le_of_succ_le hk
    rw [fixedDigits, Nat.toDigits_eq_if hb]
    split
    · rename_i hn
      have hzeros : (List.replicate k '0').rtake w = List.replicate w '0' := by
        rw [List.rtake, List.length_replicate, List.drop_replicate, Nat.sub_sub_self hw]
      rw [List.rtake_concat_succ, hzeros, Nat.div_eq_of_lt hn, Nat.mod_eq_of_lt hn,
        fixedDigits_zero]
    · rw [← List.append_assoc, List.rtake_concat_succ, ih hw]

/-- A numeral that fits, padded to the width. -/
theorem leftpad_toDigits (hb : 1 < b) (hw : 0 < w) (hn : n < b ^ w) :
    (Nat.toDigits b n).leftpad w '0' = fixedDigits b w n := by
  have hlength : (Nat.toDigits b n).length ≤ w := (Nat.length_toDigits_le_iff hb hw).mpr hn
  have hzeros : List.replicate w '0' = List.replicate (Nat.toDigits b n).length '0' ++
      List.replicate (w - (Nat.toDigits b n).length) '0' := by
    rw [List.replicate_append_replicate, Nat.add_sub_cancel' hlength]
  rw [← rtake_replicate_append (w := w) hb le_rfl, hzeros, List.append_assoc, List.rtake]
  simp only [List.length_append, List.length_replicate]
  rw [Nat.sub_add_cancel hlength, Nat.add_sub_cancel_right, List.drop_left' (by simp)]
  rfl

theorem fixedDigits_mod (b w n : ℕ) : fixedDigits b w (n % b ^ w) = fixedDigits b w n := by
  induction w generalizing n with
  | zero => rfl
  | succ w ih =>
    rw [fixedDigits, fixedDigits, Nat.pow_succ', Nat.mod_mul_right_div_self, ih,
      Nat.mod_mul_right_mod]

end Digits

/-! ### Bytes as pairs of digits -/

section Bytes

def hexByte (byte : UInt8) : List Char :=
  [(byte.toNat / 16).digitChar, (byte.toNat % 16).digitChar]

def hexText (bytes : List UInt8) : List Char := bytes.flatMap hexByte

/-- A digit in either case. -/
def hexValue (c : Char) : ℕ :=
  if c.isDigit then c.toNat - 48
  else if c.isLower then c.toNat - 87
  else c.toNat - 55

def hexNumber (s : List Char) : ℕ := s.foldl (fun n c => 16 * n + hexValue c) 0

/-- Pairs of digits as bytes; a zero stands for the second digit of the last one if need be. -/
def hexBytes : List Char → List UInt8
  | [] => []
  | [c] => [UInt8.ofNat (16 * hexValue c)]
  | c :: d :: s => UInt8.ofNat (16 * hexValue c + hexValue d) :: hexBytes s

variable {bytes : List UInt8} {byte : UInt8} {n k : ℕ}

theorem hexValue_digitChar : ∀ n < 16, hexValue n.digitChar = n := by decide

theorem length_hexText : (hexText bytes).length = 2 * bytes.length := by
  induction bytes with
  | nil => rfl
  | cons byte bytes ih =>
    rw [hexText, List.flatMap_cons, List.length_append, List.length_cons]
    unfold hexText at ih
    rw [ih]
    exact Nat.add_comm _ _

theorem hexBytes_hexText : hexBytes (hexText bytes) = bytes := by
  induction bytes with
  | nil => rfl
  | cons byte bytes ih =>
    have hbyte := byte.toNat_lt
    change UInt8.ofNat (16 * hexValue (byte.toNat / 16).digitChar +
      hexValue (byte.toNat % 16).digitChar) :: hexBytes (hexText bytes) = byte :: bytes
    rw [ih, hexValue_digitChar _ (by omega), hexValue_digitChar _ (by omega), Nat.div_add_mod,
      UInt8.ofNat_toNat]

theorem hexNumber_hexText :
    hexNumber (hexText bytes) = bytes.foldl (fun n byte => 256 * n + byte.toNat) 0 := by
  have hfrom : ∀ m, (hexText bytes).foldl (fun n c => 16 * n + hexValue c) m =
      bytes.foldl (fun n byte => 256 * n + byte.toNat) m := by
    induction bytes with
    | nil => exact fun m => rfl
    | cons byte bytes ih =>
      intro m
      have hbyte := byte.toNat_lt
      change (hexText bytes).foldl _ (16 * (16 * m + hexValue (byte.toNat / 16).digitChar) +
        hexValue (byte.toNat % 16).digitChar) = _
      rw [ih, hexValue_digitChar _ (by omega), hexValue_digitChar _ (by omega), List.foldl_cons]
      congr 1
      omega
  exact hfrom 0

theorem drop_hexText : (hexText bytes).drop (2 * k) = hexText (bytes.drop k) := by
  induction k generalizing bytes with
  | zero => rfl
  | succ k ih =>
    cases bytes with
    | nil => rw [List.drop_nil]; exact List.drop_nil
    | cons byte bytes => exact ih

theorem take_hexText : (hexText bytes).take (2 * k) = hexText (bytes.take k) := by
  induction k generalizing bytes with
  | zero => rfl
  | succ k ih =>
    cases bytes with
    | nil => rw [List.take_nil]; exact List.take_nil
    | cons byte bytes =>
      exact congrArg (fun s => (byte.toNat / 16).digitChar :: (byte.toNat % 16).digitChar :: s) ih

/-- The bytes of a number, the highest first. -/
def bigEndian (k n : ℕ) : List UInt8 := (List.range k).map fun i => UInt8.ofNat (n / 256 ^ (k - 1 - i))

theorem hexText_bigEndian : hexText (bigEndian k n) = fixedDigits 16 (2 * k) n := by
  induction k generalizing n with
  | zero => rfl
  | succ k ih =>
    have hsplit : bigEndian (k + 1) n = bigEndian k (n / 256) ++ [UInt8.ofNat n] := by
      unfold bigEndian
      rw [List.range_succ, List.map_append]
      congr 1
      · refine List.map_congr_left fun i hi => ?_
        have hlt := List.mem_range.mp hi
        rw [Nat.div_div_eq_div_mul, ← Nat.pow_succ', Nat.succ_eq_add_one]
        congr 3
        omega
      · simp
    have hlast : hexByte (UInt8.ofNat n) = [(n / 16 % 16).digitChar, (n % 16).digitChar] := by
      unfold hexByte
      rw [UInt8.toNat_ofNat']
      congr 2
      · omega
      · congr 1
        omega
    unfold hexText at ih ⊢
    rw [hsplit, List.flatMap_append, ih, List.flatMap_singleton, hlast]
    change _ = fixedDigits 16 (2 * k) (n / 16 / 16) ++ [(n / 16 % 16).digitChar] ++
      [(n % 16).digitChar]
    rw [Nat.div_div_eq_div_mul, List.append_assoc]
    rfl

end Bytes

end Qvd.FixedDigits
