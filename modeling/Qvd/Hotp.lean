import Qvd.FixedDigits

/-!
One-time passwords from a counter: the dynamic truncation of a digest of 20 bytes, and the decimal
text of a fixed size that is made of it.
-/
namespace Qvd.Hotp

open FixedDigits

abbrev Bytes := List UInt8

/-- What a hash of 160 bits gives. -/
abbrev Digest := { bytes : Bytes // bytes.length = 20 }

def byteAt (bytes : Bytes) (i : ℕ) : ℕ := (bytes.getD i 0).toNat

theorem byteAt_lt (bytes : Bytes) (i : ℕ) : byteAt bytes i < 256 := UInt8.toNat_lt _

/-- The four bytes from an offset, which the low bits of the last byte give, without the sign bit. -/
def truncate (digest : Digest) : ℕ :=
  let offset := byteAt digest.val 19 &&& 0xf
  (byteAt digest.val offset &&& 0x7f) <<< 24 ||| byteAt digest.val (offset + 1) <<< 16 |||
    byteAt digest.val (offset + 2) <<< 8 ||| byteAt digest.val (offset + 3)

/-- The counter has eight bytes. -/
def hotp (hmac : Bytes → Bytes → Digest) (secret : Bytes) (counter size : ℕ) : List Char :=
  (Nat.toDigits 10 (truncate (hmac (bigEndian 8 counter) secret) % 10 ^ size)).leftpad size '0'

/-- The truncation in terms of sums. -/
theorem truncate_eq (digest : Digest) : truncate digest =
    (byteAt digest.val (byteAt digest.val 19 % 16) * 2 ^ 24 +
      byteAt digest.val (byteAt digest.val 19 % 16 + 1) * 2 ^ 16 +
      byteAt digest.val (byteAt digest.val 19 % 16 + 2) * 2 ^ 8 +
      byteAt digest.val (byteAt digest.val 19 % 16 + 3)) % 2 ^ 31 := by
  have hbyte := byteAt_lt digest.val
  have hoffset : byteAt digest.val 19 &&& 0xf = byteAt digest.val 19 % 16 :=
    Nat.and_two_pow_sub_one_eq_mod _ 4
  unfold truncate
  dsimp only
  rw [hoffset]
  generalize byteAt digest.val 19 % 16 = offset
  have h0 := hbyte offset
  have h1 := hbyte (offset + 1)
  have h2 := hbyte (offset + 2)
  have h3 := hbyte (offset + 3)
  have hsign : byteAt digest.val offset &&& 0x7f = byteAt digest.val offset % 128 :=
    Nat.and_two_pow_sub_one_eq_mod _ 7
  rw [hsign]
  generalize byteAt digest.val offset = b0 at h0 ⊢
  generalize byteAt digest.val (offset + 1) = b1 at h1 ⊢
  generalize byteAt digest.val (offset + 2) = b2 at h2 ⊢
  generalize byteAt digest.val (offset + 3) = b3 at h3 ⊢
  have hjoin : ∀ a b j k : ℕ, j = 8 + k → b < 2 ^ 8 →
      a <<< j ||| b <<< k = (a * 2 ^ 8 + b) <<< k := by
    intro a b j k hj hb
    rw [hj, Nat.shiftLeft_add, ← Nat.shiftLeft_or_distrib, ← Nat.shiftLeft_add_eq_or_of_lt hb,
      Nat.shiftLeft_eq a]
  rw [hjoin _ b1 24 16 rfl h1, hjoin _ b2 16 8 rfl h2, ← Nat.shiftLeft_add_eq_or_of_lt h3, Nat.shiftLeft_eq]
  omega

/-- The text is the last digits of the truncated value. -/
theorem hotp_eq (hmac : Bytes → Bytes → Digest) (secret : Bytes) (counter : ℕ) {size : ℕ}
    (hsize : 1 ≤ size) : hotp hmac secret counter size =
      fixedDigits 10 size (truncate (hmac (bigEndian 8 counter) secret)) := by
  unfold hotp
  rw [leftpad_toDigits (by decide) hsize (Nat.mod_lt _ (Nat.pow_pos (by decide))), fixedDigits_mod]

end Qvd.Hotp
