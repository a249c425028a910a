import Qvd.Hotp
import Qvd.LineText

/-!
The authenticator's plugin for time-based one-time passwords: the token is cut off the password,
and it is compared, through texts of hexadecimal digits, with the value of each counter of the
window around the present one.
-/
namespace Qvd.TotpPlugin

open LineText FixedDigits Hotp

/-! ### The plugin -/

section Plugin

/-- The configuration of a tenant; what is not set has a default. -/
structure Settings where
  tokenSize : Option ℕ
  interval : Option ℕ
  t0 : Option ℤ
  leewayBefore : Option ℕ
  leeway : Option ℕ

namespace Settings

variable (s : Settings)

def size : ℕ := s.tokenSize.getD 6

def step : ℕ := s.interval.getD 30

def start : ℤ := s.t0.getD 0

def before : ℕ := s.leewayBefore.getD 0

def after : ℕ := s.leeway.getD 1

end Settings

/-- `authenticate_basic_2f_split`: the password and the token, the last characters as far as there
are any. -/
def split (s : Settings) (passwd : Text) : Text × Text :=
  (passwd.take (passwd.length - s.size), passwd.drop (passwd.length - s.size))

/-- The values of the properties of a user, by property. -/
structure User where
  properties : List (ℕ × Text)

/-- What the plugin finds of a tenant: its users by login, and the property `secret32` of users. -/
structure Tenant where
  users : Text → Option User
  secretProperty : Option ℕ

inductive Outcome
  | accepted | refused | died
deriving DecidableEq

/-- The functions of other packages. -/
structure Library where
  hmacSha1 : Bytes → Bytes → Digest
  decodeBase32 : Text → Option Bytes

variable (lib : Library)

/-- `sprintf('%016x', $i)`. The number has 64 bits. -/
def counterText (i : ℤ) : Text := (Nat.toDigits 16 (i % 2 ^ 64).toNat).leftpad 16 '0'

/-- `hmac_sha1_hex`. -/
def hmacSha1Hex (data secret : Bytes) : Text := hexText (lib.hmacSha1 data secret).val

/-- `$good`: the offset is the last digit, and counts pairs of digits. -/
def goodValue (hmac : Text) : ℕ :=
  let off := hexNumber (hmac.rtake 1) * 2
  hexNumber ((hmac.drop off).take 8) &&& 0x7fffffff

/-- `substr(("0" x $size) . $good, -$size)`. -/
def goodText (size : ℕ) (hmac : Text) : Text :=
  (List.replicate size '0' ++ Nat.toDigits 10 (goodValue hmac)).rtake size

/-- `int(($now - $t0) / $interval)`. -/
def present (s : Settings) (now : ℤ) : ℤ := (now - s.start).tdiv s.step

/-- `$n - $leeway .. $n + $before`. -/
def window (s : Settings) (now : ℤ) : List ℤ :=
  (List.range (s.after + s.before + 1)).map fun k : ℕ => present s now - s.after + (k : ℤ)

def checkToken (s : Settings) (secret : Bytes) (now : ℤ) (token : Text) : Bool :=
  (window s now).any fun i =>
    goodText s.size (hmacSha1Hex lib (hexBytes (counterText i)) secret) = token

/-- `authenticate_basic_2f`. A property that is not registered is only logged, and its id is asked
for then. -/
def authenticateBasic2f (s : Settings) (tenant : Tenant) (login : Text) (now : ℤ) (token : Text) :
    Outcome :=
  match tenant.users login with
  | none => .refused
  | some user =>
    match tenant.secretProperty with
    | none => .died
    | some property =>
      match user.properties.lookup property with
      | none => .refused
      | some value =>
        match lib.decodeBase32 value with
        | none => .refused
        | some secret => if checkToken lib s secret now token then .accepted else .refused

end Plugin

/-! ### What it should accept -/

section Purpose

/-- The secret that is stored for a login. -/
def storedSecret (lib : Library) (tenant : Tenant) (login : Text) : Option Bytes := do
  let user ← tenant.users login
  let property ← tenant.secretProperty
  let value ← user.properties.lookup property
  lib.decodeBase32 value

/-- The number of whole intervals since the start. -/
def counterAt (s : Settings) (now : ℤ) : ℤ := (now - s.start).fdiv s.step

/-- The token belongs to a counter of the window. -/
def Valid (lib : Library) (s : Settings) (secret : Bytes) (now : ℤ) (token : Text) : Prop :=
  ∃ i : ℤ, counterAt s now - s.after ≤ i ∧ i ≤ counterAt s now + s.before ∧
    token = hotp lib.hmacSha1 secret i.toNat s.size

end Purpose

/-! ### Texts of digits -/

section Texts

theorem hexBytes_counterText {i : ℤ} (h : 0 ≤ i) :
    hexBytes (counterText i) = bigEndian 8 i.toNat := by
  have hlt : (i % 2 ^ 64).toNat < 16 ^ 16 := by omega
  have hmod : (i % 2 ^ 64).toNat = i.toNat % 16 ^ 16 := by omega
  unfold counterText
  rw [leftpad_toDigits (by decide) (by decide) hlt, hmod, fixedDigits_mod,
    show 16 = 2 * 8 from rfl, ← hexText_bigEndian, hexBytes_hexText]

/-- Four bytes from a place on. -/
theorem take_four {bytes : Bytes} {k : ℕ} (h : k + 4 ≤ bytes.length) :
    ((bytes.drop k).take 4).map UInt8.toNat =
      [byteAt bytes k, byteAt bytes (k + 1), byteAt bytes (k + 2), byteAt bytes (k + 3)] := by
  have hbyte : ∀ i, byteAt bytes (k + i) = byteAt (bytes.drop k) i := by
    intro i
    unfold byteAt
    rw [List.getD_eq_getElem?_getD, List.getD_eq_getElem?_getD, List.getElem?_drop]
  have hlength : 4 ≤ (bytes.drop k).length := by
    rw [List.length_drop]
    omega
  rw [show byteAt bytes k = byteAt (bytes.drop k) 0 from hbyte 0, hbyte, hbyte, hbyte]
  generalize bytes.drop k = rest at hlength ⊢
  rcases rest with _ | ⟨a, _ | ⟨b, _ | ⟨c, _ | ⟨d, rest⟩⟩⟩⟩
  · exact absurd hlength (by simp)
  · exact absurd hlength (by simp)
  · exact absurd hlength (by simp)
  · exact absurd hlength (by simp)
  · rfl

/-- The last digit is the low half of the last byte. -/
theorem hexNumber_last {bytes : Bytes} {k : ℕ} (h : bytes.length = k + 1) :
    hexNumber ((hexText bytes).rtake 1) = byteAt bytes k % 16 := by
  rcases List.eq_nil_or_concat' bytes with rfl | ⟨front, last, rfl⟩
  · exact absurd h (Nat.succ_ne_zero k).symm
  · obtain rfl : front.length = k := by simpa using h
    have hlast := last.toNat_lt
    have htext : hexText (front ++ [last]) = hexText front ++ [(last.toNat / 16).digitChar] ++
        [(last.toNat % 16).digitChar] := by
      unfold hexText
      rw [List.flatMap_append, List.flatMap_singleton, List.append_assoc]
      rfl
    have hbyte : byteAt (front ++ [last]) front.length = last.toNat := by
      unfold byteAt
      rw [List.getD_eq_getElem?_getD, List.getElem?_concat_length]
      rfl
    rw [htext, List.rtake_concat_succ, List.rtake_zero, hbyte]
    exact (Nat.zero_add _).trans (hexValue_digitChar _ (Nat.mod_lt _ (by decide)))

/-- The value is the truncation of the digest. -/
theorem goodValue_hexText (digest : Digest) : goodValue (hexText digest.val) = truncate digest := by
  obtain ⟨bytes, hlength⟩ := digest
  rw [truncate_eq]
  unfold goodValue
  dsimp only
  rw [hexNumber_last hlength, Nat.mul_comm, drop_hexText, show 8 = 2 * 4 from rfl, take_hexText,
    hexNumber_hexText]
  have hoffset : byteAt bytes 19 % 16 + 4 ≤ bytes.length := by omega
  have hfour := take_four hoffset
  generalize byteAt bytes 19 % 16 = offset at hfour ⊢
  have hfold : ((bytes.drop offset).take 4).foldl (fun n byte => 256 * n + byte.toNat) 0 =
      (((bytes.drop offset).take 4).map UInt8.toNat).foldl (fun n byte => 256 * n + byte) 0 :=
    (List.foldl_map).symm
  rw [hfold, hfour, show (0x7fffffff : ℕ) = 2 ^ 31 - 1 from rfl, Nat.and_two_pow_sub_one_eq_mod]
  simp only [List.foldl_cons, List.foldl_nil]
  omega

theorem goodText_eq (size : ℕ) (digest : Digest) :
    goodText size (hexText digest.val) = fixedDigits 10 size (truncate digest) := by
  unfold goodText
  rw [goodValue_hexText, rtake_replicate_append (by decide) le_rfl]

end Texts

/-! ### The tokens that are accepted -/

section Accepted

variable {s : Settings} {now : ℤ}

theorem present_eq (h : 0 ≤ counterAt s now) (hstep : 0 < s.step) :
    present s now = counterAt s now := by
  have hpos : (0 : ℤ) < s.step := Int.natCast_pos.mpr hstep
  have hdiff : 0 ≤ now - s.start := by
    by_contra hneg
    have hlt := Int.fdiv_neg_of_neg_of_pos (not_le.mp hneg) hpos
    exact absurd h (not_le.mpr hlt)
  unfold present counterAt
  rw [Int.tdiv_eq_ediv_of_nonneg hdiff, Int.fdiv_eq_ediv_of_nonneg _ hpos.le]

theorem mem_window {i : ℤ} :
    i ∈ window s now ↔ present s now - s.after ≤ i ∧ i ≤ present s now + s.before := by
  unfold window
  rw [List.mem_map]
  constructor
  · rintro ⟨k, hk, rfl⟩
    have hk := List.mem_range.mp hk
    omega
  · rintro ⟨hle, hge⟩
    refine ⟨(i - (present s now - s.after)).toNat, List.mem_range.mpr ?_, ?_⟩
    · omega
    · omega

theorem checkToken_iff (lib : Library) {secret : Bytes} {token : Text} (hsize : 1 ≤ s.size)
    (hstep : 0 < s.step) (hwindow : 0 ≤ counterAt s now - s.after) :
    checkToken lib s secret now token = true ↔ Valid lib s secret now token := by
  have hpresent : present s now = counterAt s now := present_eq (by omega) hstep
  have hgood : ∀ i ∈ window s now,
      goodText s.size (hmacSha1Hex lib (hexBytes (counterText i)) secret) =
        hotp lib.hmacSha1 secret i.toNat s.size := by
    intro i hi
    have hpos : 0 ≤ i := by
      have hle := (mem_window.mp hi).1
      omega
    rw [hexBytes_counterText hpos, hotp_eq _ _ _ hsize]
    exact goodText_eq _ _
  unfold checkToken Valid
  rw [List.any_eq_true, ← hpresent]
  constructor
  · rintro ⟨i, hi, hsame⟩
    obtain ⟨hle, hge⟩ := mem_window.mp hi
    exact ⟨i, hle, hge, (of_decide_eq_true hsame).symm.trans (hgood i hi)⟩
  · rintro ⟨i, hle, hge, rfl⟩
    have hi := mem_window.mpr ⟨hle, hge⟩
    exact ⟨i, hi, decide_eq_true (hgood i hi)⟩

/-- A user without a stored secret is not let in. -/
theorem accepted_iff (lib : Library) (tenant : Tenant) (login token : Text) :
    authenticateBasic2f lib s tenant login now token = .accepted ↔
      ∃ secret, storedSecret lib tenant login = some secret ∧
        checkToken lib s secret now token = true := by
  unfold authenticateBasic2f storedSecret
  cases tenant.users login with
  | none => simp
  | some user =>
    cases tenant.secretProperty with
    | none => simp
    | some property =>
      cases hvalue : user.properties.lookup property with
      | none => simp [hvalue]
      | some value =>
        cases hsecret : lib.decodeBase32 value with
        | none => simp [hvalue, hsecret]
        | some secret => simp [hvalue, hsecret]

/-- Cutting a password in two loses nothing, and with a window of counters the accepted tokens are
the one-time passwords of its counters. -/
theorem totp_exact (lib : Library) (s : Settings) :
    (∀ passwd, (split s passwd).1 ++ (split s passwd).2 = passwd) ∧
      ∀ (tenant : Tenant) (login : Text) (now : ℤ) (token : Text),
        1 ≤ s.size → 0 < s.step → 0 ≤ counterAt s now - s.after →
          (authenticateBasic2f lib s tenant login now token = .accepted ↔
            ∃ secret, storedSecret lib tenant login = some secret ∧
              Valid lib s secret now token) := by
  refine ⟨fun passwd => List.take_append_drop _ _, ?_⟩
  intro tenant login now token hsize hstep hwindow
  rw [accepted_iff]
  exact exists_congr fun secret => and_congr_right fun _ => checkToken_iff lib hsize hstep hwindow

end Accepted

end Qvd.TotpPlugin
