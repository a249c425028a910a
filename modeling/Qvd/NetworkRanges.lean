import Qvd.LineText
import Qvd.PrefixMasks

/-!
The network of the virtual machines: addresses as texts and as numbers, the netmask in either of
its notations, and the ranges of the nodes and of the machines, with the check of the node's own
address against them.
-/
namespace Qvd.NetworkRanges

open LineText PrefixMasks

/-! ### Addresses -/

section Addresses

/-- What `pack 'C'` makes of a part: the digits at its front, as a byte. -/
def byteOf (part : Text) : ℕ := Nat.ofDigitChars 10 (part.takeWhile Char.isDigit) 0 % 256

def part (parts : List Text) (i : ℕ) : ℕ := ((parts[i]?).map byteOf).getD 0

/-- `net_aton`: `unpack('N', pack('C4', split /\./, shift))`. -/
def netAton (s : Text) : ℕ :=
  let parts := s.splitOn '.'
  part parts 0 * 2 ^ 24 + part parts 1 * 2 ^ 16 + part parts 2 * 2 ^ 8 + part parts 3

def dotted (a b c d : ℕ) : Text :=
  Nat.toDigits 10 a ++ '.' :: (Nat.toDigits 10 b ++ '.' ::
    (Nat.toDigits 10 c ++ '.' :: Nat.toDigits 10 d))

/-- `net_ntoa`: `pack 'N'` takes the number modulo 2^32. -/
def netNtoa (n : ℤ) : Text :=
  let m := (n % 2 ^ 32).toNat
  dotted (m / 2 ^ 24) (m / 2 ^ 16 % 256) (m / 2 ^ 8 % 256) (m % 256)

/-- `lenton`. The numbers have 64 bits, so nothing is shifted out. -/
def lenton (len : ℕ) : ℕ :=
  let zeros := 32 - len
  (0xffffffff >>> zeros) <<< zeros

end Addresses

/-! ### The configuration -/

section Config

/-- `vm.network.netmask` and `vm.network.ip.start`. -/
structure Config where
  netmask : Text
  start : Text

/-- `/^\d+$/`, which allows a line feed at the end. -/
def isNumber (s : Text) : Bool :=
  let s := if s.getLast? = some '\n' then s.dropLast else s
  !s.isEmpty && s.all Char.isDigit

def number (s : Text) : ℕ := Nat.ofDigitChars 10 (s.takeWhile Char.isDigit) 0

variable (cfg : Config)

def netmaskN : ℕ := if isNumber cfg.netmask then lenton (number cfg.netmask) else netAton cfg.netmask

def netstartN : ℕ := netAton cfg.start

def networkN : ℕ := netstartN cfg &&& netmaskN cfg

def netmaskLen : ℕ := ((List.range 32).map fun i => (netmaskN cfg >>> i) &&& 1).sum

/-- The complement is one of 64 bits. -/
def nettopN : ℕ := netstartN cfg ||| (0xffffffff &&& ((2 ^ 64 - 1) ^^^ netmaskN cfg))

/-- The ends of a range. -/
abbrev Range := ℤ × ℤ

def Range.text (r : Range) : Text := netNtoa r.1 ++ '-' :: netNtoa r.2

def Range.Has (r : Range) (a : ℕ) : Prop := r.1 ≤ a ∧ (a : ℤ) ≤ r.2

def nodeRange : Range := (networkN cfg + 1, netstartN cfg - 1)

def vmRange : Range := (netstartN cfg, nettopN cfg - 1)

def netnodes : Text := (nodeRange cfg).text

def netvms : Text := (vmRange cfg).text

/-- `_check_address`: whether it is done or in error. The address has been looked for among those
of the interfaces. -/
def checkAddress (enabled onInterface : Bool) (address : Text) : Bool :=
  if !enabled then true
  else if !onInterface then false
  else !(netAton address ≤ networkN cfg || netstartN cfg ≤ netAton address)

end Config

/-! ### What the ranges should be -/

section Purpose

/-- A network: the mask has its `len` ones in front, in either notation, and the first address of
a machine is an address below broadcast. -/
structure Network where
  cfg : Config
  len : ℕ
  len_le : len ≤ 32
  mask : isNumber cfg.netmask = true ∧ number cfg.netmask = len ∨
    cfg.netmask = netNtoa (lenton len)
  quad : ∃ s : ℕ, s < 2 ^ 32 ∧ cfg.start = netNtoa s
  below : netstartN cfg < nettopN cfg

/-- The addresses of the network. -/
def Inside (cfg : Config) (a : ℕ) : Prop := a < 2 ^ 32 ∧ a &&& netmaskN cfg = networkN cfg

/-- Every address is the network's or broadcast or in one of two ranges, and the node's is in the
first. -/
structure Partitioned (cfg : Config) (address : Text) : Prop where
  nodes_ordered : (nodeRange cfg).1 ≤ (nodeRange cfg).2
  vms_ordered : (vmRange cfg).1 ≤ (vmRange cfg).2
  inside : ∀ a, (nodeRange cfg).Has a ∨ (vmRange cfg).Has a → Inside cfg a
  disjoint : ∀ a, (nodeRange cfg).Has a → ¬(vmRange cfg).Has a
  no_network : ¬(nodeRange cfg).Has (networkN cfg) ∧ ¬(vmRange cfg).Has (networkN cfg)
  no_broadcast : ¬(nodeRange cfg).Has (nettopN cfg) ∧ ¬(vmRange cfg).Has (nettopN cfg)
  cover : ∀ a, Inside cfg a → a ≠ networkN cfg → a ≠ nettopN cfg →
    (nodeRange cfg).Has a ∨ (vmRange cfg).Has a
  host : (nodeRange cfg).Has (netAton address)

end Purpose

/-! ### Texts and numbers -/

section Texts

theorem byteOf_toDigits {b : ℕ} (hb : b < 256) : byteOf (Nat.toDigits 10 b) = b := by
  have htake : (Nat.toDigits 10 b).takeWhile Char.isDigit = Nat.toDigits 10 b :=
    List.takeWhile_eq_self_iff.mpr fun _ hc =>
      Nat.isDigit_of_mem_toDigits (by decide) (by decide) hc
  unfold byteOf
  rw [htake, Nat.ofDigitChars_ten_toDigits, Nat.mod_eq_of_lt hb]

theorem splitOn_dotted (a b c d : ℕ) : (dotted a b c d).splitOn '.' =
    [Nat.toDigits 10 a, Nat.toDigits 10 b, Nat.toDigits 10 c, Nat.toDigits 10 d] := by
  have hno : ∀ n, '.' ∉ Nat.toDigits 10 n := fun n hmem =>
    absurd (Nat.isDigit_of_mem_toDigits (by decide) (by decide) hmem) (by decide)
  unfold dotted
  rw [List.splitOn_append_cons_self_of_not_mem (hno a),
    List.splitOn_append_cons_self_of_not_mem (hno b),
    List.splitOn_append_cons_self_of_not_mem (hno c), List.splitOn_eq_singleton (hno d)]

theorem netAton_dotted {a b c d : ℕ} (ha : a < 256) (hb : b < 256) (hc : c < 256) (hd : d < 256) :
    netAton (dotted a b c d) = a * 2 ^ 24 + b * 2 ^ 16 + c * 2 ^ 8 + d := by
  unfold netAton
  rw [splitOn_dotted]
  change byteOf (Nat.toDigits 10 a) * 2 ^ 24 + byteOf (Nat.toDigits 10 b) * 2 ^ 16 +
    byteOf (Nat.toDigits 10 c) * 2 ^ 8 + byteOf (Nat.toDigits 10 d) = _
  rw [byteOf_toDigits ha, byteOf_toDigits hb, byteOf_toDigits hc, byteOf_toDigits hd]

theorem netNtoa_ofNat {n : ℕ} (h : n < 2 ^ 32) : netNtoa n =
    dotted (n / 2 ^ 24) (n / 2 ^ 16 % 256) (n / 2 ^ 8 % 256) (n % 256) := by
  have hmod : ((n : ℤ) % 2 ^ 32).toNat = n := by omega
  unfold netNtoa
  rw [hmod]

theorem netAton_netNtoa {n : ℕ} (h : n < 2 ^ 32) : netAton (netNtoa n) = n := by
  rw [netNtoa_ofNat h, netAton_dotted (by omega) (by omega) (by omega) (by omega)]
  omega

theorem netNtoa_netAton {a b c d : ℕ} (ha : a < 256) (hb : b < 256) (hc : c < 256)
    (hd : d < 256) : netNtoa (netAton (dotted a b c d)) = dotted a b c d := by
  rw [netAton_dotted ha hb hc hd, netNtoa_ofNat (by omega)]
  congr 1 <;> omega

end Texts

/-! ### The mask and what it makes of the first address -/

section Masks

theorem lenton_eq {len : ℕ} (h : len ≤ 32) : lenton len = highMask len (32 - len) := by
  unfold lenton highMask
  dsimp only
  have hones : (0xffffffff : ℕ) >>> (32 - len) = 2 ^ len - 1 := by
    refine Nat.eq_of_testBit_eq fun i => ?_
    rw [Nat.testBit_shiftRight, show (0xffffffff : ℕ) = 2 ^ 32 - 1 by rfl,
      Nat.testBit_two_pow_sub_one, Nat.testBit_two_pow_sub_one]
    exact decide_eq_decide.mpr (by omega)
  rw [hones]

theorem isNumber_of_dot {s : Text} (h : '.' ∈ s) : isNumber s = false := by
  have hall : ∀ t : Text, '.' ∈ t → (!t.isEmpty && t.all Char.isDigit) = false := by
    intro t ht
    have hnot : t.all Char.isDigit = false := List.all_eq_false.mpr ⟨'.', ht, by decide⟩
    rw [hnot, Bool.and_false]
  unfold isNumber
  dsimp only
  split
  · rename_i hlast
    refine hall _ ?_
    obtain ⟨front, rfl⟩ := List.getLast?_eq_some_iff.mp hlast
    rw [List.dropLast_concat]
    exact (List.mem_append.mp h).resolve_right (by decide)
  · exact hall s h

theorem dot_mem_netNtoa (n : ℤ) : '.' ∈ netNtoa n :=
  List.mem_append_right _ List.mem_cons_self

variable (net : Network)

theorem Network.netmaskN_eq : netmaskN net.cfg = highMask net.len (32 - net.len) := by
  have hlt : lenton net.len < 2 ^ 32 := by
    have hbound := highMask_lt (p := net.len) (z := 32 - net.len)
    rw [lenton_eq net.len_le]
    rwa [Nat.add_sub_cancel' net.len_le] at hbound
  unfold netmaskN
  rcases net.mask with ⟨hnumber, hlen⟩ | hdotted
  · rw [if_pos hnumber, hlen, lenton_eq net.len_le]
  · have hnot : isNumber net.cfg.netmask = false := hdotted ▸ isNumber_of_dot (dot_mem_netNtoa _)
    rw [hnot, if_neg Bool.false_ne_true, hdotted, netAton_netNtoa hlt, lenton_eq net.len_le]

theorem Network.netstartN_lt : netstartN net.cfg < 2 ^ 32 := by
  obtain ⟨s, hs, hstart⟩ := net.quad
  unfold netstartN
  rw [hstart, netAton_netNtoa hs]
  exact hs

/-- The mask clears the low bits of an address. -/
theorem Network.and_netmaskN {a : ℕ} (ha : a < 2 ^ 32) :
    a &&& netmaskN net.cfg = a / 2 ^ (32 - net.len) * 2 ^ (32 - net.len) := by
  rw [net.netmaskN_eq]
  refine and_highMask ?_
  rwa [Nat.add_sub_cancel' net.len_le]

theorem Network.networkN_eq : networkN net.cfg =
    netstartN net.cfg / 2 ^ (32 - net.len) * 2 ^ (32 - net.len) :=
  net.and_netmaskN net.netstartN_lt

/-- Broadcast is the last of the addresses from the network's on. -/
theorem Network.nettopN_eq :
    nettopN net.cfg = networkN net.cfg + (2 ^ (32 - net.len) - 1) := by
  have hones : (0xffffffff : ℕ) &&& ((2 ^ 64 - 1) ^^^ netmaskN net.cfg) =
      2 ^ (32 - net.len) - 1 := by
    have hlen : net.len + (32 - net.len) = 32 := Nat.add_sub_cancel' net.len_le
    have hand := allOnes_and_not_highMask (p := net.len) (z := 32 - net.len) (w := 64) (by omega)
    rw [hlen] at hand
    rw [net.netmaskN_eq]
    exact hand
  unfold nettopN
  rw [hones, or_lowBits, net.networkN_eq]

/-- An address is inside from the network's to broadcast. -/
theorem Network.inside_iff {a : ℕ} :
    Inside net.cfg a ↔ networkN net.cfg ≤ a ∧ a ≤ nettopN net.cfg := by
  have hpos : 0 < 2 ^ (32 - net.len) := Nat.two_pow_pos _
  have htop := net.nettopN_eq
  have hsum : networkN net.cfg + 2 ^ (32 - net.len) ≤ 2 ^ 32 := by
    have hlt := net.netstartN_lt
    have hpow : 2 ^ net.len * 2 ^ (32 - net.len) = 2 ^ 32 := by
      rw [← Nat.pow_add, Nat.add_sub_cancel' net.len_le]
    rw [← hpow] at hlt ⊢
    rw [net.networkN_eq, ← Nat.succ_mul]
    exact Nat.mul_le_mul_right _ (Nat.div_lt_of_lt_mul (by rwa [Nat.mul_comm]))
  constructor
  · rintro ⟨ha, hsame⟩
    rw [net.and_netmaskN ha] at hsame
    have hdiv := Nat.div_add_mod' a (2 ^ (32 - net.len))
    have hmod := Nat.mod_lt a hpos
    omega
  · rintro ⟨hle, hge⟩
    have ha : a < 2 ^ 32 := by omega
    refine ⟨ha, ?_⟩
    rw [net.and_netmaskN ha, net.networkN_eq]
    rw [net.networkN_eq] at hle htop
    have hdiv : a / 2 ^ (32 - net.len) = netstartN net.cfg / 2 ^ (32 - net.len) := by
      refine Nat.div_eq_of_lt_le hle ?_
      rw [Nat.succ_mul]
      omega
    rw [hdiv]

theorem Network.networkN_le : networkN net.cfg ≤ netstartN net.cfg := by
  rw [net.networkN_eq]
  exact Nat.div_mul_le_self _ _

end Masks

/-! ### The partition -/

section Partition

theorem of_checkAddress {cfg : Config} {onInterface : Bool} {address : Text}
    (h : checkAddress cfg true onInterface address = true) :
    networkN cfg < netAton address ∧ netAton address < netstartN cfg := by
  unfold checkAddress at h
  cases onInterface with
  | false => exact absurd h (by simp)
  | true => simpa using h

theorem partitioned_of_between (net : Network) {address : Text}
    (h : networkN net.cfg < netAton address ∧ netAton address < netstartN net.cfg) :
    Partitioned net.cfg address := by
  have hbelow := net.below
  have hle := net.networkN_le
  obtain ⟨habove, hhost⟩ := h
  constructor
  all_goals simp only [nodeRange, vmRange, Range.Has, net.inside_iff]
  · omega
  · omega
  · intro a
    omega
  · intro a
    omega
  · omega
  · omega
  · intro a
    omega
  · omega

/-- With the check of the address on, the ranges of the nodes and of the machines part the
addresses of the network, with the node's own among the first; addresses and texts belong to each
other, and the mask's ones are counted. -/
theorem network_partitioned :
    (∀ n : ℕ, n < 2 ^ 32 → netAton (netNtoa n) = n) ∧
      (∀ a < 256, ∀ b < 256, ∀ c < 256, ∀ d < 256,
        netNtoa (netAton (dotted a b c d)) = dotted a b c d) ∧
      (∀ net : Network, netmaskLen net.cfg = net.len) ∧
      ∀ (net : Network) (onInterface : Bool) (address : Text),
        checkAddress net.cfg true onInterface address = true → Partitioned net.cfg address := by
  refine ⟨fun n hn => netAton_netNtoa hn, fun a ha b hb c hc d hd => netNtoa_netAton ha hb hc hd,
    fun net => ?_, fun net onInterface address h => partitioned_of_between net (of_checkAddress h)⟩
  have hsum := sum_bits_highMask (p := net.len) (z := 32 - net.len)
  rw [Nat.add_sub_cancel' net.len_le, ← net.netmaskN_eq] at hsum
  exact hsum

/-- 10.0.0.0/24 with its machines from 10.0.0.100 on. -/
def smallNetwork : Network where
  cfg := ⟨"24".toList, "10.0.0.100".toList⟩
  len := 24
  len_le := by decide
  mask := .inl ⟨by decide, by decide⟩
  quad := ⟨167772260, by decide, by decide⟩
  below := by decide

/-- Without the check any address is taken. -/
theorem unchecked_outside :
    ¬∀ (net : Network) (enabled onInterface : Bool) (address : Text),
      checkAddress net.cfg enabled onInterface address = true → Partitioned net.cfg address := by
  intro h
  have hhost := (h smallNetwork false true "192.168.0.1".toList rfl).host
  exact absurd hhost.2 (by decide)

end Partition

end Qvd.NetworkRanges
