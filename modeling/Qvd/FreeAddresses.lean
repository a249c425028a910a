import Mathlib.Data.List.Nodup
import Qvd.NetworkRanges

/-!
The default address of a new machine: the API's copy of the network arithmetic, which keeps each
number it has computed once, and the walk down from broadcast in `get_free_ip`, against the range
that the nodes compute from the configuration.
-/
namespace Qvd.FreeAddresses

open LineText NetworkRanges

/-! ### The numbers that are kept -/

section Cache

theorem byteOf_lt (s : Text) : byteOf s < 256 := Nat.mod_lt _ (by decide)

theorem part_lt (parts : List Text) (i : ℕ) : part parts i < 256 := by
  unfold part
  cases parts[i]? with
  | none => decide
  | some s => exact byteOf_lt s

theorem netAton_lt (s : Text) : netAton s < 2 ^ 32 := by
  have h := part_lt (s.splitOn '.')
  have h0 := h 0
  have h1 := h 1
  have h2 := h 2
  have h3 := h 3
  unfold netAton
  dsimp only
  omega

theorem lenton_lt (len : ℕ) : lenton len < 2 ^ 32 := by
  have hle : 0xffffffff / 2 ^ (32 - len) * 2 ^ (32 - len) ≤ 0xffffffff := Nat.div_mul_le_self _ _
  unfold lenton
  rw [Nat.shiftLeft_eq, Nat.shiftRight_eq_div_pow]
  omega

theorem netmaskN_lt (cfg : Config) : netmaskN cfg < 2 ^ 32 := by
  unfold netmaskN
  split
  · exact lenton_lt _
  · exact netAton_lt _

/-- `nettop_n` of a first address and a mask. -/
def topOf (start mask : ℕ) : ℕ := start ||| (0xffffffff &&& ((2 ^ 64 - 1) ^^^ mask))

theorem topOf_lt {start : ℕ} (h : start < 2 ^ 32) (mask : ℕ) : topOf start mask < 2 ^ 32 :=
  Nat.or_lt_two_pow h (Nat.and_le_left.trans_lt (by decide))

/-- `$netmask_n`, `$netstart_n` and `$nettop_n`. -/
structure Cache where
  netmask : Option ℕ
  netstart : Option ℕ
  nettop : Option ℕ
  start_lt : ∀ n ∈ netstart, n < 2 ^ 32
  top_lt : ∀ n ∈ nettop, n < 2 ^ 32

namespace Cache

def empty : Cache := ⟨none, none, none, nofun, nofun⟩

variable (cache : Cache) (cfg : Config)

/-- `netstart_n`. -/
def netstartN : ℕ := cache.netstart.getD (NetworkRanges.netstartN cfg)

/-- `netmask_n`. -/
def netmaskN : ℕ := cache.netmask.getD (NetworkRanges.netmaskN cfg)

/-- `nettop_n`. -/
def nettopN : ℕ := cache.nettop.getD (topOf (cache.netstartN cfg) (cache.netmaskN cfg))

theorem netstartN_lt : cache.netstartN cfg < 2 ^ 32 := by
  unfold netstartN
  cases h : cache.netstart with
  | none => exact netAton_lt _
  | some n => exact cache.start_lt n h

theorem nettopN_lt : cache.nettopN cfg < 2 ^ 32 := by
  unfold nettopN
  cases h : cache.nettop with
  | none => exact topOf_lt (cache.netstartN_lt cfg) _
  | some n => exact cache.top_lt n h

/-- What a call of `nettop_n` and `netstart_n` leaves: a number that is kept already hides the
ones it would be computed from. -/
def filled : Cache where
  netmask := if cache.nettop.isSome then cache.netmask else some (cache.netmaskN cfg)
  netstart := some (cache.netstartN cfg)
  nettop := some (cache.nettopN cfg)
  start_lt := fun _ h => Option.some.inj h ▸ cache.netstartN_lt cfg
  top_lt := fun _ h => Option.some.inj h ▸ cache.nettopN_lt cfg

end Cache

end Cache

/-! ### The search -/

section Search

/-- `while ($nettop-- > $netstart)`: the number is tried after it was decremented. -/
def search (ips : ℕ → Bool) (netstart : ℕ) : ℕ → Option ℕ
  | 0 => none
  | top + 1 =>
    if top + 1 > netstart then
      if ips top then search ips netstart top else some top
    else none

/-- A machine without an address splits into nothing, which is packed as zeros. -/
def addressOf (ip : Option Text) : ℕ := (ip.map netAton).getD 0

def ips (vms : List (Option Text)) (a : ℕ) : Bool := vms.any fun ip => addressOf ip = a

/-- `get_free_ip`, with the addresses of all machines; `none` is the death. -/
def getFreeIp (cfg : Config) (cache : Cache) (vms : List (Option Text)) : Option Text × Cache :=
  ((search (ips vms) (cache.netstartN cfg) (cache.nettopN cfg)).map fun n => netNtoa n,
    cache.filled cfg)

end Search

/-! ### What it should find -/

section Purpose

/-- No machine has the address. -/
def Free (vms : List (Option Text)) (a : ℕ) : Prop := ∀ ip, some ip ∈ vms → netAton ip ≠ a

/-- The result is a free address of the machines' range, and there is none only if no address of
the range is free. -/
def Lawful (cfg : Config) (cache : Cache) (vms : List (Option Text)) : Prop :=
  (∃ a : ℕ, (getFreeIp cfg cache vms).1 = some (netNtoa a) ∧ (vmRange cfg).Has a ∧ Free vms a) ∨
    (getFreeIp cfg cache vms).1 = none ∧ ∀ a, (vmRange cfg).Has a → ¬Free vms a

/-- The addresses of the machines in the database are different. -/
def Distinct (vms : List (Option Text)) : Prop := (vms.filterMap fun ip => ip).Nodup

/-- The numbers that are kept give the range of the configuration, and 0.0.0.0, which a machine
without an address is taken to have, is not in it. -/
structure Sound (cfg : Config) (cache : Cache) : Prop where
  current : ∀ a, cache.netstartN cfg ≤ a ∧ a < cache.nettopN cfg ↔ (vmRange cfg).Has a
  no_zero : ¬(vmRange cfg).Has 0

end Purpose

/-! ### What it finds -/

section Found

variable {p : ℕ → Bool} {start top a : ℕ}

/-- The search finds the highest number that is not taken. -/
theorem search_spec (p : ℕ → Bool) (start top : ℕ) :
    match search p start top with
    | some a => start ≤ a ∧ a < top ∧ p a = false
    | none => ∀ a, start ≤ a → a < top → p a = true := by
  induction top with
  | zero => exact fun a _ h => absurd h (Nat.not_lt_zero a)
  | succ top ih =>
    unfold search
    by_cases hstart : top + 1 > start
    · rw [if_pos hstart]
      by_cases htop : p top = true
      · rw [if_pos htop]
        revert ih
        cases search p start top with
        | some a => exact fun ih => ⟨ih.1, Nat.lt_succ_of_lt ih.2.1, ih.2.2⟩
        | none =>
          intro ih a hle hlt
          rcases Nat.lt_succ_iff_lt_or_eq.mp hlt with hlt | rfl
          · exact ih a hle hlt
          · exact htop
      · rw [if_neg htop]
        exact ⟨Nat.le_of_lt_succ hstart, Nat.lt_succ_self top, by simpa using htop⟩
    · rw [if_neg hstart]
      exact fun a hle hlt => absurd (Nat.lt_of_le_of_lt hle hlt) hstart

theorem search_eq_some (h : search p start top = some a) :
    start ≤ a ∧ a < top ∧ p a = false := by
  have hspec := search_spec p start top
  rwa [h] at hspec

theorem search_eq_none (h : search p start top = none) :
    ∀ a, start ≤ a → a < top → p a = true := by
  have hspec := search_spec p start top
  rwa [h] at hspec

variable {vms : List (Option Text)} {cfg : Config} {cache : Cache}

theorem ips_iff : ips vms a = true ↔ ∃ ip ∈ vms, addressOf ip = a := by
  unfold ips
  simp only [List.any_eq_true, decide_eq_true_eq]

theorem free_of_ips (h : ips vms a = false) : Free vms a := by
  intro ip hmem hsame
  have htaken : ips vms a = true := ips_iff.mpr ⟨some ip, hmem, hsame⟩
  rw [h] at htaken
  cases htaken

theorem not_free_of_ips (h : ips vms a = true) (ha : a ≠ 0) : ¬Free vms a := by
  intro hfree
  obtain ⟨ip, hmem, hsame⟩ := ips_iff.mp h
  cases ip with
  | none => exact ha hsame.symm
  | some ip => exact hfree ip hmem hsame

theorem lawful_of_sound (h : Sound cfg cache) (vms : List (Option Text)) :
    Lawful cfg cache vms := by
  unfold Lawful getFreeIp
  dsimp only
  cases hsearch : search (ips vms) (cache.netstartN cfg) (cache.nettopN cfg) with
  | some a =>
    obtain ⟨hle, hlt, hips⟩ := search_eq_some hsearch
    exact .inl ⟨a, rfl, (h.current a).mp ⟨hle, hlt⟩, free_of_ips hips⟩
  | none =>
    refine .inr ⟨rfl, fun a ha => ?_⟩
    obtain ⟨hle, hlt⟩ := (h.current a).mpr ha
    refine not_free_of_ips (search_eq_none hsearch a hle hlt) ?_
    rintro rfl
    exact h.no_zero ha

/-- Machines with all addresses below a number but one. -/
def allBut (top a : ℕ) : List (Option Text) :=
  ((List.range top).filter fun b : ℕ => b ≠ a).map fun b : ℕ => some (netNtoa b)

theorem netNtoa_inj {b : ℕ} (ha : a < 2 ^ 32) (hb : b < 2 ^ 32) (h : netNtoa a = netNtoa b) :
    a = b := by
  rw [← netAton_netNtoa ha, h, netAton_netNtoa hb]

theorem distinct_allBut (htop : top < 2 ^ 32) : Distinct (allBut top a) := by
  unfold Distinct allBut
  rw [List.filterMap_map]
  change (List.filterMap (some ∘ fun b : ℕ => netNtoa b) _).Nodup
  rw [List.filterMap_eq_map]
  refine List.Nodup.map_on (fun b hb c hc hsame => ?_) (List.nodup_range.filter _)
  have hbound : ∀ {b}, b ∈ (List.range top).filter (fun b : ℕ => b ≠ a) → b < 2 ^ 32 := fun hmem =>
    (List.mem_range.mp (List.mem_filter.mp hmem).1).trans htop
  exact netNtoa_inj (hbound hb) (hbound hc) hsame

theorem addressOf_netNtoa (ha : a < 2 ^ 32) : addressOf (some (netNtoa a)) = a :=
  netAton_netNtoa ha

theorem mem_allBut {ip : Option Text} :
    ip ∈ allBut top a ↔ ∃ b, b < top ∧ b ≠ a ∧ some (netNtoa b) = ip := by
  unfold allBut
  simp only [List.mem_map, List.mem_filter, List.mem_range, decide_eq_true_eq, and_assoc]

theorem ips_allBut (htop : top < 2 ^ 32) {b : ℕ} (hb : b < top) :
    ips (allBut top a) b = true ↔ b ≠ a := by
  rw [ips_iff]
  constructor
  · rintro ⟨ip, hmem, hsame⟩
    obtain ⟨c, hc, hne, rfl⟩ := mem_allBut.mp hmem
    rw [addressOf_netNtoa (hc.trans htop)] at hsame
    exact hsame ▸ hne
  · intro hne
    exact ⟨_, mem_allBut.mpr ⟨b, hb, hne, rfl⟩, addressOf_netNtoa (hb.trans htop)⟩

theorem free_allBut (htop : top < 2 ^ 32) : Free (allBut top a) a := by
  intro ip hmem hsame
  obtain ⟨b, hb, hne, hip⟩ := mem_allBut.mp hmem
  rw [← Option.some.inj hip, netAton_netNtoa (hb.trans htop)] at hsame
  exact hne hsame

theorem vmRange_lt (h : (vmRange cfg).Has a) : a < 2 ^ 32 := by
  have htop : NetworkRanges.nettopN cfg < 2 ^ 32 := topOf_lt (netAton_lt cfg.start) _
  have hle : (a : ℤ) ≤ NetworkRanges.nettopN cfg - 1 := h.2
  omega

theorem search_of_taken (h : ∀ b, start ≤ b → b < top → p b = true) :
    search p start top = none := by
  cases hsearch : search p start top with
  | none => rfl
  | some c =>
    obtain ⟨hle, hlt, hfree⟩ := search_eq_some hsearch
    rw [h c hle hlt] at hfree
    cases hfree

theorem getFreeIp_of_taken
    (h : ∀ b, cache.netstartN cfg ≤ b → b < cache.nettopN cfg → ips vms b = true) :
    (getFreeIp cfg cache vms).1 = none := by
  unfold getFreeIp
  rw [search_of_taken h]
  rfl

/-- With all machines but one address of the range that is kept, that address is found. -/
theorem getFreeIp_allBut (hle : cache.netstartN cfg ≤ a) (hlt : a < cache.nettopN cfg) :
    (getFreeIp cfg cache (allBut (cache.nettopN cfg) a)).1 = some (netNtoa a) := by
  have htop := cache.nettopN_lt cfg
  unfold getFreeIp
  dsimp only
  cases hsearch : search (ips (allBut (cache.nettopN cfg) a)) (cache.netstartN cfg)
      (cache.nettopN cfg) with
  | some b =>
    obtain ⟨-, hb, hfree⟩ := search_eq_some hsearch
    obtain rfl : b = a := by
      by_contra hne
      rw [(ips_allBut htop hb).mpr hne] at hfree
      cases hfree
    rfl
  | none =>
    exact absurd (search_eq_none hsearch a hle hlt) fun htaken =>
      (ips_allBut htop hlt).mp htaken rfl

theorem current_of_lawful (h : ∀ vms, Distinct vms → Lawful cfg cache vms) (a : ℕ) :
    cache.netstartN cfg ≤ a ∧ a < cache.nettopN cfg ↔ (vmRange cfg).Has a := by
  have htop := cache.nettopN_lt cfg
  have hlawful := h (allBut (cache.nettopN cfg) a) (distinct_allBut htop)
  constructor
  · rintro ⟨hle, hlt⟩
    rcases hlawful with ⟨b, hfound, hrange, -⟩ | ⟨hnone, -⟩
    · rw [getFreeIp_allBut hle hlt] at hfound
      rwa [netNtoa_inj (hlt.trans htop) (vmRange_lt hrange) (Option.some.inj hfound)]
    · rw [getFreeIp_allBut hle hlt] at hnone
      cases hnone
  · intro hrange
    by_contra hout
    have htaken : ∀ b, cache.netstartN cfg ≤ b → b < cache.nettopN cfg →
        ips (allBut (cache.nettopN cfg) a) b = true := by
      intro b hle hlt
      refine (ips_allBut htop hlt).mpr ?_
      rintro rfl
      exact hout ⟨hle, hlt⟩
    have hnone : (getFreeIp cfg cache (allBut (cache.nettopN cfg) a)).1 = none :=
      getFreeIp_of_taken htaken
    rcases hlawful with ⟨b, hfound, -⟩ | ⟨-, hall⟩
    · rw [hnone] at hfound
      cases hfound
    · exact hall a hrange (free_allBut htop)

theorem no_zero_of_lawful (h : ∀ vms, Distinct vms → Lawful cfg cache vms) :
    ¬(vmRange cfg).Has 0 := by
  intro hzero
  have htop := cache.nettopN_lt cfg
  have htaken : ∀ b, cache.netstartN cfg ≤ b → b < cache.nettopN cfg →
      ips (none :: allBut (cache.nettopN cfg) 0) b = true := by
    intro b _ hlt
    rw [ips_iff]
    by_cases hb : b = 0
    · exact ⟨none, List.mem_cons_self, hb.symm⟩
    · obtain ⟨ip, hmem, hsame⟩ := ips_iff.mp ((ips_allBut htop hlt).mpr hb)
      exact ⟨ip, List.mem_cons_of_mem _ hmem, hsame⟩
  have hnone : (getFreeIp cfg cache (none :: allBut (cache.nettopN cfg) 0)).1 = none :=
    getFreeIp_of_taken htaken
  have hdistinct : Distinct (none :: allBut (cache.nettopN cfg) 0) := distinct_allBut htop
  rcases h _ hdistinct with ⟨b, hfound, -⟩ | ⟨-, hall⟩
  · rw [hnone] at hfound
    cases hfound
  · refine hall 0 hzero fun ip hmem => free_allBut htop ip ?_
    exact (List.mem_cons.mp hmem).resolve_left (by simp)

/-- The default address is right for all machines exactly where the numbers that are kept give the
range of the configuration and 0.0.0.0 is not in it. -/
theorem free_ips_iff (cfg : Config) (cache : Cache) :
    (∀ vms, Distinct vms → Lawful cfg cache vms) ↔ Sound cfg cache :=
  ⟨fun h => ⟨current_of_lawful h, no_zero_of_lawful h⟩, fun h vms _ => lawful_of_sound h vms⟩

/-- The numbers of a /29 with its machines from 10.0.0.1 on. -/
def keptNumbers : Cache := Cache.empty.filled ⟨"29".toList, "10.0.0.1".toList⟩

/-- After the first address was moved to 10.0.0.4 a machine gets one of the nodes' addresses. -/
theorem old_range_kept :
    ¬Lawful ⟨"29".toList, "10.0.0.4".toList⟩ keptNumbers
      [some "10.0.0.4".toList, some "10.0.0.5".toList, some "10.0.0.6".toList] := by
  have hfound : (getFreeIp ⟨"29".toList, "10.0.0.4".toList⟩ keptNumbers
      [some "10.0.0.4".toList, some "10.0.0.5".toList, some "10.0.0.6".toList]).1 =
        some "10.0.0.3".toList := by decide +kernel
  unfold Lawful
  rw [hfound]
  rintro (⟨a, hsame, hrange, -⟩ | ⟨hnone, -⟩)
  · have ha := congrArg netAton (Option.some.inj hsame)
    rw [netAton_netNtoa (vmRange_lt hrange)] at ha
    have hle : (netAton "10.0.0.4".toList : ℤ) ≤ a := hrange.1
    rw [← ha] at hle
    exact absurd hle (by decide +kernel)
  · cases hnone

end Found

end Qvd.FreeAddresses
