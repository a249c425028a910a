import Qvd.Runs
import Mathlib.Data.List.Dedup
import Mathlib.Data.List.Perm.Basic
import Mathlib.Logic.Function.Basic

/-!
The CPUs of a host and the sets of them the handlers of machines reserve: how many sets each
CPU is in, and which CPUs a set is made of. Handlers reserve and release in any order; one
that has nothing reserved releases nothing.
-/
namespace Qvd.CpuSets

open Runs

abbrev HandlerId := ℕ

/-- A key of the hash of CPUs: a number, or the empty string an undefined CPU reads as. -/
abbrev Key := Option ℕ

def number (k : Key) : ℕ := k.getD 0

/-- The hash of CPUs. -/
structure Cpus where
  keys : List Key
  count : Key → ℤ

/-- The CPUs of the ranges in `cpuset.cpus`, in no set yet. -/
def newCpus (ranges : List (ℕ × ℕ)) : Cpus where
  keys := (ranges.flatMap fun r => List.range' r.1 (r.2 + 1 - r.1)).dedup.map some
  count := fun _ => 0

/-- Writing to a key that is not there makes it. -/
def Cpus.set (t : Cpus) (k : Key) (v : ℤ) : Cpus where
  keys := if k ∈ t.keys then t.keys else t.keys ++ [k]
  count := Function.update t.count k v

/-- The order of the sort: by the counter, then by the number. -/
def Cpus.before (t : Cpus) (a b : Key) : Bool :=
  t.count a < t.count b || (t.count a = t.count b && number a ≤ number b)

/-- `(...)[0..$n-1]`: undefined past the end of a list, and empty of the empty list. -/
def slice (l : List Key) (n : ℕ) : List Key :=
  if l = [] then [] else (List.range n).map fun i => l[i]?.join

/-- The CPUs taken, when the keys come in the given order. -/
def Cpus.best (t : Cpus) (keys : List Key) (n : ℕ) : List Key :=
  slice (keys.mergeSort t.before) n

def Cpus.increment (t : Cpus) (k : Key) : Cpus := t.set k (t.count k + 1)

/-- A counter that gets negative is an error, and set to 0. -/
def Cpus.decrement (t : Cpus) (k : Key) : Cpus :=
  let t := t.set k (t.count k - 1)
  if t.count k < 0 then t.set k 0 else t

def reserveCpuset (t : Cpus) (keys : List Key) (n : ℕ) : Cpus × List Key :=
  ((t.best keys n).foldl Cpus.increment t, t.best keys n)

def releaseCpuset (t : Cpus) (set : List Key) : Cpus := set.foldl Cpus.decrement t

/-- The hypervisor's hash, and what each handler has in `cpus`. -/
structure World where
  table : Cpus
  cpus : HandlerId → Option (List Key)

inductive Call
  /-- `_create_lxc`, with the order in which the keys of the hash come -/
  | createLxc (h : HandlerId) (keys : List Key) (n : ℕ)
  | releaseCpuset (h : HandlerId)

def createLxc (w : World) (h : HandlerId) (keys : List Key) (n : ℕ) : World where
  table := (reserveCpuset w.table keys n).1
  cpus := Function.update w.cpus h (some (reserveCpuset w.table keys n).2)

/-- `_release_cpuset` -/
def release (w : World) (h : HandlerId) : World :=
  match w.cpus h with
  | some set =>
    { table := CpuSets.releaseCpuset w.table set, cpus := Function.update w.cpus h none }
  | none => w

def cpuSets (ranges : List (ℕ × ℕ)) : System World Call where
  init w := w.table = newCpus ranges ∧ w.cpus = fun _ => none
  step w c w' :=
    match c with
    | .createLxc h keys n => keys.Perm w.table.keys ∧ w' = createLxc w h keys n
    | .releaseCpuset h => w' = release w h

/-! ### What is asked of the table -/

/-- The reservations made and not released, with the handlers that made them. -/
def outstanding : List (World × Call) → List (HandlerId × List Key)
  | [] => []
  | (w, .createLxc h keys n) :: past => (h, (reserveCpuset w.table keys n).2) :: outstanding past
  | (w, .releaseCpuset h) :: past =>
    match w.cpus h with
    | some set => (outstanding past).erase (h, set)
    | none => outstanding past

/-- As many different CPUs as asked for, or all there are, and none with a greater counter
than one left out. -/
structure Fair (t : Cpus) (n : ℕ) (set : List Key) : Prop where
  size : set.length = min n t.keys.length
  distinct : set.Nodup
  exist : ∀ k ∈ set, k ∈ t.keys
  least : ∀ k ∈ set, ∀ k' ∈ t.keys, k' ∉ set → t.count k ≤ t.count k'

/-- The table accounts for the calls made so far. -/
structure Accounts (ranges : List (ℕ × ℕ)) (past : List (World × Call)) (w : World) : Prop where
  same : w.table.keys = (newCpus ranges).keys
  counted : ∀ k ∈ w.table.keys,
    w.table.count k = (outstanding past).countP (fun r => decide (k ∈ r.2))
  fair : ∀ s h keys n older, past = (s, .createLxc h keys n) :: older →
    Fair s.table n (reserveCpuset s.table keys n).2
  sets : ∀ r ∈ outstanding past, r.2.Nodup ∧ ∀ k ∈ r.2, k ∈ w.table.keys
  held : ∀ h set, w.cpus h = some set → (h, set) ∈ outstanding past

/-- A reservation asks for no more CPUs than there are, unless there are none. -/
def Fits (w : World) : Call → Prop
  | .createLxc _ _ n => n ≤ w.table.keys.length ∨ w.table.keys = []
  | .releaseCpuset _ => True

/-! ### Reservations -/

section Reservations

variable {t : Cpus} {keys set : List Key} {n : ℕ} {k k' : Key}

theorem length_slice {l : List Key} (hl : l ≠ []) (n : ℕ) : (slice l n).length = n := by
  rw [slice, if_neg hl, List.length_map, List.length_range]

theorem slice_eq_take {l : List Key} (hn : n ≤ l.length ∨ l = []) : slice l n = l.take n := by
  by_cases hl : l = []
  · rw [slice, if_pos hl, hl, List.take_nil]
  · have hn : n ≤ l.length := hn.resolve_right hl
    refine List.ext_getElem? fun i => ?_
    rw [slice, if_neg hl, List.getElem?_map]
    by_cases hi : i < n
    · have hil : i < l.length := lt_of_lt_of_le hi hn
      rw [List.getElem?_range hi, List.getElem?_take_of_lt hi, List.getElem?_eq_getElem hil,
        Option.map_some, List.getElem?_eq_getElem hil, Option.join_some]
    · rw [List.getElem?_eq_none (by rw [List.length_range]; omega),
        List.getElem?_eq_none (by rw [List.length_take]; omega)]
      rfl

theorem before_iff {a b : Key} : t.before a b = true ↔
    t.count a < t.count b ∨ (t.count a = t.count b ∧ number a ≤ number b) := by
  simp [Cpus.before]

theorem pairwise_sorted (t : Cpus) (keys : List Key) :
    (keys.mergeSort t.before).Pairwise fun a b => t.count a ≤ t.count b := by
  have hsorted : (keys.mergeSort t.before).Pairwise fun a b => t.before a b = true := by
    refine List.pairwise_mergeSort (fun a b c hab hbc => ?_) (fun a b => ?_) keys
    · rw [before_iff] at hab hbc ⊢
      omega
    · rw [Bool.or_eq_true, before_iff, before_iff]
      omega
  exact hsorted.imp fun h => by
    rw [before_iff] at h
    omega

/-- A reservation that fits is fair. -/
theorem fair_best (hperm : keys.Perm t.keys) (hnodup : t.keys.Nodup)
    (hn : n ≤ t.keys.length ∨ t.keys = []) : Fair t n (t.best keys n) := by
  have hsorted : (keys.mergeSort t.before).Perm t.keys :=
    (List.mergeSort_perm keys t.before).trans hperm
  have hbest : t.best keys n = (keys.mergeSort t.before).take n := by
    refine slice_eq_take (hn.imp (fun h => ?_) fun h => ?_)
    · rwa [hsorted.length_eq]
    · rw [h] at hsorted
      exact hsorted.eq_nil
  have hparts := pairwise_sorted t keys
  rw [← List.take_append_drop n (keys.mergeSort t.before), List.pairwise_append] at hparts
  rw [hbest]
  refine ⟨?_, ?_, fun k hk => ?_, fun k hk k' hk' hout => ?_⟩
  · rw [List.length_take, hsorted.length_eq]
  · exact (hsorted.nodup_iff.mpr hnodup).sublist (List.take_sublist _ _)
  · exact hsorted.mem_iff.mp (List.mem_of_mem_take hk)
  · refine hparts.2.2 k hk k' ?_
    have hmem := hsorted.mem_iff.mpr hk'
    rw [← List.take_append_drop n (keys.mergeSort t.before), List.mem_append] at hmem
    exact hmem.resolve_left hout

/-- One that does not fit takes what is no CPU. -/
theorem not_fair_best (hperm : keys.Perm t.keys) (hn : t.keys.length < n) (hsome : t.keys ≠ []) :
    ¬Fair t n (t.best keys n) := by
  intro hfair
  have hsorted : (keys.mergeSort t.before).Perm t.keys :=
    (List.mergeSort_perm keys t.before).trans hperm
  have hlength := hfair.size
  rw [Cpus.best, length_slice fun h => hsome (by rw [h] at hsorted; exact hsorted.symm.eq_nil)]
    at hlength
  omega

@[simp] theorem count_set_self (t : Cpus) (k : Key) (v : ℤ) : (t.set k v).count k = v :=
  Function.update_self _ _ _

theorem count_set_of_ne (h : k' ≠ k) (v : ℤ) : (t.set k v).count k' = t.count k' :=
  Function.update_of_ne h _ _

theorem keys_set_of_mem (hk : k ∈ t.keys) (v : ℤ) : (t.set k v).keys = t.keys := if_pos hk

/-- Counting up each CPU of a set. -/
theorem foldl_increment (hnodup : set.Nodup) (hkeys : ∀ k ∈ set, k ∈ t.keys) :
    (set.foldl Cpus.increment t).keys = t.keys ∧
      ∀ k, (set.foldl Cpus.increment t).count k = t.count k + if k ∈ set then 1 else 0 := by
  induction set generalizing t with
  | nil => simp
  | cons a set ih =>
    rw [List.nodup_cons] at hnodup
    have hkeysA : (t.increment a).keys = t.keys := keys_set_of_mem (hkeys a List.mem_cons_self) _
    obtain ⟨hsame, hcount⟩ := ih (t := t.increment a) hnodup.2 fun k hk => by
      rw [hkeysA]
      exact hkeys k (List.mem_cons_of_mem _ hk)
    refine ⟨hsame.trans hkeysA, fun k => ?_⟩
    rw [List.foldl_cons, hcount]
    by_cases hka : k = a
    · subst hka
      simp [Cpus.increment, hnodup.1]
    · simp [Cpus.increment, count_set_of_ne hka, hka]

/-- Counting down each CPU of a set, when none of them is in no set. -/
theorem foldl_decrement (hnodup : set.Nodup) (hkeys : ∀ k ∈ set, k ∈ t.keys)
    (hpos : ∀ k ∈ set, 1 ≤ t.count k) :
    (set.foldl Cpus.decrement t).keys = t.keys ∧
      ∀ k, (set.foldl Cpus.decrement t).count k = t.count k - if k ∈ set then 1 else 0 := by
  induction set generalizing t with
  | nil => simp
  | cons a set ih =>
    rw [List.nodup_cons] at hnodup
    have hposA := hpos a List.mem_cons_self
    have hdecrement : t.decrement a = t.set a (t.count a - 1) := by
      rw [Cpus.decrement]
      refine if_neg ?_
      rw [count_set_self]
      omega
    have hkeysA : (t.decrement a).keys = t.keys := by
      rw [hdecrement]
      exact keys_set_of_mem (hkeys a List.mem_cons_self) _
    obtain ⟨hsame, hcount⟩ := ih (t := t.decrement a) hnodup.2
      (fun k hk => by
        rw [hkeysA]
        exact hkeys k (List.mem_cons_of_mem _ hk))
      fun k hk => by
        have hka : k ≠ a := fun h => hnodup.1 (h ▸ hk)
        rw [hdecrement, count_set_of_ne hka]
        exact hpos k (List.mem_cons_of_mem _ hk)
    refine ⟨hsame.trans hkeysA, fun k => ?_⟩
    rw [List.foldl_cons, hcount, hdecrement]
    by_cases hka : k = a
    · subst hka
      simp [hnodup.1]
    · simp [count_set_of_ne hka, hka]

end Reservations

/-! ### Single calls -/

section Calls

variable {ranges : List (ℕ × ℕ)} {past : List (World × Call)} {w : World} {h : HandlerId}
  {keys set : List Key} {n : ℕ}

theorem nodup_newCpus (ranges : List (ℕ × ℕ)) : (newCpus ranges).keys.Nodup :=
  (List.nodup_dedup _).map fun _ _ => Option.some.inj

theorem accounts_createLxc (hacc : Accounts ranges past w) (hperm : keys.Perm w.table.keys) :
    Accounts ranges ((w, .createLxc h keys n) :: past) (createLxc w h keys n) ↔
      Fits w (.createLxc h keys n) := by
  constructor
  · intro hafter
    by_contra hfits
    rw [Fits, not_or, not_le] at hfits
    exact not_fair_best hperm hfits.1 hfits.2 (hafter.fair w h keys n past rfl)
  · intro hfits
    have hfair : Fair w.table n (w.table.best keys n) :=
      fair_best hperm (hacc.same ▸ nodup_newCpus ranges) hfits
    obtain ⟨hkeys, hcount⟩ := foldl_increment hfair.distinct hfair.exist
    refine ⟨hkeys.trans hacc.same, fun k hk => ?_, fun s h' keys' n' older hpast => ?_,
      fun r hr => ?_, fun h' set' hset => ?_⟩
    · change k ∈ ((w.table.best keys n).foldl Cpus.increment w.table).keys at hk
      change ((w.table.best keys n).foldl Cpus.increment w.table).count k = _
      rw [hkeys] at hk
      rw [hcount, hacc.counted k hk, outstanding, List.countP_cons]
      by_cases hbest : k ∈ w.table.best keys n <;> simp [reserveCpuset, hbest]
    · cases hpast
      exact hfair
    · change r ∈ (h, w.table.best keys n) :: outstanding past at hr
      change _ ∧ ∀ k ∈ r.2, k ∈ ((w.table.best keys n).foldl Cpus.increment w.table).keys
      rw [hkeys]
      rcases List.mem_cons.mp hr with rfl | hr
      · exact ⟨hfair.distinct, hfair.exist⟩
      · exact hacc.sets r hr
    · change Function.update w.cpus h (some (w.table.best keys n)) h' = some set' at hset
      change (h', set') ∈ (h, w.table.best keys n) :: outstanding past
      by_cases heq : h' = h
      · subst heq
        rw [Function.update_self] at hset
        cases hset
        exact List.mem_cons_self
      · rw [Function.update_of_ne heq] at hset
        exact List.mem_cons_of_mem _ (hacc.held h' set' hset)

theorem countP_erase_of_mem {r : HandlerId × List Key} {l : List (HandlerId × List Key)}
    (hr : r ∈ l) (p : HandlerId × List Key → Bool) :
    l.countP p = (l.erase r).countP p + if p r = true then 1 else 0 := by
  rw [(List.perm_cons_erase hr).countP_eq p, List.countP_cons]

theorem accounts_release (hacc : Accounts ranges past w) :
    Accounts ranges ((w, .releaseCpuset h) :: past) (release w h) := by
  have hfair (s : World) (h' : HandlerId) (keys' : List Key) (n' : ℕ) (older : List (World × Call))
      (hpast : (w, Call.releaseCpuset h) :: past = (s, .createLxc h' keys' n') :: older) :
      Fair s.table n' (reserveCpuset s.table keys' n').2 := by
    cases hpast
  cases hset : w.cpus h with
  | none =>
    have hrelease : release w h = w := by rw [release, hset]
    have hout : outstanding ((w, .releaseCpuset h) :: past) = outstanding past := by
      rw [outstanding, hset]
    rw [hrelease]
    exact ⟨hacc.same, hout ▸ hacc.counted, hfair, hout ▸ hacc.sets, hout ▸ hacc.held⟩
  | some set =>
    have hrelease : release w h =
        ⟨CpuSets.releaseCpuset w.table set, Function.update w.cpus h none⟩ := by
      rw [release, hset]
    have hout : outstanding ((w, .releaseCpuset h) :: past) =
        (outstanding past).erase (h, set) := by rw [outstanding, hset]
    have hmem := hacc.held h set hset
    obtain ⟨hnodup, hexist⟩ := hacc.sets _ hmem
    -- Each CPU of the set is in one set at least, so no counter gets negative.
    have hpos (k : Key) (hk : k ∈ set) : 1 ≤ w.table.count k := by
      rw [hacc.counted k (hexist k hk)]
      have hcounted : 0 < (outstanding past).countP (fun r => decide (k ∈ r.2)) :=
        List.countP_pos_iff.mpr ⟨_, hmem, decide_eq_true hk⟩
      omega
    obtain ⟨hkeys, hcount⟩ := foldl_decrement hnodup hexist hpos
    rw [hrelease]
    refine ⟨hkeys.trans hacc.same, fun k hk => ?_, hfair, fun r hr => ?_, fun h' set' hset' => ?_⟩
    · change k ∈ (set.foldl Cpus.decrement w.table).keys at hk
      change (set.foldl Cpus.decrement w.table).count k = _
      rw [hkeys] at hk
      rw [hcount, hacc.counted k hk, hout, countP_erase_of_mem hmem]
      by_cases hk : k ∈ set <;> simp [hk]
    · rw [hout] at hr
      change _ ∧ ∀ k ∈ r.2, k ∈ (set.foldl Cpus.decrement w.table).keys
      rw [hkeys]
      exact hacc.sets r (List.mem_of_mem_erase hr)
    · change Function.update w.cpus h none h' = some set' at hset'
      rw [hout]
      by_cases heq : h' = h
      · rw [heq, Function.update_self] at hset'
        cases hset'
      · rw [Function.update_of_ne heq] at hset'
        refine (List.mem_erase_of_ne fun hsame => heq ?_).mpr (hacc.held h' set' hset')
        exact congrArg Prod.fst hsame

theorem accounts_init (hinit : (cpuSets ranges).init w) : Accounts ranges [] w := by
  obtain ⟨htable, hcpus⟩ := hinit
  refine ⟨by rw [htable], fun k _ => ?_, fun _ _ _ _ _ h => (nomatch h),
    fun r hr => (nomatch hr), fun h' set' hset => ?_⟩
  · rw [htable]
    rfl
  rw [hcpus] at hset
  cases hset

end Calls

/-- The table accounts for the calls throughout a run exactly if all its reservations fit. -/
theorem cpus_accounted_iff (ranges : List (ℕ × ℕ)) (past : List (World × Call)) (w : World)
    (run : (cpuSets ranges).Run past w) :
    AlwaysSince (Accounts ranges) past w ↔ AllSteps Fits past := by
  refine run.alwaysSince_iff_allSteps (fun _ => accounts_init) fun past w c w' _ hacc hstep => ?_
  cases c with
  | createLxc h keys n =>
    obtain ⟨hperm, rfl⟩ := hstep
    exact accounts_createLxc hacc hperm
  | releaseCpuset h =>
    obtain rfl := hstep
    exact iff_of_true (accounts_release hacc) trivial

/-! ### A small host -/

/-- A host with two CPUs and no machine. -/
def twoCpus : World where
  table := newCpus [(0, 1)]
  cpus := fun _ => none

theorem run_of_size (n : ℕ) : (cpuSets [(0, 1)]).Run
    [(twoCpus, .createLxc 7 [some 0, some 1] n)] (createLxc twoCpus 7 [some 0, some 1] n) :=
  .extend (.start ⟨rfl, rfl⟩) ⟨by decide, rfl⟩

theorem cpus_accounted_iff_two :
    AlwaysSince (Accounts [(0, 1)]) [(twoCpus, .createLxc 7 [some 0, some 1] 2)]
        (createLxc twoCpus 7 [some 0, some 1] 2) ↔
      AllSteps Fits [(twoCpus, .createLxc 7 [some 0, some 1] 2)] :=
  cpus_accounted_iff [(0, 1)] _ _ (run_of_size 2)

/-- With the default size of 4 a machine on a host with two CPUs takes two that are none. -/
theorem small_host_unaccounted : ∃ past w, (cpuSets [(0, 1)]).Run past w ∧
    ¬AlwaysSince (Accounts [(0, 1)]) past w := by
  refine ⟨_, _, run_of_size 4, fun h => ?_⟩
  exact not_fair_best (t := twoCpus.table) (by decide) (by decide) (by decide)
    (h.now.fair _ _ _ _ _ rfl)

end Qvd.CpuSets
