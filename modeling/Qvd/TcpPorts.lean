import Mathlib.Data.List.Nodup
import Mathlib.Data.List.Perm.Subperm
import Qvd.Runs

/-!
The TCP ports the handlers of machines redirect consoles to: an offset that each allocation
moves forward, over the ports nobody listens on.
-/
namespace Qvd.TcpPorts

open Runs

/-- The loop of `_allocate_tcp_port`, with a bound on its turns. -/
def search (used : List ℕ) (base : ℕ) : ℕ → ℕ → Option ℕ
  | 0, _ => none
  | fuel + 1, off =>
    if base + (off + 1) ∈ used then search used base fuel (off + 1) else some (off + 1)

/-- `_allocate_tcp_port`: the port and the offset it leaves behind. -/
def allocateTcpPort (base : Option ℕ) (used : List ℕ) (off : ℕ) : Option (ℕ × ℕ) :=
  (search used (base.getD 2000) (used.length + 1) off).map
    fun off => (base.getD 2000 + off, off)

/-- What `_calculate_attrs` allocates a port for, when it is configured. -/
inductive Redirect
  | vnc
  | serial
  | monitor
deriving DecidableEq, Repr

def Redirect.base : Redirect → Option ℕ
  | .vnc => some 5900
  | .serial | .monitor => none

/-- The offset of the process, and the ports of the machines that are alive. -/
structure Ports where
  off : ℕ
  live : List ℕ
deriving DecidableEq, Repr

inductive Call
  | allocate (redirect : Redirect) (listeners : List ℕ)
  | release (port : ℕ)
deriving DecidableEq, Repr

/-- The allocations since the node's daemon was started, for any machines that live on. -/
def allocations : System Ports Call where
  init s := s.off = 0
  step s c s' :=
    match c with
    | .allocate redirect listeners => ∃ port off,
        allocateTcpPort redirect.base listeners s.off = some (port, off) ∧
        s' = { off := off, live := port :: s.live }
    | .release port => s' = { s with live := s.live.erase port }

/-- An allocation returns a port in the range, which no live allocation has. -/
def Allocates (s : Ports) (c : Call) (_ : Ports) : Prop :=
  ∀ redirect listeners, c = .allocate redirect listeners →
    ∃ port off, allocateTcpPort redirect.base listeners s.off = some (port, off) ∧
      1 ≤ port ∧ port ≤ 65535 ∧ port ∉ s.live

/-- Above the offset there is a port without listeners, and the live ports there have a
listener, or another port without one below them. -/
structure Room (s : Ports) (redirect : Redirect) (listeners : List ℕ) : Prop where
  free : ∃ port ≤ 65535, redirect.base.getD 2000 + s.off < port ∧ port ∉ listeners
  live : ∀ port ∈ s.live, redirect.base.getD 2000 + s.off < port → port ∈ listeners ∨
    ∃ lower < port, redirect.base.getD 2000 + s.off < lower ∧ lower ∉ listeners

def HasRoom (s : Ports) (c : Call) : Prop :=
  ∀ redirect listeners, c = .allocate redirect listeners → Room s redirect listeners

section Search

variable {used : List ℕ} {base off off' fuel : ℕ}

/-- The search stops at the first port without listeners above the offset. -/
theorem search_spec (h : search used base fuel off = some off') :
    off < off' ∧ base + off' ∉ used ∧ ∀ port, base + off < port → port < base + off' →
      port ∈ used := by
  induction fuel generalizing off with
  | zero => cases h
  | succ fuel ih =>
    rw [search] at h
    split at h
    · next hused =>
      obtain ⟨hlt, hfree, hbelow⟩ := ih h
      refine ⟨by omega, hfree, fun port hlow hhigh => ?_⟩
      by_cases hnext : port = base + (off + 1)
      · rw [hnext]
        exact hused
      · exact hbelow port (by omega) hhigh
    · next hfree =>
      cases h
      exact ⟨by omega, hfree, fun port hlow hhigh => by omega⟩

/-- A search that has not stopped has only met listeners. -/
theorem used_of_search_none (h : search used base fuel off = none) :
    ∀ i < fuel, base + (off + 1 + i) ∈ used := by
  induction fuel generalizing off with
  | zero => exact fun i hi => absurd hi (Nat.not_lt_zero i)
  | succ fuel ih =>
    rw [search] at h
    split at h
    · next hused =>
      intro i hi
      cases i with
      | zero => exact hused
      | succ i =>
        have hlater := ih h i (by omega)
        rwa [show off + 1 + 1 + i = off + 1 + (i + 1) by omega] at hlater
    · cases h

/-- Among one more ports than there are listeners one is free. -/
theorem search_isSome (used : List ℕ) (base off : ℕ) :
    (search used base (used.length + 1) off).isSome = true := by
  cases h : search used base (used.length + 1) off with
  | some off' => rfl
  | none =>
    have hused := used_of_search_none h
    have hsub : (List.range (used.length + 1)).map (fun i => base + (off + 1 + i)) ⊆ used := by
      intro port hport
      obtain ⟨i, hi, rfl⟩ := List.mem_map.mp hport
      exact hused i (List.mem_range.mp hi)
    have hnodup : ((List.range (used.length + 1)).map fun i => base + (off + 1 + i)).Nodup :=
      List.Nodup.map (fun i j hij => by simpa using hij) List.nodup_range
    have hlength := (List.subperm_of_subset hnodup hsub).length_le
    rw [List.length_map, List.length_range] at hlength
    omega

end Search

section Allocations

variable {s : Ports} {redirect : Redirect} {listeners : List ℕ}

theorem allocateTcpPort_spec (base : Option ℕ) (used : List ℕ) (off : ℕ) :
    ∃ off', allocateTcpPort base used off = some (base.getD 2000 + off', off') ∧ off < off' ∧
      base.getD 2000 + off' ∉ used ∧
      ∀ port, base.getD 2000 + off < port → port < base.getD 2000 + off' → port ∈ used := by
  obtain ⟨off', hoff⟩ :=
    Option.isSome_iff_exists.mp (search_isSome used (base.getD 2000) off)
  exact ⟨off', by rw [allocateTcpPort, hoff]; rfl, search_spec hoff⟩

theorem allocates_iff (c : Call) (s s' : Ports) : Allocates s c s' ↔ HasRoom s c := by
  refine forall_congr' fun redirect => forall_congr' fun listeners => imp_congr_right fun _ => ?_
  obtain ⟨off', hport, hlt, hfree, hbelow⟩ :=
    allocateTcpPort_spec redirect.base listeners s.off
  constructor
  · rintro ⟨port, off, heq, -, hhigh, hlive⟩
    rw [hport] at heq
    cases heq
    refine ⟨⟨_, hhigh, by omega, hfree⟩, fun port hmem hlow => ?_⟩
    by_cases hless : port < redirect.base.getD 2000 + off'
    · exact .inl (hbelow port hlow hless)
    · have hne : port ≠ redirect.base.getD 2000 + off' := fun heq => hlive (heq ▸ hmem)
      exact .inr ⟨_, by omega, by omega, hfree⟩
  · rintro ⟨⟨port, hhigh, hlow, hother⟩, hlive⟩
    refine ⟨_, _, hport, by omega, ?_, fun hmem => ?_⟩
    · by_contra hover
      exact hother (hbelow port hlow (by omega))
    · rcases hlive _ hmem (by omega) with hlisten | ⟨lower, hless, hlow, hother⟩
      · exact hfree hlisten
      · exact hother (hbelow lower hlow hless)

end Allocations

/-- All allocations of a run return a port of their own in the range exactly if each has room
above the offset. -/
theorem allocations_ok_iff (past : List (Ports × Call)) (s : Ports)
    (run : allocations.Run past s) :
    EachTransition Allocates past s ↔ AllSteps HasRoom past :=
  run.eachTransition_iff fun s c s' _ => allocates_iff c s s'

theorem run_allocate {past : List (Ports × Call)} {s : Ports} (run : allocations.Run past s)
    (redirect : Redirect) (listeners : List ℕ) {port off : ℕ}
    (h : allocateTcpPort redirect.base listeners s.off = some (port, off)) :
    allocations.Run ((s, .allocate redirect listeners) :: past) ⟨off, port :: s.live⟩ :=
  System.Run.extend run ⟨port, off, h, rfl⟩

section Examples

theorem allocations_ok_iff_first :
    EachTransition Allocates [(⟨0, []⟩, .allocate .serial [22])] ⟨1, [2001]⟩ ↔
      AllSteps HasRoom [(⟨0, []⟩, .allocate .serial [22])] :=
  allocations_ok_iff _ _ (run_allocate (s := ⟨0, []⟩) (System.Run.start rfl) .serial [22] rfl)

/-- One machine after the other, on a host without listeners. -/
theorem run_of_starts (n : ℕ) : ∃ past live, allocations.Run past ⟨n, live⟩ := by
  induction n with
  | zero => exact ⟨[], [], System.Run.start rfl⟩
  | succ n ih =>
    obtain ⟨past, live, run⟩ := ih
    exact ⟨_, _, run_allocate run .serial [] rfl⟩

theorem port_out_of_range :
    ∃ past s, allocations.Run past s ∧ ¬EachTransition Allocates past s := by
  obtain ⟨past, live, run⟩ := run_of_starts 63535
  refine ⟨_, _, run_allocate run .serial [] rfl, fun h => ?_⟩
  obtain ⟨port, off, hport, -, hhigh, -⟩ := h.1 .serial [] rfl
  cases hport
  exact absurd (show 2000 + 63536 ≤ 65535 from hhigh) (by decide)

end Examples

end Qvd.TcpPorts
