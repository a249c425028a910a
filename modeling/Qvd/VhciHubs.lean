import Qvd.Runs
import Mathlib.Logic.Function.Basic

/-!
The table of USB hubs of the VHCI handler, and the calls the handlers of machines make to
reserve a hub and to give it back.
-/
namespace Qvd.VhciHubs

open Runs

abbrev Vm := ℕ

/-- The hash of hubs: -1, or the machine a hub is assigned to. The key `none` is the empty
string, which an undefined hub reads as. -/
abbrev Table (H : Type*) := Option H → Option ℤ

/-- What the file system answers to the operations of one call. -/
structure FsAnswers where
  isDir : Bool
  /-- how many files `rmtree` has removed -/
  removed : ℕ
  mkdirVm : Bool
  mkdirHub : Bool

inductive Call (H : Type*)
  | request (vm : Vm) (fs : FsAnswers) (pick : Option H)
  | giveBack (vm : Vm) (fs : FsAnswers) (pick : Option H)

/-- The table, and what the handler of each machine has in `vhci_hub`. -/
structure World (H : Type*) where
  hubs : Table H
  vhciHub : Vm → Option H

section Calls

variable {H : Type*} [DecidableEq H]

/-- The hubs found when the handler is made are free. -/
def newHubs (pool : H → Bool) : Table H
  | some h => if pool h then some (-1) else none
  | none => none

/-- What the search for a value picks: the first key that has it, in the order of a hash, and
nothing where no key has it. -/
def Picks (t : Table H) (v : ℤ) (pick : Option H) : Prop :=
  t pick = some v ∨ (pick = none ∧ ∀ k, t k ≠ some v)

/-- The directory of an undefined hub is that of the machine, which is there already. -/
def makesDirectories (fs : FsAnswers) (pick : Option H) : Bool :=
  (!fs.isDir || decide (0 < fs.removed)) && fs.mkdirVm && pick.isSome && fs.mkdirHub

/-- `reserve_vhci_hub`: the table it leaves, and whether it returns. -/
def reserveVhciHub (t : Table H) (vm : Vm) (fs : FsAnswers) (pick : Option H) :
    Table H × Bool :=
  (Function.update t pick (some vm), makesDirectories fs pick)

/-- `release_vhci_hub` -/
def releaseVhciHub (t : Table H) (fs : FsAnswers) (pick : Option H) : Table H × Bool :=
  if fs.removed = 0 then (t, false) else (Function.update t pick (some (-1)), true)

/-- `_request_vhci_hub`: a call that dies is logged, and the handler goes on. -/
def requestVhciHub (w : World H) (vm : Vm) (fs : FsAnswers) (pick : Option H) : World H :=
  let (hubs, returned) := reserveVhciHub w.hubs vm fs pick
  { hubs := hubs
    vhciHub := if returned then Function.update w.vhciHub vm pick else w.vhciHub }

/-- `_return_vhci_hub` -/
def returnVhciHub (w : World H) (fs : FsAnswers) (pick : Option H) : World H :=
  { w with hubs := (releaseVhciHub w.hubs fs pick).1 }

/-- The handlers of any machines call in any order. -/
def vhci (pool : H → Bool) : System (World H) (Call H) where
  init w := w.hubs = newHubs pool ∧ w.vhciHub = fun _ => none
  step w c w' :=
    match c with
    | .request vm fs pick => Picks w.hubs (-1) pick ∧ w' = requestVhciHub w vm fs pick
    | .giveBack vm fs pick =>
      (fs.removed ≠ 0 → Picks w.hubs vm pick) ∧ w' = returnVhciHub w fs pick

/-! ### What is asked of the table -/

/-- The machine's last successful reservation of the hub has not been released. -/
def Held : List (World H × Call H) → Vm → H → Prop
  | [], _, _ => False
  | (w, .request vm' fs pick) :: past, vm, h =>
    ((reserveVhciHub w.hubs vm' fs pick).2 = true ∧ vm' = vm ∧ pick = some h) ∨ Held past vm h
  | (w, .giveBack vm' fs pick) :: past, vm, h =>
    Held past vm h ∧ ¬((releaseVhciHub w.hubs fs pick).2 = true ∧ vm' = vm ∧ pick = some h)

/-- The call is a reservation that dies. -/
def FailedReservation (w : World H) : Call H → Prop
  | .request vm fs pick => (reserveVhciHub w.hubs vm fs pick).2 = false
  | .giveBack _ _ _ => False

/-- The table accounts for the calls made so far. -/
structure Accounts (pool : H → Bool) (past : List (World H × Call H)) (w : World H) :
    Prop where
  same : ∀ k, (w.hubs k).isSome = (newHubs pool k).isSome
  alone : ∀ h vm vm', Held past vm h → Held past vm' h → vm = vm'
  assigned : ∀ h (vm : Vm), w.hubs (some h) = some (vm : ℤ) ↔ Held past vm h
  unchanged : ∀ last older, past = last :: older → FailedReservation last.1 last.2 →
    w.hubs = last.1.hubs

/-- A reservation finds a free hub and makes its directories; a release removes nothing, or
finds a hub of its machine. -/
def Orderly (w : World H) : Call H → Prop
  | .request _ fs _ => (∃ h, w.hubs (some h) = some (-1)) ∧
      (fs.isDir = true → 0 < fs.removed) ∧ fs.mkdirVm = true ∧ fs.mkdirHub = true
  | .giveBack vm fs _ => fs.removed = 0 ∨ ∃ h, w.hubs (some h) = some (vm : ℤ)

end Calls

/-! ### Single calls -/

section Steps

variable {H : Type*} [DecidableEq H] {pool : H → Bool} {past : List (World H × Call H)}
  {w w' : World H} {c : Call H} {vm : Vm} {fs : FsAnswers} {pick : Option H} {h : H}

omit [DecidableEq H] in
theorem newHubs_some {k : Option H} {v : ℤ} (hk : newHubs pool k = some v) : v = -1 := by
  cases k with
  | none => cases hk
  | some h =>
    simp only [newHubs] at hk
    split at hk
    · exact (Option.some.inj hk).symm
    · cases hk

theorem vm_ne_free (vm : Vm) : (vm : ℤ) ≠ -1 := by
  omega

/-- The empty string is no key of a table that accounts for its calls. -/
theorem Accounts.none_eq (hacc : Accounts pool past w) : w.hubs none = none := by
  rw [← Option.not_isSome_iff_eq_none, hacc.same none]
  simp [newHubs]

/-- A search that finds something in such a table picks a hub. -/
theorem Accounts.some_of_picks (hacc : Accounts pool past w) {v : ℤ}
    (hpick : Picks w.hubs v pick) (hk : ∃ k, w.hubs k = some v) :
    ∃ h, pick = some h ∧ w.hubs (some h) = some v := by
  have hv : w.hubs pick = some v := by
    obtain ⟨k, hk⟩ := hk
    exact hpick.resolve_right fun hnone => hnone.2 k hk
  cases pick with
  | none =>
    rw [hacc.none_eq] at hv
    cases hv
  | some h => exact ⟨h, rfl, hv⟩

omit [DecidableEq H] in
theorem makesDirectories_some : makesDirectories fs (some h) = true ↔
    (fs.isDir = true → 0 < fs.removed) ∧ fs.mkdirVm = true ∧ fs.mkdirHub = true := by
  cases hdir : fs.isDir <;> simp [makesDirectories, hdir, and_assoc]

theorem isSome_update {t : Table H} {k k' : Option H} {v : ℤ} (hk : (t k).isSome = true) :
    (Function.update t k (some v) k').isSome = (t k').isSome := by
  by_cases heq : k' = k
  · rw [heq, Function.update_self, hk]
    rfl
  · rw [Function.update_of_ne heq]

/-- What a hub is assigned to is one machine. -/
theorem accounts_of (hsame : ∀ k, (w.hubs k).isSome = (newHubs pool k).isSome)
    (hassigned : ∀ h (vm : Vm), w.hubs (some h) = some (vm : ℤ) ↔ Held past vm h)
    (hunchanged : ∀ last older, past = last :: older → FailedReservation last.1 last.2 →
      w.hubs = last.1.hubs) : Accounts pool past w where
  same := hsame
  alone h vm vm' hheld hheld' := by
    have heq := ((hassigned h vm).mpr hheld).symm.trans ((hassigned h vm').mpr hheld')
    exact Int.ofNat.inj (Option.some.inj heq)
  assigned := hassigned
  unchanged := hunchanged

/-- A reservation keeps the accounts exactly if it is orderly. -/
theorem accounts_request (hacc : Accounts pool past w) (hpick : Picks w.hubs (-1) pick) :
    Accounts pool ((w, .request vm fs pick) :: past) (requestVhciHub w vm fs pick) ↔
      Orderly w (.request vm fs pick) := by
  have hhubs : (requestVhciHub w vm fs pick).hubs = Function.update w.hubs pick (some vm) := rfl
  constructor
  · intro hafter
    have hfound : ∃ k, w.hubs k = some (-1) := by
      rcases hpick with hfree | ⟨rfl, -⟩
      · exact ⟨pick, hfree⟩
      · have hnone := hafter.none_eq
        rw [hhubs, Function.update_self] at hnone
        cases hnone
    obtain ⟨h, rfl, hfree⟩ := hacc.some_of_picks hpick hfound
    refine ⟨⟨h, hfree⟩, makesDirectories_some.mp (?_ : makesDirectories fs (some h) = true)⟩
    by_contra hfails
    have hsame := hafter.unchanged _ _ rfl (Bool.eq_false_iff.mpr hfails)
    have hat := congrFun hsame (some h)
    rw [hhubs, Function.update_self, hfree] at hat
    exact vm_ne_free vm (Option.some.inj hat)
  · rintro ⟨⟨h, hfree⟩, hdirs⟩
    obtain ⟨h, rfl, hfree⟩ := hacc.some_of_picks hpick ⟨_, hfree⟩
    have hreturns : makesDirectories fs (some h) = true := makesDirectories_some.mpr hdirs
    have hheld (h' : H) (vm' : Vm) :
        Function.update w.hubs (some h) (some (vm : ℤ)) (some h') = some (vm' : ℤ) ↔
          Held ((w, .request vm fs (some h)) :: past) vm' h' := by
      rw [Held, reserveVhciHub]
      by_cases heq : h' = h
      · subst heq
        have hnot : ¬Held past vm' h' := fun hheld => by
          rw [← hacc.assigned, hfree] at hheld
          exact vm_ne_free vm' (Option.some.inj hheld).symm
        rw [Function.update_self, Option.some.injEq, Int.natCast_inj]
        simp [hreturns, hnot]
      · rw [Function.update_of_ne (by simpa using heq), hacc.assigned]
        simp [Ne.symm heq]
    refine accounts_of (fun k => ?_) (fun h' vm' => ?_) fun last older hpast hfails => ?_
    · rw [hhubs, isSome_update (by rw [hfree]; rfl)]
      exact hacc.same k
    · rw [hhubs]
      exact hheld h' vm'
    · obtain ⟨rfl, -⟩ := List.cons_eq_cons.mp hpast
      exact absurd hreturns (Bool.eq_false_iff.mp hfails)

/-- So does a release. -/
theorem accounts_giveBack (hacc : Accounts pool past w)
    (hpick : fs.removed ≠ 0 → Picks w.hubs vm pick) :
    Accounts pool ((w, .giveBack vm fs pick) :: past) (returnVhciHub w fs pick) ↔
      Orderly w (.giveBack vm fs pick) := by
  have hquiet (hsame : ∀ k, ((returnVhciHub w fs pick).hubs k).isSome = (newHubs pool k).isSome)
      (hassigned : ∀ h' (vm' : Vm), (returnVhciHub w fs pick).hubs (some h') = some (vm' : ℤ) ↔
        Held ((w, .giveBack vm fs pick) :: past) vm' h') :
      Accounts pool ((w, .giveBack vm fs pick) :: past) (returnVhciHub w fs pick) := by
    refine accounts_of hsame hassigned fun last older hpast hfails => ?_
    obtain ⟨rfl, -⟩ := List.cons_eq_cons.mp hpast
    exact hfails.elim
  by_cases hremoved : fs.removed = 0
  · have hrelease : releaseVhciHub w.hubs fs pick = (w.hubs, false) := if_pos hremoved
    have hhubs : (returnVhciHub w fs pick).hubs = w.hubs := by
      rw [returnVhciHub, hrelease]
    refine iff_of_true (hquiet (fun k => ?_) fun h' vm' => ?_) (.inl hremoved)
    · rw [hhubs, hacc.same]
    · rw [hhubs, hacc.assigned, Held, hrelease]
      simp
  · have hrelease : releaseVhciHub w.hubs fs pick =
        (Function.update w.hubs pick (some (-1)), true) := if_neg hremoved
    have hhubs : (returnVhciHub w fs pick).hubs = Function.update w.hubs pick (some (-1)) := by
      rw [returnVhciHub, hrelease]
    constructor
    · intro hafter
      refine .inr ?_
      rcases hpick hremoved with hvm | ⟨rfl, -⟩
      · obtain ⟨h, -, hvm⟩ := hacc.some_of_picks (hpick hremoved) ⟨_, hvm⟩
        exact ⟨h, hvm⟩
      · have hnone := hafter.none_eq
        rw [hhubs, Function.update_self] at hnone
        cases hnone
    · rintro (hzero | ⟨h, hvm⟩)
      · exact absurd hzero hremoved
      obtain ⟨h, rfl, hvm⟩ := hacc.some_of_picks (hpick hremoved) ⟨_, hvm⟩
      refine hquiet (fun k => ?_) fun h' vm' => ?_
      · rw [hhubs, isSome_update (by rw [hvm]; rfl)]
        exact hacc.same k
      · rw [hhubs, Held, hrelease, ← hacc.assigned]
        by_cases heq : h' = h
        · subst heq
          rw [Function.update_self, hvm]
          have hfree := vm_ne_free vm'
          simp only [Option.some.injEq, Int.natCast_inj, true_and, and_true, and_not_self,
            iff_false]
          exact fun h => hfree h.symm
        · rw [Function.update_of_ne (by simpa using heq)]
          simp [Ne.symm heq]

theorem accounts_init (hinit : (vhci pool).init w) : Accounts pool [] w := by
  refine accounts_of (fun k => by rw [hinit.1]) (fun h vm => ?_) fun _ _ h => by cases h
  rw [hinit.1]
  exact iff_of_false (fun h => vm_ne_free vm (newHubs_some h)) not_false

end Steps

/-- The table accounts for the calls throughout a run exactly if all the calls are
orderly. -/
theorem hubs_accounted_iff {H : Type*} [DecidableEq H] (pool : H → Bool)
    (past : List (World H × Call H)) (w : World H) (run : (vhci pool).Run past w) :
    AlwaysSince (Accounts pool) past w ↔ AllSteps Orderly past := by
  refine run.alwaysSince_iff_allSteps (fun _ => accounts_init) fun past w c w' _ hacc hstep => ?_
  cases c with
  | request vm fs pick =>
    obtain ⟨hpick, rfl⟩ := hstep
    exact accounts_request hacc hpick
  | giveBack vm fs pick =>
    obtain ⟨hpick, rfl⟩ := hstep
    exact accounts_giveBack hacc hpick

/-! ### A machine that is full -/

/-- A pool of one hub. -/
def oneHub : ℕ → Bool := fun h => h = 0

def fresh : World ℕ where
  hubs := newHubs oneHub
  vhciHub := fun _ => none

/-- Nothing is in the way of a call. -/
def fine : FsAnswers where
  isDir := false
  removed := 2
  mkdirVm := true
  mkdirHub := true

theorem run_one : (vhci oneHub).Run [(fresh, .request 7 fine (some 0))]
    (requestVhciHub fresh 7 fine (some 0)) :=
  .extend (.start ⟨rfl, rfl⟩) ⟨.inl rfl, rfl⟩

theorem hubs_accounted_iff_one :
    AlwaysSince (Accounts oneHub) [(fresh, .request 7 fine (some 0))]
        (requestVhciHub fresh 7 fine (some 0)) ↔
      AllSteps Orderly [(fresh, .request 7 fine (some 0))] :=
  hubs_accounted_iff oneHub _ _ run_one

/-- A second machine finds no hub, and the table gains the key of an undefined one. -/
theorem full_table_grows : ∃ past w, (vhci oneHub).Run past w ∧
    ¬AlwaysSince (Accounts oneHub) past w := by
  refine ⟨[(requestVhciHub fresh 7 fine (some 0), .request 8 fine none),
      (fresh, .request 7 fine (some 0))],
    requestVhciHub (requestVhciHub fresh 7 fine (some 0)) 8 fine none,
    .extend run_one ⟨.inr ⟨rfl, fun k => ?_⟩, rfl⟩, fun h => ?_⟩
  · cases k with
    | none => simp [requestVhciHub, reserveVhciHub, fresh, newHubs]
    | some h =>
      by_cases heq : h = 0
      · simp [requestVhciHub, reserveVhciHub, heq]
      · simp [requestVhciHub, reserveVhciHub, fresh, newHubs, oneHub, heq]
  · have hnone := h.now.none_eq
    cases hnone

end Qvd.VhciHubs
