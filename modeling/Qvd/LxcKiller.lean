import Qvd.LxcRelease

/-!
The killing of the processes of a container: what `_kill_lxc` does each time its state is
entered, with a counter of its calls that outlives the state.
-/
namespace Qvd.LxcKiller

open StateTable LxcHandlerTable LxcRelease Runs

section Entries

variable (mach : Machines) (cfg : Config)

/-- The step is a call that sends the KILL to all processes and waits to be called again. -/
def Kills (w : World) : Label → Prop
  | .killLxc cgroup => killLxcResult cfg w cgroup = none
  | _ => False

instance (w : World) : (l : Label) → Decidable (Kills cfg w l)
  | .killLxc cgroup => inferInstanceAs (Decidable (killLxcResult cfg w cgroup = none))
  | .event _ | .finish _ | .unmountFilesystems _ | .startOsFs | .startLxc _ | .checkLxc
  | .clearRuntimeRow | .cleared _ | .lxcExits | .osFsReports _ | .osFsMounts _ | .processes _
  | .containerMounts _ => inferInstanceAs (Decidable False)

/-- How often the processes have been killed since the state was entered. -/
def kills (path : Path) : List (World × Label) → ℕ
  | [] => 0
  | (w, l) :: past =>
    if w.path = path then kills path past + (if Kills cfg w l then 1 else 0) else 0

/-- The counter when the state was entered. -/
def countAtEntry (w : World) : List (World × Label) → ℕ
  | [] => w.killerCount
  | (w', _) :: past => if w'.path = w.path then countAtEntry w' past else w.killerCount

def after (w : World) (l : Label) : World :=
  dispatch mach (effect mach cfg w l) (emitted mach cfg w l)

/-- A state that runs `_kill_lxc` is left by a call that finds no process, or by one after the
first try and all retries of this entry. -/
def FullBudget (past : List (World × Label)) (w : World) (l : Label) : Prop :=
  Running w .killLxc → (after mach cfg w l).path ≠ w.path →
    ∃ opened, l = .killLxc (some opened) ∧
      (pids w opened = 0 ∨ cfg.killerRetries + 1 ≤ kills cfg w.path past)

/-- Nothing else takes the handler out of the state, the cgroups are configured, and the
counter was zero on entry when the call gives up. -/
structure FreshCount (past : List (World × Label)) (w : World) (l : Label) : Prop where
  alone : Running w .killLxc → (∀ cgroup, l ≠ .killLxc cgroup) →
    (after mach cfg w l).path = w.path
  configured : l ≠ .killLxc none
  fresh : ∀ opened, l = .killLxc (some opened) → pids w opened ≠ 0 →
    cfg.killerRetries < w.killerCount → countAtEntry w past = 0

end Entries

section Counting

variable {mach : Machines} {cfg : Config} {past : List (World × Label)} {w : World} {l : Label}

theorem dispatch_path (w w' : World) (hw : w'.path = w.path) (e : Option Event) :
    (dispatch mach w' e).path = w.path ∨
      ∃ e', e = some e' ∧ (dispatch mach w' e).path = mach.next w.path e' := by
  cases e with
  | none => exact .inl hw
  | some e =>
    rw [dispatch]
    split
    · exact .inl hw
    · exact .inr ⟨e, rfl, by rw [hw]⟩

theorem leaf_of_run (run : (handlerRuns mach cfg).Run past w) : w.path ∈ lxc.leaves := by
  have halways : Always (fun w => w.path ∈ lxc.leaves) past w := by
    refine run.always ?_ ?_
    · intro w h
      rw [h.1]
      decide +kernel
    · rintro w l w' hleaf ⟨-, rfl⟩
      show (after mach cfg w l).path ∈ lxc.leaves
      rcases dispatch_path w (effect mach cfg w l) effect_path (emitted mach cfg w l) with
        heq | ⟨e, -, heq⟩
      · rw [after, heq]
        exact hleaf
      · rw [after, heq, mach.follows.next_eq lxc_total _ _ hleaf]
        exact lxc_wellFormed.next_mem 3 hleaf e
  exact halways.1

/-- A call with a result takes the handler out of the state. -/
theorem kill_states : ∀ s ∈ lxc, s.enter = some .killLxc → ∀ e ∈ [Event.onDone, .onError],
    lxc.next 3 s.name e ≠ s.name := by
  decide +kernel

theorem leaves_of_result (hleaf : w.path ∈ lxc.leaves) (hrun : Running w .killLxc)
    {cgroup : Option Bool} {e : Event} (he : killLxcResult cfg w cgroup = some e) :
    (after mach cfg w (.killLxc cgroup)).path ≠ w.path := by
  have hresult : e ∈ [Event.onDone, .onError] := by
    unfold killLxcResult at he
    split at he
    · cases he
      decide
    · split at he
      · cases he
        decide
      · split at he <;> cases he
        decide
  obtain ⟨s, hs, henter⟩ := Option.bind_eq_some_iff.mp hrun
  obtain ⟨hmem, hname⟩ := Table.mem_of_at? hs
  have hnext : mach.next w.path e ≠ w.path := by
    rw [mach.follows.next_eq lxc_total _ _ hleaf, ← hname]
    exact kill_states s hmem henter e hresult
  have hemitted : emitted mach cfg w (.killLxc cgroup) = some e := he
  rw [after, hemitted, dispatch]
  rw [show (effect mach cfg w (.killLxc cgroup)).path = w.path from effect_path, if_neg hnext]
  exact hnext

theorem killerCount_after (w : World) (l : Label) :
    (after mach cfg w l).killerCount = (effect mach cfg w l).killerCount := by
  rw [after]
  cases emitted mach cfg w l with
  | none => rfl
  | some e =>
    rw [dispatch]
    split <;> rfl

/-- A step that stays in its state raises the counter exactly if it kills. -/
theorem count_of_stay (hleaf : w.path ∈ lxc.leaves) (hen : Enabled cfg w l)
    (hstay : (after mach cfg w l).path = w.path) :
    (after mach cfg w l).killerCount = w.killerCount + (if Kills cfg w l then 1 else 0) ∧
      (Kills cfg w l → w.killerCount ≤ cfg.killerRetries) := by
  rw [killerCount_after]
  cases l with
  | killLxc cgroup =>
    cases hresult : killLxcResult cfg w cgroup with
    | some e => exact absurd hstay (leaves_of_result hleaf hen hresult)
    | none =>
      have hkills : Kills cfg w (.killLxc cgroup) := hresult
      rw [if_pos hkills]
      unfold killLxcResult at hresult
      split at hresult
      · cases hresult
      · next opened =>
        split at hresult
        · cases hresult
        · next hpids =>
          split at hresult
          · cases hresult
          · next hbudget =>
            refine ⟨?_, fun _ => Nat.not_lt.mp hbudget⟩
            show (killLxcEffect w (some opened)).killerCount = w.killerCount + 1
            simp [killLxcEffect, hpids]
  | _ => exact ⟨rfl, fun h => False.elim h⟩

/-- The counter is what it was on entry and what this entry has added. -/
structure Counted (cfg : Config) (past : List (World × Label)) (w : World) : Prop where
  count : w.killerCount = countAtEntry w past + kills cfg w.path past
  bound : 0 < kills cfg w.path past → w.killerCount ≤ cfg.killerRetries + 1

theorem counted_of_run (run : (handlerRuns mach cfg).Run past w) : Counted cfg past w := by
  induction run with
  | start _ => exact ⟨rfl, fun h => absurd h (Nat.lt_irrefl 0)⟩
  | @extend past w w' l run hstep ih =>
    obtain ⟨hen, rfl⟩ := hstep
    show Counted cfg ((w, l) :: past) (after mach cfg w l)
    by_cases hstay : (after mach cfg w l).path = w.path
    · obtain ⟨hcount, hbudget⟩ := count_of_stay (leaf_of_run run) hen hstay
      have hentry : countAtEntry (after mach cfg w l) ((w, l) :: past) = countAtEntry w past := by
        rw [countAtEntry, if_pos hstay.symm]
      have hkills : kills cfg (after mach cfg w l).path ((w, l) :: past) =
          kills cfg w.path past + if Kills cfg w l then 1 else 0 := by
        rw [kills, if_pos hstay.symm, hstay]
      constructor
      · rw [hentry, hkills, hcount, ih.count]
        exact Nat.add_assoc _ _ _
      · rw [hkills, hcount]
        intro hpos
        by_cases hkill : Kills cfg w l
        · rw [if_pos hkill]
          exact Nat.succ_le_succ (hbudget hkill)
        · rw [if_neg hkill] at hpos ⊢
          exact ih.bound hpos
    · have hleft : w.path ≠ (after mach cfg w l).path := Ne.symm hstay
      constructor
      · rw [countAtEntry, if_neg hleft, kills, if_neg hleft]
        rfl
      · rw [kills, if_neg hleft]
        exact fun h => absurd h (Nat.lt_irrefl 0)

theorem stay_of_kills {cgroup : Option Bool} (h : killLxcResult cfg w cgroup = none) :
    (after mach cfg w (.killLxc cgroup)).path = w.path := by
  have hemitted : emitted mach cfg w (.killLxc cgroup) = none := h
  rw [after, hemitted]
  show (effect mach cfg w (.killLxc cgroup)).path = w.path
  exact effect_path

theorem killLxcResult_of_pids {opened : Bool} (hpids : pids w opened ≠ 0) :
    killLxcResult cfg w (some opened) =
      if cfg.killerRetries < w.killerCount then some .onError else none := by
  rw [killLxcResult, if_neg hpids]

/-- One step has the full budget exactly if the counter was fresh. -/
theorem fullBudget_iff (run : (handlerRuns mach cfg).Run past w) (hen : Enabled cfg w l) :
    FullBudget mach cfg past w l ↔ FreshCount mach cfg past w l := by
  have hleaf := leaf_of_run run
  have hcounted := counted_of_run run
  constructor
  · intro h
    refine ⟨fun hrun hother => ?_, ?_, ?_⟩
    · by_contra hleft
      obtain ⟨opened, rfl, -⟩ := h hrun hleft
      exact hother _ rfl
    · rintro rfl
      obtain ⟨opened, heq, -⟩ := h hen (leaves_of_result hleaf hen rfl)
      cases heq
    · rintro opened rfl hpids hover
      have hresult : killLxcResult cfg w (some opened) = some .onError := by
        rw [killLxcResult_of_pids hpids, if_pos hover]
      obtain ⟨opened', heq, hnone | hbudget⟩ := h hen (leaves_of_result hleaf hen hresult)
      · cases heq
        exact absurd hnone hpids
      · have hcount := hcounted.count
        have hbound := hcounted.bound (by omega)
        omega
  · intro h hrun hleft
    cases l with
    | killLxc cgroup =>
      cases cgroup with
      | none => exact absurd rfl h.configured
      | some opened =>
        refine ⟨opened, rfl, or_iff_not_imp_left.mpr fun hpids => ?_⟩
        by_cases hover : cfg.killerRetries < w.killerCount
        · have hcount := hcounted.count
          have hfresh := h.fresh opened rfl hpids hover
          omega
        · have hresult : killLxcResult cfg w (some opened) = none := by
            rw [killLxcResult_of_pids hpids, if_neg hover]
          exact absurd (stay_of_kills hresult) hleft
    | _ => exact absurd (h.alone hrun fun _ heq => by cases heq) hleft

end Counting

section Examples

def noRetries : Config := { config with killerRetries := 0 }

/-- The way of a zombie to the killing of its container. -/
def reaping : List Label :=
  [.finish .onDone, .finish .onDone, .finish .onDone, .checkLxc]

/-- A container is killed and killed again, and the next round gives up at once. -/
def twoRounds : List Label :=
  [.event .onCmdCatchZombie, .finish .onDone, .finish .onDone] ++ reaping ++
    [.killLxc (some true), .killLxc (some true), .event .onStateTimeout] ++ reaping ++
    [.killLxc (some true)]

end Examples

end Qvd.LxcKiller
