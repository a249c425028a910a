import Qvd.SessionTakeover

/-!
Which process the row names at each point of each process's program, over all runs.
The row names the process of the last takeover while it is connecting, so a forwarder
transaction finds its own process there exactly when no other process has taken the
row over in the meantime.
-/
namespace Qvd.SessionExclusion

open Runs VmRuntimeRow SessionTakeover

section Invariant

variable {P : Type*}

/-- Two processes the row names have the same host and pid. -/
theorem names_same {row : VmRuntime} {a b : Process} (ha : Names row a) (hb : Names row b) :
    a.host = b.host ∧ a.pid = b.pid := by
  constructor
  · exact Option.some.inj (ha.1.symm.trans hb.1)
  · exact Option.some.inj (ha.2.symm.trans hb.2)

/-- The invariant of a run. -/
structure Inv (past : List (World P × Action P)) (w : World P) : Prop where
  distinct : ∀ p q, (w.processes p).phase.live = true → (w.processes q).phase.live = true →
    (w.processes p).host = (w.processes q).host → (w.processes p).pid = (w.processes q).pid →
    p = q
  taker : w.row.userState = .connecting →
    ∃ q, lastTaker past = some q ∧ Names w.row (w.processes q)
  born : ∀ q, lastTaker past = some q → (w.processes q).phase ≠ .unborn
  apart : ∀ p q, (w.processes p).phase = .holding → lastTaker past = some q →
    (w.processes p).host = (w.processes q).host → (w.processes p).pid = (w.processes q).pid →
    p = q

theorem inv_quiet {past past' : List (World P × Action P)} {w w' : World P}
    (hinv : Inv past w) (hquiet : Quiet w w') (hlast : lastTaker past' = lastTaker past) :
    Inv past' w' := by
  refine ⟨?_, ?_, ?_, ?_⟩
  · intro a b ha hb hhost hpid
    rw [(hquiet.ids a).1, (hquiet.ids b).1] at hhost
    rw [(hquiet.ids a).2, (hquiet.ids b).2] at hpid
    exact hinv.distinct a b (hquiet.live a ha) (hquiet.live b hb) hhost hpid
  · intro hcon
    obtain ⟨hold, hhost, hpid⟩ := hquiet.row hcon
    obtain ⟨q, hq, hnames⟩ := hinv.taker hold
    refine ⟨q, hlast.trans hq, ?_⟩
    rw [Names, hhost, hpid, (hquiet.ids q).1, (hquiet.ids q).2]
    exact hnames
  · intro q hq
    exact hquiet.born q (hinv.born q (hlast.symm.trans hq))
  · intro a q ha hq hhost hpid
    rw [(hquiet.ids a).1, (hquiet.ids q).1] at hhost
    rw [(hquiet.ids a).2, (hquiet.ids q).2] at hpid
    exact hinv.apart a q (hquiet.holding a ha) (hlast.symm.trans hq) hhost hpid

/-- While the row is connecting it names a holding process exactly if that process was
the last to take it over. -/
theorem names_iff_lastTaker {past : List (World P × Action P)} {w : World P} {p : P}
    (hinv : Inv past w) (hp : (w.processes p).phase = .holding)
    (hcon : w.row.userState = .connecting) :
    Names w.row (w.processes p) ↔ lastTaker past = some p := by
  obtain ⟨q, hq, hnames⟩ := hinv.taker hcon
  constructor
  · intro hown
    obtain ⟨hhost, hpid⟩ := names_same hown hnames
    obtain rfl := hinv.apart p q hp hq hhost hpid
    exact hq
  · intro hp'
    obtain rfl := Option.some.inj (hq.symm.trans hp')
    exact hnames

end Invariant

section Steps

variable {P : Type*} [DecidableEq P]

/-- A step is a birth, a successful takeover, or quiet; only the second changes the
process of the last takeover. -/
theorem step_cases {w w' : World P} {a : Action P} (h : Step w a w') :
    (∃ p host pid, a = .spawn p host pid ∧ (w.processes p).phase = .unborn ∧
      (∀ q, (w.processes q).phase.live = true →
        ¬ ((w.processes q).host = host ∧ (w.processes q).pid = pid)) ∧
      w' = w.spawn p host pid) ∨
    (∃ p now, a = .takeover p now ∧ (w.processes p).phase = .acquiring ∧
      w.row.userState = .disconnected ∧ w' = (w.setRow (setConnecting w.row w.row now
        (w.processes p).pid (w.processes p).host).row).setPhase p .holding) ∨
    (Quiet w w' ∧ ∀ past, lastTaker ((w, a) :: past) = lastTaker past) := by
  cases h with
  | @spawn p host pid hnew hfree => exact Or.inl ⟨p, host, pid, rfl, hnew, hfree, rfl⟩
  | @takeover p now hp =>
    by_cases hd : w.row.userState = .disconnected
    · exact Or.inr (Or.inl ⟨p, now, rfl, hp, hd, takeover_of_disconnected p now hd⟩)
    · right; right
      rw [takeover_of_connected p now hd]
      refine ⟨?_, fun past => by simp [lastTaker, hd]⟩
      exact quiet_setPhase (quiet_refl w) (by simp) (by simp) (fun _ => by rw [hp]; rfl)
  | request hp =>
    right; right
    refine ⟨?_, fun _ => rfl⟩
    exact quiet_setPhase (quiet_refl w) (by simp) (by simp) (fun _ => by rw [hp]; rfl)
  | reload hp =>
    right; right
    refine ⟨?_, fun _ => rfl⟩
    exact quiet_setPhase (quiet_refl w) (by simp) (by simp) (fun _ => by rw [hp]; rfl)
  | abort hp => exact Or.inr (Or.inr ⟨quiet_abort hp, fun _ => rfl⟩)
  | fail hp =>
    right; right
    exact ⟨quiet_setPhase (quiet_refl w) (by simp) (by simp) (fun _ => hp), fun _ => rfl⟩
  | runForwarder hp => exact Or.inr (Or.inr ⟨quiet_runForwarder hp, fun _ => rfl⟩)
  | exit hp =>
    right; right
    exact ⟨quiet_setPhase (quiet_refl w) (by simp) (by simp) (fun _ => hp), fun _ => rfl⟩
  | @cleanRow p now hp =>
    right; right
    have hrow := rowQuiet_clearing (w := w) (a := .cleanRow p now) rfl
    exact ⟨quiet_setPhase (quiet_setRow hrow) (by simp) (by simp) (fun h => by cases h),
      fun _ => rfl⟩
  | loseAgent hp =>
    right; right
    exact ⟨quiet_setPhase (quiet_refl w) (by simp) (by simp) (fun h => by cases h),
      fun _ => rfl⟩
  | markLost hp => exact Or.inr (Or.inr ⟨quiet_setHost w _ _, fun _ => rfl⟩)
  | saveHostState hp => exact Or.inr (Or.inr ⟨quiet_setHost w _ _, fun _ => rfl⟩)
  | @unassignL7rs now =>
    right; right
    exact ⟨quiet_setRow (rowQuiet_clearing (a := Action.unassignL7rs now) rfl), fun _ => rfl⟩
  | @cleanupZombieL7rs host =>
    right; right
    exact ⟨quiet_setRow (rowQuiet_clearing (a := .cleanupZombieL7rs host) rfl), fun _ => rfl⟩

theorem inv_init {w : World P} (h : (sessions P).init w) : Inv [] w := by
  refine ⟨?_, ?_, ?_, ?_⟩
  · intro p q hp
    rw [h.2 p] at hp
    cases hp
  · intro hcon
    rw [h.1] at hcon
    cases hcon
  · intro q hq
    cases hq
  · intro p q _ hq
    cases hq

theorem inv_spawn {past : List (World P × Action P)} {w : World P} {p : P} {host : HostId}
    {pid : Pid} (hinv : Inv past w) (hnew : (w.processes p).phase = .unborn)
    (hfree : ∀ q, (w.processes q).phase.live = true →
      ¬ ((w.processes q).host = host ∧ (w.processes q).pid = pid)) :
    Inv ((w, .spawn p host pid) :: past) (w.spawn p host pid) := by
  have hother : ∀ q, q ≠ p → (w.spawn p host pid).processes q = w.processes q := by
    intro q hq
    simp [World.spawn, hq]
  have hself : (w.spawn p host pid).processes p = ⟨host, pid, .idle⟩ := by
    simp [World.spawn]
  have htaker : ∀ q, lastTaker past = some q → q ≠ p := by
    rintro q hq rfl
    exact hinv.born q hq hnew
  refine ⟨?_, ?_, ?_, ?_⟩
  · intro a b ha hb hhost hpid
    by_cases hap : a = p
    · by_cases hbp : b = p
      · rw [hap, hbp]
      · rw [hother b hbp] at hb hhost hpid
        rw [hap, hself] at hhost hpid
        exact absurd ⟨hhost.symm, hpid.symm⟩ (hfree b hb)
    · rw [hother a hap] at ha hhost hpid
      by_cases hbp : b = p
      · rw [hbp, hself] at hhost hpid
        exact absurd ⟨hhost, hpid⟩ (hfree a ha)
      · rw [hother b hbp] at hb hhost hpid
        exact hinv.distinct a b ha hb hhost hpid
  · intro hcon
    obtain ⟨q, hq, hnames⟩ := hinv.taker hcon
    exact ⟨q, hq, by rw [hother q (htaker q hq)]; exact hnames⟩
  · intro q hq
    rw [hother q (htaker q hq)]
    exact hinv.born q hq
  · intro a q ha hq hhost hpid
    have hap : a ≠ p := by
      rintro rfl
      rw [hself] at ha
      cases ha
    rw [hother a hap] at ha hhost hpid
    rw [hother q (htaker q hq)] at hhost hpid
    exact hinv.apart a q ha hq hhost hpid

theorem inv_takeover {past : List (World P × Action P)} {w : World P} {p : P} {now : Time}
    (hinv : Inv past w) (hp : (w.processes p).phase = .acquiring)
    (hd : w.row.userState = .disconnected) :
    Inv ((w, .takeover p now) :: past) ((w.setRow (setConnecting w.row w.row now
      (w.processes p).pid (w.processes p).host).row).setPhase p .holding) := by
  generalize hw' : (w.setRow (setConnecting w.row w.row now (w.processes p).pid
    (w.processes p).host).row).setPhase p .holding = w'
  have hids : ∀ q, (w'.processes q).host = (w.processes q).host ∧
      (w'.processes q).pid = (w.processes q).pid := by
    intro q
    by_cases hq : q = p
    · subst hq
      simp [← hw', World.setPhase, World.setRow]
    · simp [← hw', World.setPhase, World.setRow, hq]
  have hlive : ∀ q, (w'.processes q).phase.live = true →
      (w.processes q).phase.live = true := by
    intro q
    by_cases hq : q = p
    · subst hq
      intro _
      rw [hp]
      rfl
    · simp [← hw', World.setPhase, World.setRow, hq]
  have hself : (w'.processes p).phase = .holding := by
    simp [← hw', World.setPhase]
  have hlast : lastTaker ((w, .takeover p now) :: past) = some p := by
    simp [lastTaker, hd]
  have hdistinct : ∀ a b, (w'.processes a).phase.live = true →
      (w'.processes b).phase.live = true → (w'.processes a).host = (w'.processes b).host →
      (w'.processes a).pid = (w'.processes b).pid → a = b := by
    intro a b ha hb hhost hpid
    rw [(hids a).1, (hids b).1] at hhost
    rw [(hids a).2, (hids b).2] at hpid
    exact hinv.distinct a b (hlive a ha) (hlive b hb) hhost hpid
  refine ⟨hdistinct, ?_, ?_, ?_⟩
  · intro _
    refine ⟨p, hlast, ?_⟩
    rw [Names, (hids p).1, (hids p).2]
    simp [← hw', World.setPhase, World.setRow, setConnecting]
  · intro q hq
    obtain rfl := Option.some.inj (hlast.symm.trans hq)
    rw [hself]
    simp
  · intro a q ha hq hhost hpid
    obtain rfl := Option.some.inj (hlast.symm.trans hq)
    have hla : (w'.processes a).phase.live = true := by rw [ha]; rfl
    have hlp : (w'.processes p).phase.live = true := by rw [hself]; rfl
    exact hdistinct a p hla hlp hhost hpid

theorem inv_step {past : List (World P × Action P)} {w w' : World P} {a : Action P}
    (hinv : Inv past w) (h : Step w a w') : Inv ((w, a) :: past) w' := by
  rcases step_cases h with ⟨p, host, pid, rfl, hnew, hfree, rfl⟩ |
    ⟨p, now, rfl, hp, hd, rfl⟩ | ⟨hquiet, hlast⟩
  · exact inv_spawn hinv hnew hfree
  · exact inv_takeover hinv hp hd
  · exact inv_quiet hinv hquiet (hlast past)

theorem inv_run {past : List (World P × Action P)} {w : World P}
    (run : (sessions P).Run past w) : Inv past w :=
  run.invariant (fun _ h => inv_init h) (fun _ _ _ _ hinv h => inv_step hinv h)

theorem step_own_iff {past : List (World P × Action P)} {w w' : World P} {a : Action P}
    (hinv : Inv past w) (h : Step w a w') : ConnectsOwnRow w a ↔ NoTakeoverSince past w a := by
  constructor
  · rintro hown p now rfl hcon
    cases h with
    | runForwarder hp => exact (names_iff_lastTaker hinv hp hcon.2).mp (hown p now rfl hcon)
  · rintro hlast p now rfl hcon
    cases h with
    | runForwarder hp => exact (names_iff_lastTaker hinv hp hcon.2).mpr (hlast p now rfl hcon)

end Steps

section Sparing

variable {P : Type*} [DecidableEq P]

/-- A holding process finds the row connecting and itself in it. -/
def HolderNamed (w : World P) : Prop :=
  ∀ p, (w.processes p).phase = .holding →
    w.row.userState = .connecting ∧ Names w.row (w.processes p)

/-- The session columns a step leaves: all of them, unless it is a takeover, a clearing
statement that selects the row, or a forwarder transaction that goes through. -/
theorem step_row {w w' : World P} {a : Action P} (h : Step w a w') :
    (w'.row.userState = w.row.userState ∧ w'.row.l7rHostId = w.row.l7rHostId ∧
      w'.row.l7rPid = w.row.l7rPid) ∨
    (∃ p now, a = .takeover p now ∧ w.row.userState = .disconnected) ∨
    (∃ s, clearing w a = some s ∧ s w.row ≠ none) ∨
    (∃ p now, a = .runForwarder p now ∧ (w.processes p).phase = .holding ∧
      (w'.processes p).phase = .forwarding) := by
  have hclear : ∀ s : Statement, clearing w a = some s → w'.row = s.run w.row →
      (w'.row.userState = w.row.userState ∧ w'.row.l7rHostId = w.row.l7rHostId ∧
        w'.row.l7rPid = w.row.l7rPid) ∨ (∃ s, clearing w a = some s ∧ s w.row ≠ none) := by
    intro s hs hrow
    by_cases hnone : s w.row = none
    · left
      rw [hrow, Statement.run, hnone]
      exact ⟨rfl, rfl, rfl⟩
    · exact Or.inr ⟨s, hs, hnone⟩
  cases h with
  | @takeover p now hp =>
    by_cases hd : w.row.userState = .disconnected
    · exact Or.inr (Or.inl ⟨p, now, rfl, hd⟩)
    · left
      rw [takeover_of_connected p now hd]
      exact ⟨rfl, rfl, rfl⟩
  | @abort p object hp =>
    left
    unfold World.abort
    cases hsend : sendUserAbort object w.row with
    | error e => exact ⟨rfl, rfl, rfl⟩
    | ok u =>
      show u.row.userState = _ ∧ u.row.l7rHostId = _ ∧ u.row.l7rPid = _
      rw [sendUserCmd_ok hsend]
      exact ⟨rfl, rfl, rfl⟩
  | @runForwarder p now hp =>
    unfold World.runForwarder forwarderTxn
    by_cases hcon : Connects w.row
    · right; right; right
      rw [if_pos hcon]
      exact ⟨p, now, rfl, hp, by simp [World.setPhase]⟩
    · left
      rw [if_neg hcon]
      exact ⟨rfl, rfl, rfl⟩
  | cleanRow hp =>
    rcases hclear _ rfl rfl with hsame | hsel
    · exact Or.inl hsame
    · exact Or.inr (Or.inr (Or.inl hsel))
  | unassignL7rs =>
    rcases hclear _ rfl rfl with hsame | hsel
    · exact Or.inl hsame
    · exact Or.inr (Or.inr (Or.inl hsel))
  | cleanupZombieL7rs =>
    rcases hclear _ rfl rfl with hsame | hsel
    · exact Or.inl hsame
    · exact Or.inr (Or.inr (Or.inl hsel))
  | _ => exact Or.inl ⟨rfl, rfl, rfl⟩

/-- A process that holds after a step held before it, or has just taken the row over. -/
theorem holding_step {w w' : World P} {a : Action P} (h : Step w a w') {p : P}
    (hp : (w'.processes p).phase = .holding) :
    ((w.processes p).phase = .holding ∧ (w'.processes p).host = (w.processes p).host ∧
      (w'.processes p).pid = (w.processes p).pid) ∨
    (w.row.userState = .disconnected ∧ w'.row.userState = .connecting ∧
      Names w'.row (w'.processes p)) := by
  rcases step_cases h with ⟨q, host, pid, rfl, hnew, -, rfl⟩ | ⟨q, now, rfl, hq, hd, rfl⟩ |
    ⟨hquiet, -⟩
  · left
    by_cases hpq : p = q
    · subst hpq
      simp [World.spawn] at hp
    · simp [World.spawn, hpq] at hp ⊢
      exact hp
  · by_cases hpq : p = q
    · subst hpq
      right
      refine ⟨hd, ?_, ?_⟩
      · simp [World.setPhase, World.setRow, setConnecting]
      · simp [World.setPhase, World.setRow, setConnecting, Names]
    · left
      simp [World.setPhase, World.setRow, hpq] at hp ⊢
      exact hp
  · exact Or.inl ⟨hquiet.holding p hp, hquiet.ids p⟩

theorem holderNamed_step {past : List (World P × Action P)} {w w' : World P} {a : Action P}
    (hinv : Inv past w) (hnamed : HolderNamed w) (hspare : SparesHolder w a)
    (h : Step w a w') : HolderNamed w' := by
  intro p hp
  rcases holding_step h hp with ⟨hold, hhost, hpid⟩ | ⟨-, hcon, hnames⟩
  · obtain ⟨hcon, hnames⟩ := hnamed p hold
    rcases step_row h with ⟨hstate, hrowHost, hrowPid⟩ | ⟨q, now, -, hd⟩ | ⟨s, hs, hsel⟩ |
      ⟨q, now, rfl, hq, hafter⟩
    · refine ⟨hstate.trans hcon, ?_⟩
      rw [Names, hrowHost, hrowPid, hhost, hpid]
      exact hnames
    · rw [hd] at hcon
      cases hcon
    · exact absurd (hspare s p hs hold hnames) hsel
    · -- the process whose transaction goes through is the one the row names
      obtain ⟨hhost', hpid'⟩ := names_same hnames (hnamed q hq).2
      have hlp : (w.processes p).phase.live = true := by rw [hold]; rfl
      have hlq : (w.processes q).phase.live = true := by rw [hq]; rfl
      obtain rfl := hinv.distinct p q hlp hlq hhost' hpid'
      rw [hafter] at hp
      cases hp
  · exact ⟨hcon, hnames⟩

/-- When no cleaner clears the row under a holding process, every holding process finds
itself in the row, at every point of the run. -/
theorem holderNamed_run {past : List (World P × Action P)} {w : World P}
    (run : (sessions P).Run past w) (hspare : AllSteps SparesHolder past) :
    Always HolderNamed past w := by
  induction run with
  | start h =>
    refine ⟨?_, by simp⟩
    intro p hp
    rw [h.2 p] at hp
    cases hp
  | extend run hstep ih =>
    obtain ⟨ha, hpast⟩ := (allSteps_cons _ _ _ _).mp hspare
    have hnamed := ih hpast
    exact (always_cons _ _ _ _ _).mpr
      ⟨holderNamed_step (inv_run run) hnamed.1 ha hstep, hnamed⟩

theorem connectsOwnRow_of_sparing {past : List (World P × Action P)} {w : World P}
    (run : (sessions P).Run past w) (hspare : AllSteps SparesHolder past) :
    AllSteps ConnectsOwnRow past := by
  intro e he
  have hnamed := (holderNamed_run run hspare).2 e he
  obtain ⟨t, hstep⟩ := run.step_mem e he
  intro p now ha _
  rw [ha] at hstep
  cases hstep with
  | runForwarder hp => exact (hnamed p hp).2

end Sparing

section Exclusion

variable {P : Type*} [DecidableEq P]

/-- At most one process is in session. Every forwarder transaction connects its own
process's row exactly when no other process has taken the row over since that process
did; and this is so when no cleaner clears the row under a process still connecting. -/
theorem session_exclusion (past : List (World P × Action P)) (w : World P)
    (run : (sessions P).Run past w) :
    (∀ p q, InSession past w p → InSession past w q → p = q) ∧
    (AllSteps ConnectsOwnRow past ↔ EachStep NoTakeoverSince past) ∧
    (AllSteps SparesHolder past → AllSteps ConnectsOwnRow past) := by
  refine ⟨?_, ?_, connectsOwnRow_of_sparing run⟩
  · rintro p q ⟨-, hlp, hp⟩ ⟨-, hlq, hq⟩
    obtain ⟨hhost, hpid⟩ := names_same hp hq
    exact (inv_run run).distinct p q hlp hlq hhost hpid
  · rw [← eachStep_const]
    exact run.eachStep_congr (fun _ _ _ _ run hstep => step_own_iff (inv_run run) hstep)

end Exclusion

section TwoProcesses

/-- A running node, a disconnected row and no process yet. -/
def quietWorld : World ℕ where
  row := VmRuntime.fresh
  hosts := fun _ => some .running
  processes := fun _ => { host := 0, pid := 0, phase := .unborn }

/-- Process 1 on host 10 has taken the row over. -/
def firstHolds : World ℕ :=
  ((quietWorld.spawn 1 10 100).setPhase 1 .acquiring).takeover 1 5

theorem firstHolds_run : (sessions ℕ).Run
    [((quietWorld.spawn 1 10 100).setPhase 1 .acquiring, .takeover 1 5),
      (quietWorld.spawn 1 10 100, .request 1), (quietWorld, .spawn 1 10 100)] firstHolds := by
  have h0 : (sessions ℕ).Run [] quietWorld := System.Run.start ⟨rfl, fun _ => rfl⟩
  have hborn : Step quietWorld (.spawn 1 10 100) (quietWorld.spawn 1 10 100) :=
    Step.spawn rfl (fun q hq => by cases hq)
  exact ((h0.extend hborn).extend (Step.request rfl)).extend (Step.takeover rfl)

/-- No process of that world runs on the second host. -/
theorem firstHolds_host_ne (q : ℕ) : (firstHolds.processes q).host ≠ 11 := by
  by_cases hq : q = 1
  · subst hq
    decide
  · have htaken := takeover_of_disconnected
      (w := (quietWorld.spawn 1 10 100).setPhase 1 .acquiring) 1 5 rfl
    rw [firstHolds, htaken]
    simp [World.setPhase, World.setRow, World.spawn, quietWorld, hq]

theorem first_connects_own : AllSteps ConnectsOwnRow
    [(firstHolds, .runForwarder 1 6),
      ((quietWorld.spawn 1 10 100).setPhase 1 .acquiring, .takeover 1 5),
      (quietWorld.spawn 1 10 100, .request 1), (quietWorld, .spawn 1 10 100)] := by
  have hforward : Step firstHolds (.runForwarder 1 6) (firstHolds.runForwarder 1 6) :=
    Step.runForwarder rfl
  have run := firstHolds_run.extend hforward
  refine (session_exclusion _ _ run).2.1.mpr ⟨?_, ?_, ?_, ?_, trivial⟩
  · rintro p now ha -
    cases ha
    rfl
  all_goals
    rintro p now ha -
    cases ha

/-- The host of the first process is marked lost and its session is cleared, a second
process takes the row over, and the first one moves that row to connected. -/
theorem first_connects_other_row : ∃ past w, (sessions ℕ).Run past w ∧
    ¬ AllSteps ConnectsOwnRow past := by
  have hrunning : firstHolds.hosts 10 = some .running := rfl
  have h1 := firstHolds_run.extend (a := Action.markLost 10) (Step.markLost (Or.inl hrunning))
  have h2 := h1.extend (a := Action.unassignL7rs 6) Step.unassignL7rs
  have h3 := h2.extend (a := Action.spawn 2 11 200)
    (Step.spawn rfl (fun q _ hsame => firstHolds_host_ne q hsame.1))
  have h4 := (h3.extend (a := Action.request 2) (Step.request rfl)).extend
    (a := Action.takeover 2 7) (Step.takeover rfl)
  have h5 := h4.extend (a := Action.runForwarder 1 8) (Step.runForwarder rfl)
  refine ⟨_, _, h5, ?_⟩
  intro hall
  have hown := hall _ List.mem_cons_self 1 8 rfl (by decide)
  exact absurd hown (by decide)

end TwoProcesses

end Qvd.SessionExclusion
