import Mathlib.Data.List.Dedup
import Mathlib.Logic.Function.Basic
import Qvd.Runs
import Qvd.VmRuntimeRow

/-!
The abort of a user session: the programs that request it through user_cmd, the monitor
of the cluster, and the killer of each host that consumes the requests of its sessions.
The statements on the table, the notifications and the callbacks are separate steps, and
the start and stop commands of the same rows run between them.
-/
namespace Qvd.AbortProtocol

open Runs VmRuntimeRow

abbrev VmId := ℕ

/-- The name of a notification channel: a text with the id of a host at its end. -/
structure Channel where
  text : String
  host : Option HostId
deriving DecidableEq, Repr

/-- The channel the killer of a host listens to. -/
def killerChannel (nodeId : HostId) : Channel where
  text := "qvd_cmd_for_user_on_host"
  host := some nodeId

/-- The channel a contending L7R notifies, by the host in its object of the row. -/
def takeoverChannel (l7rHostId : Option HostId) : Channel where
  text := "qvd_cmd_for_user_on_host"
  host := l7rHostId

/-- The channel the cluster monitor notifies. -/
def monitorChannel (l7rHostId : Option HostId) : Channel where
  text := "qvd_user_cmd_for_host"
  host := l7rHostId

/-- The comparison of SQL, which has no truth value when a side is NULL. -/
def sqlEq {β : Type} [DecidableEq β] : Option β → Option β → Option Bool
  | some x, some y => some (decide (x = y))
  | _, _ => none

theorem sqlEq_null {β : Type} [DecidableEq β] (x : Option β) : sqlEq x none = none := by
  cases x <;> rfl

/-- The update of the cluster monitor that requests aborts. -/
def abortL7rs : Statement := fun row =>
  if row.userState = .connected ∧ row.vmState = .stopped ∧
      sqlEq row.userCmd none = some true then
    some { row with userCmd := some .abort }
  else none

/-- What the killer of a host selects: an abort for a connected session of the host. -/
def Visible (nodeId : HostId) (row : VmRuntime) : Prop :=
  row.l7rHostId = some nodeId ∧ row.userState = .connected ∧ row.userCmd = some .abort

instance (nodeId : HostId) (row : VmRuntime) : Decidable (Visible nodeId row) := by
  unfold Visible
  infer_instance

/-- The update of the killer that consumes the aborts of its host. -/
def loadUserCmds (nodeId : HostId) : Statement := fun row =>
  if Visible nodeId row then some { row with vmCmd := none } else none

/-- A program that requests an abort: it has loaded the row, as the API or as an L7R that
contends for the session, or it has still to notify the channel it has named. -/
inductive Requester
  | idle
  | api (vm : VmId) (object : VmRuntime)
  | contending (vm : VmId) (object : VmRuntime)
  | requested (channel : Channel)
deriving DecidableEq, Repr

structure World (R : Type*) where
  vms : List VmId
  rows : VmId → VmRuntime
  requesters : R → Requester
  hostsToBeNotified : List (Option HostId)
  l7rs : HostId → List (VmId × Option Pid)
  notified : List Channel
  aborted : List (HostId × Option Pid)

inductive Action (R : Type*)
  | apiLoad (r : R) (vm : VmId)
  | apiAbort (r : R)
  | takeoverLoad (r : R) (vm : VmId)
  | takeoverAbort (r : R)
  | takeoverNotify (r : R)
  | abortL7rs
  | notifyHkds
  | loadUserCmds (nodeId : HostId)
  | killL7rs (nodeId : HostId)
  | sendVmCmd (vm : VmId) (object : VmRuntime) (cmd : VmCmd)
  | loadStopCmds (nodeId : HostId)
  | loadStartCmds (now : Time) (nodeId : HostId)
  | write (vm : VmId) (row : VmRuntime)

section Steps

variable {R : Type*} [DecidableEq R]

namespace World

def setRow (w : World R) (vm : VmId) (row : VmRuntime) : World R :=
  { w with rows := Function.update w.rows vm row }

def setRequester (w : World R) (r : R) (requester : Requester) : World R :=
  { w with requesters := Function.update w.requesters r requester }

/-- A statement runs on every row of the table. -/
def exec (w : World R) (s : Statement) : World R :=
  { w with rows := fun vm => s.run (w.rows vm) }

/-- The machines whose rows a statement selects. -/
def selected (w : World R) (s : Statement) : List VmId :=
  w.vms.filter (fun vm => (s (w.rows vm)).isSome)

/-- The abort through a loaded object; its death ends the request. -/
def requestAbort (w : World R) (r : R) (vm : VmId) (object : VmRuntime)
    (next : Requester) : World R :=
  match sendUserAbort object (w.rows vm) with
  | .ok u => (w.setRow vm u.row).setRequester r next
  | .error _ => w.setRequester r .idle

/-- The monitor's update, which returns the hosts of the rows it changes. -/
def abortL7rs (w : World R) : World R :=
  { w.exec AbortProtocol.abortL7rs with
    hostsToBeNotified :=
      (w.selected AbortProtocol.abortL7rs).map (fun vm => (w.rows vm).l7rHostId) }

def notifyHkds (w : World R) : World R :=
  { w with
    notified := w.hostsToBeNotified.dedup.map monitorChannel ++ w.notified
    hostsToBeNotified := [] }

/-- The killer's update, which returns the processes of the rows it changes. -/
def loadUserCmds (w : World R) (nodeId : HostId) : World R :=
  { w.exec (AbortProtocol.loadUserCmds nodeId) with
    l7rs := Function.update w.l7rs nodeId
      ((w.selected (AbortProtocol.loadUserCmds nodeId)).map
        (fun vm => (vm, (w.rows vm).l7rPid))) }

/-- The callback of the killer for each process it has loaded. -/
def killL7rs (w : World R) (nodeId : HostId) : World R :=
  { w with
    aborted := (w.l7rs nodeId).map (fun l7r => (nodeId, l7r.2)) ++ w.aborted
    l7rs := Function.update w.l7rs nodeId [] }

def sendVmCmd (w : World R) (vm : VmId) (object : VmRuntime) (cmd : VmCmd) : World R :=
  match VmRuntimeRow.sendVmCmd object (w.rows vm) cmd with
  | .ok u => w.setRow vm u.row
  | .error _ => w

end World

/-- One atomic step. The last one stands for every other program that writes a row. -/
inductive Step : World R → Action R → World R → Prop
  | apiLoad {w : World R} {r : R} {vm : VmId} (h : w.requesters r = .idle) :
      Step w (.apiLoad r vm) (w.setRequester r (.api vm (w.rows vm)))
  | apiAbort {w : World R} {r : R} {vm : VmId} {object : VmRuntime}
      (h : w.requesters r = .api vm object) :
      Step w (.apiAbort r) (w.requestAbort r vm object .idle)
  | takeoverLoad {w : World R} {r : R} {vm : VmId} (h : w.requesters r = .idle) :
      Step w (.takeoverLoad r vm) (w.setRequester r (.contending vm (w.rows vm)))
  | takeoverAbort {w : World R} {r : R} {vm : VmId} {object : VmRuntime}
      (h : w.requesters r = .contending vm object) :
      Step w (.takeoverAbort r)
        (w.requestAbort r vm object (.requested (takeoverChannel object.l7rHostId)))
  | takeoverNotify {w : World R} {r : R} {channel : Channel}
      (h : w.requesters r = .requested channel) :
      Step w (.takeoverNotify r)
        { w.setRequester r .idle with notified := channel :: w.notified }
  | abortL7rs {w : World R} : Step w .abortL7rs w.abortL7rs
  | notifyHkds {w : World R} : Step w .notifyHkds w.notifyHkds
  | loadUserCmds {w : World R} {nodeId : HostId} (h : w.l7rs nodeId = []) :
      Step w (.loadUserCmds nodeId) (w.loadUserCmds nodeId)
  | killL7rs {w : World R} {nodeId : HostId} : Step w (.killL7rs nodeId) (w.killL7rs nodeId)
  | sendVmCmd {w : World R} {vm : VmId} {object : VmRuntime} {cmd : VmCmd} :
      Step w (.sendVmCmd vm object cmd) (w.sendVmCmd vm object cmd)
  | loadStopCmds {w : World R} {nodeId : HostId} :
      Step w (.loadStopCmds nodeId) (w.exec (loadStopCmds nodeId))
  | loadStartCmds {w : World R} {now : Time} {nodeId : HostId} :
      Step w (.loadStartCmds now nodeId) (w.exec (loadStartCmds now nodeId))
  | write {w : World R} {vm : VmId} {row : VmRuntime} : Step w (.write vm row) (w.setRow vm row)

/-- Runs from any table, with no request and no abort on its way. -/
def abortSystem (R : Type*) [DecidableEq R] : System (World R) (Action R) where
  init w := (∀ r, w.requesters r = .idle) ∧ w.hostsToBeNotified = [] ∧
    (∀ nodeId, w.l7rs nodeId = []) ∧ w.notified = [] ∧ w.aborted = []
  step := Step

end Steps

section Specification

variable {R : Type*} [DecidableEq R]

def KeepsVmCmds (w w' : World R) : Prop :=
  ∀ vm ∈ w.vms, (w'.rows vm).vmCmd = (w.rows vm).vmCmd

/-- A connected session whose machine is stopped has its abort requested. -/
def Requested (row : VmRuntime) : Prop :=
  row.userState = .connected → row.vmState = .stopped → row.userCmd = some .abort

/-- What the abort of a contending L7R is announced on is the channel of the killer of the
host that runs the session. -/
def Announced (w w' : World R) (r : R) : Prop :=
  ∀ vm object channel nodeId, w.requesters r = .contending vm object →
    w'.requesters r = .requested channel → (w'.rows vm).userState = .connected →
    (w'.rows vm).l7rHostId = some nodeId → channel = killerChannel nodeId

/-- The hosts of the requested aborts are all notified on the channels of their killers. -/
def Notified (w w' : World R) : Prop :=
  ∃ channels, w'.notified = channels ++ w.notified ∧
    ∀ nodeId, some nodeId ∈ w.hostsToBeNotified → killerChannel nodeId ∈ channels

/-- A killer takes every abort it can see, and none of them can be taken again. -/
def Consumed (w w' : World R) (nodeId : HostId) : Prop :=
  ∀ vm ∈ w.vms, Visible nodeId (w.rows vm) →
    (vm, (w.rows vm).l7rPid) ∈ w'.l7rs nodeId ∧ (w'.rows vm).userCmd = none ∧
      ∀ other, ¬ Visible other (w'.rows vm)

/-- What the protocol promises of one transition. -/
def AbortOk (w : World R) (a : Action R) (w' : World R) : Prop :=
  match a with
  | .takeoverAbort r => KeepsVmCmds w w' ∧ Announced w w' r
  | .abortL7rs => KeepsVmCmds w w' ∧ (∀ vm ∈ w.vms, Requested (w'.rows vm)) ∧
      ∀ vm ∈ w.vms, (w.rows vm).userCmd ≠ (w'.rows vm).userCmd →
        (w.rows vm).l7rHostId ∈ w'.hostsToBeNotified
  | .notifyHkds => KeepsVmCmds w w' ∧ Notified w w'
  | .loadUserCmds nodeId => KeepsVmCmds w w' ∧ Consumed w w' nodeId
  | .sendVmCmd _ _ _ | .loadStopCmds _ | .loadStartCmds _ _ | .write _ _ => True
  | _ => KeepsVmCmds w w'

/-- The steps that do what they promise: the abort of an L7R finds the session on the host
it was loaded with, the monitor finds no session it has still to abort and has no host to
notify, and a killer finds nothing to consume. -/
def StepOk (w : World R) : Action R → Prop
  | .takeoverAbort r => ∀ vm object nodeId, w.requesters r = .contending vm object →
      validUserCmd .abort object.userState = true → (w.rows vm).userState = .connected →
      (w.rows vm).l7rHostId = some nodeId → object.l7rHostId = some nodeId
  | .abortL7rs => ∀ vm ∈ w.vms, Requested (w.rows vm)
  | .notifyHkds => ∀ nodeId, some nodeId ∉ w.hostsToBeNotified
  | .loadUserCmds nodeId => ∀ vm ∈ w.vms, ¬ Visible nodeId (w.rows vm)
  | _ => True

end Specification

section StepLemmas

variable {R : Type*} [DecidableEq R]

/-- The comparison with NULL keeps the monitor's update from selecting any row. -/
theorem abortL7rs_selects_nothing (row : VmRuntime) : abortL7rs row = none := by
  unfold abortL7rs
  rw [if_neg]
  rintro ⟨-, -, h⟩
  rw [sqlEq_null] at h
  cases h

omit [DecidableEq R] in
theorem exec_abortL7rs (w : World R) (vm : VmId) :
    (w.abortL7rs.rows vm) = w.rows vm := by
  show (abortL7rs (w.rows vm)).getD (w.rows vm) = w.rows vm
  rw [abortL7rs_selects_nothing]
  rfl

/-- The killer's update changes vm_cmd and nothing else. -/
theorem loadUserCmds_run (nodeId : HostId) (row : VmRuntime) :
    (loadUserCmds nodeId).run row =
      { row with vmCmd := if Visible nodeId row then none else row.vmCmd } := by
  unfold Statement.run loadUserCmds
  split
  · rfl
  · rfl

omit [DecidableEq R] in
theorem rows_loadUserCmds (w : World R) (nodeId : HostId) (vm : VmId) :
    (w.loadUserCmds nodeId).rows vm = (loadUserCmds nodeId).run (w.rows vm) :=
  rfl

/-- A request of an abort changes user_cmd of one row, or nothing. -/
theorem rows_requestAbort (w : World R) (r : R) (vm : VmId) (object : VmRuntime)
    (next : Requester) (other : VmId) :
    ∃ cmd, (w.requestAbort r vm object next).rows other =
      { w.rows other with userCmd := cmd } := by
  unfold World.requestAbort
  cases h : sendUserAbort object (w.rows vm) with
  | error e => exact ⟨(w.rows other).userCmd, rfl⟩
  | ok u =>
    have hrow := sendUserCmd_ok h
    by_cases hvm : other = vm
    · subst hvm
      refine ⟨written object.userCmd (some .abort) (w.rows other).userCmd, ?_⟩
      simp only [World.setRequester, World.setRow, Function.update_self]
      exact hrow
    · refine ⟨(w.rows other).userCmd, ?_⟩
      simp only [World.setRequester, World.setRow, Function.update_of_ne hvm]

theorem keepsVmCmds_requestAbort (w : World R) (r : R) (vm : VmId) (object : VmRuntime)
    (next : Requester) : KeepsVmCmds w (w.requestAbort r vm object next) := by
  intro other _
  obtain ⟨cmd, hrow⟩ := rows_requestAbort w r vm object next other
  rw [hrow]

/-- The requester goes on exactly if the command is valid for its object. -/
theorem requester_requestAbort (w : World R) (r : R) (vm : VmId) (object : VmRuntime)
    (next : Requester) :
    (w.requestAbort r vm object next).requesters r =
      if validUserCmd .abort object.userState then next else .idle := by
  unfold World.requestAbort sendUserAbort sendUserCmd
  by_cases h : validUserCmd .abort object.userState = true
  · simp [h, World.setRequester]
  · simp [h, World.setRequester]

/-- An announcement reaches the right killer exactly if the session has not moved to
another host since the L7R has loaded the row. -/
theorem announced_iff (w : World R) (r : R) (vm : VmId) (object : VmRuntime)
    (h : w.requesters r = .contending vm object) :
    Announced w (w.requestAbort r vm object (.requested (takeoverChannel object.l7rHostId))) r ↔
      StepOk w (.takeoverAbort r) := by
  obtain ⟨cmd, hrow⟩ := rows_requestAbort w r vm object
    (.requested (takeoverChannel object.l7rHostId)) vm
  constructor
  · intro hann vm' object' nodeId hcontending hvalid hconnected hhost
    obtain ⟨rfl, rfl⟩ := Requester.contending.inj (h.symm.trans hcontending)
    have hchannel := hann vm object (takeoverChannel object.l7rHostId) nodeId h
      (by rw [requester_requestAbort, if_pos hvalid]) (by rw [hrow]; exact hconnected)
      (by rw [hrow]; exact hhost)
    exact (Channel.mk.inj hchannel).2
  · intro hok vm' object' channel nodeId hcontending hrequested hconnected hhost
    obtain ⟨rfl, rfl⟩ := Requester.contending.inj (h.symm.trans hcontending)
    rw [requester_requestAbort] at hrequested
    by_cases hvalid : validUserCmd .abort object.userState = true
    · rw [if_pos hvalid] at hrequested
      rw [hrow] at hconnected hhost
      rw [← Requester.requested.inj hrequested, takeoverChannel, killerChannel,
        hok vm object nodeId h hvalid hconnected hhost]
    · rw [if_neg hvalid] at hrequested
      cases hrequested

omit [DecidableEq R] in
/-- The monitor's pass leaves every row as it is, so it requests what was requested. -/
theorem abortL7rs_ok_iff (w : World R) :
    (KeepsVmCmds w w.abortL7rs ∧ (∀ vm ∈ w.vms, Requested (w.abortL7rs.rows vm)) ∧
      ∀ vm ∈ w.vms, (w.rows vm).userCmd ≠ (w.abortL7rs.rows vm).userCmd →
        (w.rows vm).l7rHostId ∈ w.abortL7rs.hostsToBeNotified) ↔
      ∀ vm ∈ w.vms, Requested (w.rows vm) := by
  have hkeeps : KeepsVmCmds w w.abortL7rs := by
    intro vm _
    rw [exec_abortL7rs]
  constructor
  · rintro ⟨-, h, -⟩ vm hvm
    rw [← exec_abortL7rs w vm]
    exact h vm hvm
  · intro h
    refine ⟨hkeeps, ?_, ?_⟩
    · intro vm hvm
      rw [exec_abortL7rs]
      exact h vm hvm
    · intro vm _ hne
      rw [exec_abortL7rs] at hne
      exact absurd rfl hne

/-- No killer listens to a channel of the monitor. -/
theorem monitorChannel_ne (l7rHostId : Option HostId) (nodeId : HostId) :
    monitorChannel l7rHostId ≠ killerChannel nodeId := by
  intro h
  have htext := (Channel.mk.inj h).1
  revert htext
  decide

omit [DecidableEq R] in
theorem notified_iff (w : World R) :
    Notified w w.notifyHkds ↔ ∀ nodeId, some nodeId ∉ w.hostsToBeNotified := by
  constructor
  · rintro ⟨channels, hnotified, hall⟩ nodeId hmem
    have hchannels : w.hostsToBeNotified.dedup.map monitorChannel = channels :=
      List.append_cancel_right hnotified
    have hkiller := hall nodeId hmem
    rw [← hchannels, List.mem_map] at hkiller
    obtain ⟨host, -, heq⟩ := hkiller
    exact monitorChannel_ne host nodeId heq
  · intro h
    exact ⟨_, rfl, fun nodeId hmem => absurd hmem (h nodeId)⟩

omit [DecidableEq R] in
/-- The killer's pass leaves user_cmd, so whatever it takes is there to be taken again. -/
theorem consumed_iff (w : World R) (nodeId : HostId) :
    Consumed w (w.loadUserCmds nodeId) nodeId ↔
      ∀ vm ∈ w.vms, ¬ Visible nodeId (w.rows vm) := by
  constructor
  · intro h vm hvm hvisible
    obtain ⟨-, hcleared, -⟩ := h vm hvm hvisible
    rw [rows_loadUserCmds, loadUserCmds_run] at hcleared
    rw [hvisible.2.2] at hcleared
    cases hcleared
  · intro h vm hvm hvisible
    exact absurd hvisible (h vm hvm)

omit [DecidableEq R] in
theorem keepsVmCmds_loadUserCmds (w : World R) (nodeId : HostId)
    (h : ∀ vm ∈ w.vms, ¬ Visible nodeId (w.rows vm)) :
    KeepsVmCmds w (w.loadUserCmds nodeId) := by
  intro vm hvm
  rw [rows_loadUserCmds, loadUserCmds_run]
  exact if_neg (h vm hvm)

/-- A transition keeps the promises exactly if its step meets the condition. -/
theorem abortOk_iff {w w' : World R} {a : Action R} (h : Step w a w') :
    AbortOk w a w' ↔ StepOk w a := by
  cases h with
  | apiAbort h => simp only [AbortOk, StepOk, keepsVmCmds_requestAbort]
  | takeoverAbort h =>
    simp only [AbortOk, keepsVmCmds_requestAbort, true_and]
    exact announced_iff w _ _ _ h
  | abortL7rs => exact abortL7rs_ok_iff w
  | notifyHkds =>
    have hkeeps : KeepsVmCmds w w.notifyHkds := fun vm _ => rfl
    exact (and_iff_right hkeeps).trans (notified_iff w)
  | loadUserCmds h =>
    show KeepsVmCmds _ _ ∧ Consumed _ _ _ ↔ _
    rw [consumed_iff]
    exact ⟨fun h => h.2, fun h => ⟨keepsVmCmds_loadUserCmds w _ h, h⟩⟩
  | apiLoad _ | takeoverLoad _ | takeoverNotify _ | killL7rs =>
    exact iff_of_true (fun vm _ => rfl) trivial
  | sendVmCmd | loadStopCmds | loadStartCmds | write => exact Iff.rfl

end StepLemmas

section Runs

variable {R : Type*} [DecidableEq R]

/-- A table with one machine, its session connected through a process of host 1. -/
def oneSession (vmState : VmState) (vmCmd : Option VmCmd) (userCmd : Option UserCmd) :
    World Unit where
  vms := [7]
  rows := fun _ => { VmRuntime.fresh with
    hostId := some 2, vmState := vmState, vmCmd := vmCmd, userState := .connected
    userCmd := userCmd, l7rHostId := some 1, l7rPid := some 100 }
  requesters := fun _ => .idle
  hostsToBeNotified := []
  l7rs := fun _ => []
  notified := []
  aborted := []

theorem oneSession_run (vmState : VmState) (vmCmd : Option VmCmd) (userCmd : Option UserCmd) :
    (abortSystem Unit).Run [] (oneSession vmState vmCmd userCmd) :=
  System.Run.start ⟨fun _ => rfl, rfl, fun _ => rfl, rfl, rfl⟩

end Runs

end Qvd.AbortProtocol
