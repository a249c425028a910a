import Qvd.L7rRequests
import Qvd.VmRuntimeRow

/-!
The machine a bearer token is bound to, against the machines that the requests to connect
and to stop act on.
-/
namespace Qvd.TokenScope

open Runs L7rAuthenticator L7rRequests VmRuntimeRow

/-- The object that serves a connection. Its key session is read by the processors; the
session a plugin finds is stored in the authenticator. -/
structure L7r where
  auth : Option Authenticated
  session : Option UserToken
deriving DecidableEq

def L7r.new : L7r where
  auth := none
  session := none

/-- The value of a parameter as a number in Perl, and as the key of a row in the database,
which may not accept it. -/
structure Numbers where
  perl : String → ℤ
  database : String → Option VmId

/-- A machine with its runtime row. -/
structure Machine where
  vm : Vm
  blocked : Bool
  runtime : VmRuntime
deriving DecidableEq

/-- What is done to a machine, through its row or its agent. -/
inductive Deed
  | setRealUser (user : UserId)
  | abort
  | takeOver
  | assign (host : HostId)
  | start
  | stop
  | startX
  | connect
deriving DecidableEq

structure Act where
  vm : VmId
  deed : Deed
deriving DecidableEq

inductive Response
  | serviceUnavailable
  | unauthorized
  | upgradeRequired
  | tokenMismatch
  | missingId
  | invalidParameters (names : List String)
  | notFound
  | notAllowed
  | notAvailable
  | unstoppable (state : VmState)
  | timeout
  | died
  | sessionEnded
  | machineStopped
deriving DecidableEq

structure Outcome where
  acts : List Act
  response : Response
deriving DecidableEq

inductive Wait
  | reached | stoppedUnexpectedly | timeout
deriving DecidableEq

/-- How far the session of a connection gets: the times the row is found taken, whether it
is taken, the host it has or gets, and the outcome of each later stage. -/
structure Progress where
  contended : ℕ
  acquired : Bool
  hasHost : Bool
  freeHost : Option HostId
  stillUnassigned : Bool
  aborted : Bool
  canStart : Bool
  wait : Wait
  xStarted : Bool
  xListening : Bool
  forwarded : Bool

/-- A request to connect to a machine or to stop it. -/
structure Query where
  call : Call
  hostBlocked : Bool
  connection : Option String
  upgrade : Option String
  params : List (String × Option String)
  machines : List Machine
  progress : Progress

namespace Query

/-- A parameter of the query; the last one of a name counts. -/
def param (q : Query) (name : String) : Option String :=
  (q.params.reverse.find? (fun p => p.1 = name)).bind Prod.snd

def upgrades (q : Query) : Bool :=
  q.connection = some "Upgrade" && q.upgrade = some "QVD/1.0"

/-- The parameters, the id apart, with other names than those of the client. -/
def forbidden (q : Query) : List String :=
  (q.params.map Prod.fst).filter (fun name => name ≠ "id" &&
    !"qvd.client.".toList.isPrefixOf name.toList && !"custom.".toList.isPrefixOf name.toList)

/-- The search of the row by the parameter. -/
def findMachine (q : Query) (numbers : Numbers) (id : String) : Option Machine :=
  (numbers.database id).bind (fun vm => q.machines.find? (fun machine => machine.vm.id = vm))

end Query

section Processors

variable (site : Site) (numbers : Numbers)

/-- The number of a parameter; a missing one is 0. -/
def Numbers.of (id : Option String) : ℤ :=
  match id with
  | none => 0
  | some id => numbers.perl id

/-- The test of the token before a connection. -/
def L7r.refusesConnect (l7r : L7r) (id : Option String) : Bool :=
  match l7r.session with
  | none => false
  | some session =>
    match session.vmId with
    | none => false
    | some vm => numbers.of id ≠ vm

/-- The test of the token before a stop. -/
def L7r.refusesStop (l7r : L7r) (id : Option String) : Bool :=
  match l7r.session with
  | none => false
  | some session => numbers.of id ≠ (session.vmId.getD 0 : ℕ)

/-- The stages of a session, each with what it does and whether the next one follows. -/
abbrev Stage := List Deed × Bool

def Stage.andThen (first second : Stage) : Stage :=
  if first.2 then (first.1 ++ second.1, second.2) else first

def takeoverVm (p : Progress) : Stage :=
  if p.acquired then (List.replicate p.contended .abort ++ [.takeOver], true)
  else (List.replicate p.contended .abort, false)

def assignVm (p : Progress) : Stage :=
  if p.hasHost then ([], true)
  else
    match p.freeHost with
    | none => ([], false)
    | some host => if p.stillUnassigned then ([.assign host], !p.aborted) else ([], false)

def startAndWaitForVm (p : Progress) : Stage :=
  (if p.canStart then [.start] else [], p.wait = .reached)

def startX (p : Progress) : Stage :=
  ([.startX], p.xStarted && p.xListening)

def runForwarder (p : Progress) : Stage :=
  if p.forwarded then ([.connect], true) else ([], false)

def sessionStages (p : Progress) : Stage :=
  (takeoverVm p).andThen ((assignVm p).andThen ((startAndWaitForVm p).andThen
    ((startX p).andThen (runForwarder p))))

/-- The machine a connection is for. Errors of the search are answered as a row that is
not found. -/
def connectTarget (l7r : L7r) (q : Query) : Except Response Machine :=
  if q.hostBlocked then .error .serviceUnavailable
  else if q.upgrades = false then .error .upgradeRequired
  else if l7r.refusesConnect numbers (q.param "id") then .error .tokenMismatch
  else
    match q.param "id" with
    | none => .error .missingId
    | some id =>
      if q.forbidden ≠ [] then .error (.invalidParameters q.forbidden)
      else
        match q.findMachine numbers id with
        | none => .error .notFound
        | some machine => if machine.blocked then .error .notFound else .ok machine

/-- The row is given its user before the access of the user is checked. -/
def connectAs (auth : Authenticated) (p : Progress) (machine : Machine) : Outcome :=
  let vm := { machine.vm with realUserId := some auth.user.id }
  let act := fun deed => { vm := vm.id, deed := deed : Act }
  if allowAccessToVm site auth vm then
    let stages := sessionStages p
    { acts := act (.setRealUser auth.user.id) :: stages.1.map act
      response := if stages.2 then .sessionEnded else .notAvailable }
  else
    { acts := [act (.setRealUser auth.user.id)], response := .notAvailable }

def stopTarget (l7r : L7r) (auth : Authenticated) (q : Query) : Except Response Machine :=
  if q.hostBlocked then .error .serviceUnavailable
  else if l7r.refusesStop numbers (q.param "id") then .error .tokenMismatch
  else
    match q.param "id" with
    | none => .error .missingId
    | some id =>
      match numbers.database id with
      | none => .error .died
      | some _ =>
        match q.findMachine numbers id with
        | none => .error .notFound
        | some machine =>
          if allowAccessToVm site auth machine.vm then .ok machine else .error .notAllowed

def waitForStop (p : Progress) : Response :=
  match p.wait with
  | .reached => .machineStopped
  | .stoppedUnexpectedly => .died
  | .timeout => .timeout

def stopAndWaitForVm (p : Progress) (machine : Machine) : Outcome :=
  if machine.runtime.vmState = .stopped then { acts := [], response := .machineStopped }
  else if canSendVmCmd machine.runtime .stop then
    match sendVmStop machine.runtime machine.runtime with
    | .error _ => { acts := [], response := .died }
    | .ok _ => { acts := [{ vm := machine.vm.id, deed := .stop }], response := waitForStop p }
  else if machine.runtime.vmState = .stopping then { acts := [], response := waitForStop p }
  else { acts := [], response := .unstoppable machine.runtime.vmState }

def authResponse : AuthError → Response
  | .serviceUnavailable => .serviceUnavailable
  | .unauthorized => .unauthorized
  | .died => .died

def connectToVm (l7r : L7r) (q : Query) : Outcome :=
  match (L7rRequests.authenticateUser site l7r.auth q.call).1 with
  | .error e => { acts := [], response := authResponse e }
  | .ok auth =>
    match connectTarget numbers l7r q with
    | .error response => { acts := [], response := response }
    | .ok machine => connectAs site auth q.progress machine

def stopVm (l7r : L7r) (q : Query) : Outcome :=
  match (L7rRequests.authenticateUser site l7r.auth q.call).1 with
  | .error e => { acts := [], response := authResponse e }
  | .ok auth =>
    match stopTarget site numbers l7r auth q with
    | .error response => { acts := [], response := response }
    | .ok machine => stopAndWaitForVm q.progress machine

end Processors

/-- The requests of a connection. -/
inductive Request
  | connect (q : Query)
  | stop (q : Query)
  | other (request : L7rRequests.Request)

section Requests

variable (site : Site) (numbers : Numbers)

/-- The request as the authentication sees it. -/
def Request.toAuthenticate : Request → L7rRequests.Request
  | .connect q => .serve .connectToVm q.call
  | .stop q => .serve .stopVm q.call
  | .other request => request

/-- The object after a request: only the authenticator is ever stored. -/
def L7r.after (l7r : L7r) (request : Request) : L7r :=
  { l7r with auth := handle site l7r.auth request.toAuthenticate }

def scopeSystem : System L7r Request where
  init l7r := l7r = L7r.new
  step l7r request l7r' := l7r' = l7r.after site request

def outcome (l7r : L7r) : Request → Option Outcome
  | .connect q => some (connectToVm site numbers l7r q)
  | .stop q => some (stopVm site numbers l7r q)
  | .other _ => none

end Requests

section Specification

variable (site : Site) (numbers : Numbers)

/-- The request is served for the user of this session. -/
def ServedFor (l7r : L7r) (request : Request) (auth : Authenticated) (session : UserToken) :
    Prop :=
  (L7rRequests.authenticateUser site l7r.auth request.toAuthenticate.call).1 = .ok auth ∧
    auth.session = some session

/-- A request by a token that is bound to a machine acts on that machine only. -/
def Bound (l7r : L7r) (request : Request) : Prop :=
  ∀ auth session vm out, ServedFor site l7r request auth session → session.vmId = some vm →
    outcome site numbers l7r request = some out → ∀ act ∈ out.acts, act.vm = vm

/-- A request by a token without machine is never refused because of its token. -/
def NotMismatched (l7r : L7r) (request : Request) : Prop :=
  ∀ auth session out, ServedFor site l7r request auth session → session.vmId = none →
    outcome site numbers l7r request = some out → out.response ≠ .tokenMismatch

/-- The connection gets as far as the update of the row it names. -/
def ConnectReaches (q : Query) (machine : Machine) : Prop :=
  q.hostBlocked = false ∧ q.upgrades = true ∧ q.forbidden = [] ∧ machine.blocked = false ∧
    ∃ id, q.param "id" = some id ∧ q.findMachine numbers id = some machine

/-- The stop finds a machine that its user may use. -/
def StopFinds (auth : Authenticated) (q : Query) (machine : Machine) : Prop :=
  q.hostBlocked = false ∧ allowAccessToVm site auth machine.vm = true ∧
    ∃ id, q.param "id" = some id ∧ q.findMachine numbers id = some machine

/-- A machine that can be sent the command to stop. -/
def Stoppable (machine : Machine) : Prop :=
  canSendVmCmd machine.runtime .stop = true ∧ machine.runtime.hostId ≠ none

/-- The machine a request acts on, by what it finds. -/
def ActsOn (auth : Authenticated) (machine : Machine) : Request → Prop
  | .connect q => ConnectReaches numbers q machine
  | .stop q => StopFinds site numbers auth q machine ∧ Stoppable machine
  | .other _ => False

/-- The condition for a token that is bound to a machine: what the request names and would
act on is that machine. -/
def BoundOk (l7r : L7r) (request : Request) : Prop :=
  ∀ auth session vm, ServedFor site l7r request auth session → session.vmId = some vm →
    ∀ machine, ActsOn site numbers auth machine request → machine.vm.id = vm

/-- The answer of allow_access_to_vm that a request is given for a machine. -/
def Allowed (auth : Authenticated) (machine : Machine) : Request → Bool
  | .connect _ => allowAccessToVm site auth { machine.vm with realUserId := some auth.user.id }
  | .stop _ | .other _ => allowAccessToVm site auth machine.vm

/-- The machine of the id a request has. -/
def Names (machine : Machine) : Request → Prop
  | .connect q | .stop q =>
    ∃ id, q.param "id" = some id ∧ q.findMachine numbers id = some machine
  | .other _ => False

/-- A request by a token without machine acts on machines its user may use. -/
def Unbound (l7r : L7r) (request : Request) : Prop :=
  ∀ auth session out, ServedFor site l7r request auth session → session.vmId = none →
    outcome site numbers l7r request = some out → ∀ act ∈ out.acts,
      ∃ machine, Names numbers machine request ∧ machine.vm.id = act.vm ∧
        Allowed site auth machine request = true

/-- The condition for a token without machine: a connection gets no further than the checks
that precede the update, or its user may use the machine. -/
def UnboundOk (l7r : L7r) : Request → Prop
  | .connect q => ∀ auth session machine, ServedFor site l7r (.connect q) auth session →
      session.vmId = none → ConnectReaches numbers q machine →
      allowAccessToVm site auth { machine.vm with realUserId := some auth.user.id } = true
  | .stop _ | .other _ => True

end Specification

section Targets

variable {site : Site} {numbers : Numbers} {l7r : L7r} {q : Query} {auth : Authenticated}
  {machine : Machine}

/-- Without a session in the object no request is refused because of its token. -/
theorem refuses_of_no_session (numbers : Numbers) (h : l7r.session = none) (id : Option String) :
    l7r.refusesConnect numbers id = false ∧ l7r.refusesStop numbers id = false := by
  unfold L7r.refusesConnect L7r.refusesStop
  rw [h]
  exact ⟨rfl, rfl⟩

theorem connectTarget_ok (h : l7r.session = none) :
    connectTarget numbers l7r q = .ok machine ↔ ConnectReaches numbers q machine := by
  have hrefuses := (refuses_of_no_session numbers h (q.param "id")).1
  unfold connectTarget ConnectReaches
  rw [hrefuses]
  grind

theorem stopTarget_ok (h : l7r.session = none) :
    stopTarget site numbers l7r auth q = .ok machine ↔ StopFinds site numbers auth q machine := by
  have hrefuses := (refuses_of_no_session numbers h (q.param "id")).2
  unfold stopTarget StopFinds Query.findMachine
  rw [hrefuses]
  grind

theorem connectTarget_not_mismatch (numbers : Numbers) (q : Query) (h : l7r.session = none) :
    connectTarget numbers l7r q ≠ .error .tokenMismatch := by
  have hrefuses := (refuses_of_no_session numbers h (q.param "id")).1
  unfold connectTarget
  rw [hrefuses]
  grind

theorem stopTarget_not_mismatch (site : Site) (numbers : Numbers) (q : Query)
    (auth : Authenticated) (h : l7r.session = none) :
    stopTarget site numbers l7r auth q ≠ .error .tokenMismatch := by
  have hrefuses := (refuses_of_no_session numbers h (q.param "id")).2
  unfold stopTarget
  rw [hrefuses]
  grind

end Targets

section Outcomes

variable {site : Site} {numbers : Numbers} {l7r : L7r} {q : Query} {auth : Authenticated}
  {machine : Machine}

/-- Whatever becomes of a session, everything is done to the machine of the row, and the
update of the row always is. -/
theorem connectAs_acts (p : Progress) (vm : VmId) :
    (∃ act ∈ (connectAs site auth p machine).acts, act.vm = vm) ↔ machine.vm.id = vm := by
  unfold connectAs
  dsimp only
  split
  · constructor
    · rintro ⟨act, hact, rfl⟩
      rcases List.mem_cons.mp hact with rfl | hact
      · rfl
      · obtain ⟨deed, -, rfl⟩ := List.mem_map.mp hact
        rfl
    · intro heq
      exact ⟨_, List.mem_cons_self, heq⟩
  · simp

theorem connectAs_response (p : Progress) :
    (connectAs site auth p machine).response ≠ .tokenMismatch := by
  unfold connectAs
  dsimp only
  split
  · split <;> simp
  · simp

theorem stoppable_state (h : canSendVmCmd machine.runtime .stop = true) :
    machine.runtime.vmState ≠ .stopped := by
  intro hstopped
  unfold canSendVmCmd at h
  rw [hstopped] at h
  cases h

theorem stopAndWaitForVm_acts (p : Progress) (vm : VmId) :
    (∃ act ∈ (stopAndWaitForVm p machine).acts, act.vm = vm) ↔
      Stoppable machine ∧ machine.vm.id = vm := by
  unfold stopAndWaitForVm Stoppable
  by_cases hstopped : machine.runtime.vmState = .stopped
  · rw [if_pos hstopped]
    constructor
    · rintro ⟨act, hact, -⟩
      cases hact
    · rintro ⟨⟨hcan, -⟩, -⟩
      exact absurd hstopped (stoppable_state hcan)
  · rw [if_neg hstopped]
    by_cases hcan : canSendVmCmd machine.runtime .stop = true
    · rw [if_pos hcan]
      by_cases hhost : machine.runtime.hostId = none
      · have hsend : sendVmStop machine.runtime machine.runtime =
            .error (.noHostAssigned .stop) := by
          simp [sendVmStop, sendVmCmd, hcan, hhost]
        rw [hsend]
        simp [hhost]
      · have hsend : sendVmStop machine.runtime machine.runtime = .ok _ :=
          sendVmCmd_of_can _ hcan hhost
        rw [hsend]
        simp [hcan, hhost]
    · rw [if_neg hcan]
      split
      · simp [hcan]
      · simp [hcan]

theorem stopAndWaitForVm_response (p : Progress) :
    (stopAndWaitForVm p machine).response ≠ .tokenMismatch := by
  unfold stopAndWaitForVm waitForStop
  grind

/-- The machines a connection acts on: the one whose row it reaches, allowed or not. -/
theorem connectToVm_acts (h : l7r.session = none)
    (hauth : (L7rRequests.authenticateUser site l7r.auth q.call).1 = .ok auth) (vm : VmId) :
    (∃ act ∈ (connectToVm site numbers l7r q).acts, act.vm = vm) ↔
      ∃ machine, ConnectReaches numbers q machine ∧ machine.vm.id = vm := by
  unfold connectToVm
  rw [hauth]
  simp only [← connectTarget_ok h]
  cases connectTarget numbers l7r q with
  | error response => simp
  | ok machine => simp [connectAs_acts]

theorem stopVm_acts (h : l7r.session = none)
    (hauth : (L7rRequests.authenticateUser site l7r.auth q.call).1 = .ok auth) (vm : VmId) :
    (∃ act ∈ (stopVm site numbers l7r q).acts, act.vm = vm) ↔
      ∃ machine, (StopFinds site numbers auth q machine ∧ Stoppable machine) ∧
        machine.vm.id = vm := by
  unfold stopVm
  rw [hauth]
  simp only [← stopTarget_ok h]
  cases stopTarget site numbers l7r auth q with
  | error response => simp
  | ok machine => simp [stopAndWaitForVm_acts]

end Outcomes

section Requests

variable {site : Site} {numbers : Numbers} {l7r : L7r} {request : Request}
  {auth : Authenticated} {session : UserToken} {out : Outcome}

/-- The machines a request acts on. -/
theorem outcome_acts (h : l7r.session = none) (hserved : ServedFor site l7r request auth session)
    (hout : outcome site numbers l7r request = some out) (vm : VmId) :
    (∃ act ∈ out.acts, act.vm = vm) ↔
      ∃ machine, ActsOn site numbers auth machine request ∧ machine.vm.id = vm := by
  cases request with
  | connect q =>
    obtain rfl := Option.some.inj hout
    exact connectToVm_acts h hserved.1 vm
  | stop q =>
    obtain rfl := Option.some.inj hout
    exact stopVm_acts h hserved.1 vm
  | other request => cases hout

/-- What a request acts on is known, so some outcome exists. -/
theorem outcome_of_actsOn {machine : Machine} (l7r : L7r)
    (h : ActsOn site numbers auth machine request) :
    ∃ out, outcome site numbers l7r request = some out := by
  cases request with
  | connect q => exact ⟨_, rfl⟩
  | stop q => exact ⟨_, rfl⟩
  | other request => cases h

theorem bound_iff (h : l7r.session = none) :
    Bound site numbers l7r request ↔ BoundOk site numbers l7r request := by
  constructor
  · intro hbound auth session vm hserved hvm machine hacts
    obtain ⟨out, hout⟩ := outcome_of_actsOn l7r hacts
    obtain ⟨act, hact, heq⟩ := (outcome_acts h hserved hout machine.vm.id).mpr
      ⟨machine, hacts, rfl⟩
    rw [← heq]
    exact hbound auth session vm out hserved hvm hout act hact
  · intro hok auth session vm out hserved hvm hout act hact
    obtain ⟨machine, hacts, heq⟩ := (outcome_acts h hserved hout act.vm).mp ⟨act, hact, rfl⟩
    rw [← heq]
    exact hok auth session vm hserved hvm machine hacts

theorem notMismatched (h : l7r.session = none) : NotMismatched site numbers l7r request := by
  intro auth session out hserved _ hout
  cases request with
  | connect q =>
    obtain rfl := Option.some.inj hout
    unfold connectToVm
    rw [show (L7rRequests.authenticateUser site l7r.auth q.call).1 = .ok auth from hserved.1]
    have htarget := connectTarget_not_mismatch numbers q h
    cases hcase : connectTarget numbers l7r q with
    | error response =>
      rintro rfl
      exact htarget hcase
    | ok machine => exact connectAs_response q.progress
  | stop q =>
    obtain rfl := Option.some.inj hout
    unfold stopVm
    rw [show (L7rRequests.authenticateUser site l7r.auth q.call).1 = .ok auth from hserved.1]
    have htarget := stopTarget_not_mismatch site numbers q auth h
    dsimp only
    cases hcase : stopTarget site numbers l7r auth q with
    | error response =>
      rintro rfl
      exact htarget hcase
    | ok machine => exact stopAndWaitForVm_response q.progress
  | other request => cases hout

theorem names_of_actsOn {machine : Machine} (h : ActsOn site numbers auth machine request) :
    Names numbers machine request := by
  cases request with
  | connect q => exact h.2.2.2.2
  | stop q => exact h.1.2.2
  | other request => cases h

theorem names_unique {machine other : Machine} (request : Request) (h : Names numbers machine request)
    (hother : Names numbers other request) : machine = other := by
  cases request with
  | connect q | stop q =>
    obtain ⟨id, hid, hfind⟩ := h
    obtain ⟨id', hid', hfind'⟩ := hother
    obtain rfl := Option.some.inj (hid.symm.trans hid')
    exact Option.some.inj (hfind.symm.trans hfind')
  | other request => cases h

theorem unbound_iff (h : l7r.session = none) :
    Unbound site numbers l7r request ↔ UnboundOk site numbers l7r request := by
  cases request with
  | connect q =>
    constructor
    · intro hunbound auth session machine hserved hnone hreaches
      obtain ⟨act, hact, -⟩ := (connectToVm_acts h hserved.1 machine.vm.id).mpr
        ⟨machine, hreaches, rfl⟩
      obtain ⟨named, hnames, -, hallowed⟩ :=
        hunbound auth session _ hserved hnone rfl act hact
      obtain rfl := names_unique (.connect q) hnames hreaches.2.2.2.2
      exact hallowed
    · intro hok auth session out hserved hnone hout act hact
      obtain ⟨machine, hacts, heq⟩ := (outcome_acts h hserved hout act.vm).mp ⟨act, hact, rfl⟩
      exact ⟨machine, names_of_actsOn hacts, heq, hok auth session machine hserved hnone hacts⟩
  | stop q =>
    refine iff_of_true ?_ trivial
    intro auth session out hserved hnone hout act hact
    obtain ⟨machine, hacts, heq⟩ := (outcome_acts h hserved hout act.vm).mp ⟨act, hact, rfl⟩
    exact ⟨machine, names_of_actsOn hacts, heq, hacts.1.2.1⟩
  | other request =>
    refine iff_of_true ?_ trivial
    intro auth session out _ _ hout
    cases hout

end Requests

section Runs

variable {site : Site}

theorem session_unset {past : List (L7r × Request)} {l7r : L7r}
    (run : (scopeSystem site).Run past l7r) :
    Always (fun l7r => l7r.session = none) past l7r := by
  apply run.always
  · rintro l7r rfl
    rfl
  · rintro l7r request l7r' h rfl
    exact h

/-- On every connection: requests by a token that is bound to a machine act on that machine
only exactly if none of them names and reaches another one; no request by another token is
refused because of the token, and these act on accessible machines only exactly if none
reaches the row of a machine before its access is refused. -/
theorem token_scope (numbers : Numbers) (past : List (L7r × Request)) (l7r : L7r)
    (run : (scopeSystem site).Run past l7r) :
    (AllSteps (Bound site numbers) past ↔ AllSteps (BoundOk site numbers) past) ∧
    AllSteps (NotMismatched site numbers) past ∧
    (AllSteps (Unbound site numbers) past ↔ AllSteps (UnboundOk site numbers) past) := by
  have hunset := (session_unset run).2
  refine ⟨?_, ?_, ?_⟩
  · exact forall₂_congr fun e he => bound_iff (hunset e he)
  · exact fun e he => notMismatched (hunset e he)
  · exact forall₂_congr fun e he => unbound_iff (hunset e he)

end Runs

section TwoMachines

/-- A site with the default plugin alone, which decodes the header used below. -/
def tokenSite : Site where
  plugins _ := [Plugin.default
    { separators := ['@'], tenant := none, digest := fun passwd => passwd }]
  caseSensitive _ := true
  decodeBase64 encoded := if encoded = "dDBrM24=" then "t0k3n" else ""

def decimal : Numbers where
  perl id := if id = "7" then 7 else if id = "8" then 8 else 0
  database id := if id = "7" then some 7 else if id = "8" then some 8 else none

def machineOf (user : UserId) (vm : VmId) : Machine where
  vm := { id := vm, userId := user, realUserId := none }
  blocked := false
  runtime := { VmRuntime.fresh with vmState := .running, hostId := some 1 }

theorem acme_nodup :
    ([{ id := 2, name := "acme", blocked := false }].map Tenant.id).Nodup := by simp

theorem alice_nodup :
    ([{ id := 5, login := "alice", tenantId := 2, blocked := false
        password := "K7gNU3sdo+OL0wNhqoVWhr3g6s1xYv72ol/pe/Unols" }].map User.id).Nodup := by simp

/-- One user with a token, bound to a machine or not. -/
def tokenFor (vm : Option VmId) : Db where
  tenants := [{ id := 2, name := "acme", blocked := false }]
  users := [{ id := 5, login := "alice", tenantId := 2, blocked := false
              password := "K7gNU3sdo+OL0wNhqoVWhr3g6s1xYv72ol/pe/Unols" }]
  userTokens := [{ token := "t0k3n", userId := 5, vmId := vm, expiration := 2000,
                   multiUse := true }]
  tenants_nodup := acme_nodup
  users_nodup := alice_nodup
  userTokens_nodup := by simp

/-- A request with the token, when machine 7 is the user's and machine 8 is as given. -/
def tokenQuery (bound : Option VmId) (other : UserId) (id : String) : Query where
  call :=
    { authorization := some "Bearer dDBrM24=", time := 1000, db := tokenFor bound
      hostRegistered := true }
  hostBlocked := false
  connection := some "Upgrade"
  upgrade := some "QVD/1.0"
  params := [("id", some id)]
  machines := [machineOf 5 7, machineOf other 8]
  progress :=
    { contended := 0, acquired := true, hasHost := true, freeHost := none
      stillUnassigned := false, aborted := false, canStart := false, wait := .reached
      xStarted := true, xListening := true, forwarded := true }

theorem query_run (request : Request) : (scopeSystem tokenSite).Run [(L7r.new, request)]
    (L7r.new.after tokenSite request) :=
  .extend (.start rfl) rfl

/-- The authenticator of the token. -/
def byToken (bound : Option VmId) : Authenticated where
  toAuthenticator := Authenticator.new
  user := { id := 5, login := "alice", tenantId := 2, blocked := false
            password := "K7gNU3sdo+OL0wNhqoVWhr3g6s1xYv72ol/pe/Unols" }
  session := some { token := "t0k3n", userId := 5, vmId := bound, expiration := 0
                    multiUse := true }

/-- A stop of the machine the token is bound to. -/
theorem own_machine_bound :
    stopVm tokenSite decimal L7r.new (tokenQuery (some 7) 5 "7") =
      { acts := [⟨7, .stop⟩], response := .machineStopped } ∧
    AllSteps (Bound tokenSite decimal) [(L7r.new, .stop (tokenQuery (some 7) 5 "7"))] := by
  refine ⟨by decide, (token_scope decimal _ _ (query_run _)).1.mpr ?_⟩
  rintro _ hmem auth session vm ⟨hauth, hsession⟩ hvm machine hacts
  obtain rfl := List.mem_singleton.mp hmem
  obtain ⟨⟨-, -, id, hid, hfind⟩, -⟩ := hacts
  have hby : (L7rRequests.authenticateUser tokenSite none (tokenQuery (some 7) 5 "7").call).1 =
      .ok (byToken (some 7)) := by decide
  obtain rfl := Except.ok.inj (hby.symm.trans hauth)
  obtain rfl := Option.some.inj hsession
  obtain rfl := Option.some.inj hvm
  obtain rfl := Option.some.inj ((show _ = some "7" by decide).symm.trans hid)
  have hseven : (tokenQuery (some 7) 5 "7").findMachine decimal "7" = some (machineOf 5 7) := by
    decide
  obtain rfl := Option.some.inj (hseven.symm.trans hfind)
  rfl

/-- With a token that is bound to machine 7, a request stops machine 8 and another connects
to it; with a token without machine, a request changes the row of another user's machine. -/
theorem other_machine_reached :
    (∃ past l7r, (scopeSystem tokenSite).Run past l7r ∧
      past.map Prod.snd = [.stop (tokenQuery (some 7) 5 "8")] ∧
      ¬ AllSteps (Bound tokenSite decimal) past) ∧
    (∃ past l7r, (scopeSystem tokenSite).Run past l7r ∧
      past.map Prod.snd = [.connect (tokenQuery (some 7) 5 "8")] ∧
      ¬ AllSteps (Bound tokenSite decimal) past) ∧
    ∃ past l7r, (scopeSystem tokenSite).Run past l7r ∧
      past.map Prod.snd = [.connect (tokenQuery none 6 "8")] ∧
      ¬ AllSteps (Unbound tokenSite decimal) past := by
  refine ⟨⟨_, _, query_run _, rfl, ?_⟩, ⟨_, _, query_run _, rfl, ?_⟩, _, _, query_run _, rfl, ?_⟩
  · intro hall
    have hvm := hall _ (List.mem_singleton_self _) (byToken (some 7)) _ 7 _
      ⟨by decide, rfl⟩ rfl rfl ⟨8, .stop⟩ (by decide)
    cases hvm
  · intro hall
    have hvm := hall _ (List.mem_singleton_self _) (byToken (some 7)) _ 7 _
      ⟨by decide, rfl⟩ rfl rfl ⟨8, .takeOver⟩ (by decide)
    cases hvm
  · intro hall
    obtain ⟨machine, ⟨id, hid, hfind⟩, -, hallowed⟩ :=
      hall _ (List.mem_singleton_self _) (byToken none) _ _
        ⟨by decide, rfl⟩ rfl rfl ⟨8, .setRealUser 5⟩ (by decide)
    obtain rfl := Option.some.inj ((show _ = some "8" by decide).symm.trans hid)
    have height : (tokenQuery none 6 "8").findMachine decimal "8" = some (machineOf 6 8) := by
      decide
    obtain rfl := Option.some.inj (height.symm.trans hfind)
    revert hallowed
    decide

end TwoMachines

end Qvd.TokenScope
