import Qvd.TokenScope

/-!
What a request to connect to a machine writes in the database before the user's access to the
machine is decided.
-/
namespace Qvd.ConnectRefusals

open L7rAuthenticator L7rRequests TokenScope

/-- No tokens but those there were. -/
def Kept (db db' : Db) : Prop :=
  ∀ row ∈ db'.userTokens, ∃ row' ∈ db.userTokens, row'.token = row.token

/-- A configuration whose plugins create no tokens after an authentication. -/
structure QuietSite extends Site where
  quiet : ∀ tenant, ∀ plugin ∈ plugins tenant, ∀ auth login db,
    Kept db (plugin.afterAuthenticateBasic auth login db)

/-- The tables a connection writes. -/
structure Tables where
  machines : List Machine
  userTokens : List UserToken
  userAuthParameters : List String
deriving DecidableEq

/-- What a request stores: the parameters of its authenticator as a text, and the token that is
generated for it. -/
structure Minting where
  encode : Authenticated → String
  sid : String

section Connecting

variable (site : Site) (numbers : Numbers) (mint : Minting)

/-- The database after an authentication the cached authenticator does not answer. -/
def dbAnew (call : Call) (given : Credentials) : Db :=
  match given.login, given.passwd with
  | some login, some passwd => (authenticateBasic site call.db login passwd).2
  | _, _ =>
    match given.token with
    | some token => (authenticateBearer site call.time call.db token).2
    | none => call.db

/-- The database after `_authenticate_user`. -/
def dbAfter (cached : Option Authenticated) (call : Call) : Db :=
  let given := credentials site call.authorization
  if call.hostRegistered = false then call.db
  else
    match cached with
    | none => dbAnew site call given
    | some auth =>
      match recheckAuthentication auth given with
      | .ok false => dbAnew site call given
      | _ => call.db

def setRealUser (machines : List Machine) (vm : VmId) (user : UserId) : List Machine :=
  machines.map fun machine =>
    if machine.vm.id = vm then
      { machine with vm := { machine.vm with realUserId := some user } }
    else machine

/-- The token a connection creates, for a day and for more than one use. -/
def sessionToken (auth : Authenticated) (time : Time) : UserToken where
  token := mint.sid
  userId := auth.user.id
  vmId := none
  expiration := time + 3600 * 24
  multiUse := true

/-- `connect_to_vm_processor` up to the call of `allow_access_to_vm`. -/
def connectTables (l7r : L7r) (q : Query) (stored : List String) : Tables :=
  let tables : Tables :=
    { machines := q.machines
      userTokens := (dbAfter site l7r.auth q.call).userTokens
      userAuthParameters := stored }
  match (L7rRequests.authenticateUser site l7r.auth q.call).1 with
  | .error _ => tables
  | .ok auth =>
    match connectTarget numbers l7r q with
    | .error _ => tables
    | .ok machine =>
      { machines := setRealUser q.machines machine.vm.id auth.user.id
        userTokens := tables.userTokens ++ [sessionToken mint auth q.call.time]
        userAuthParameters := stored ++ [mint.encode auth] }

/-- The user and the machine of a request that has passed all checks but the access. -/
def Passes (l7r : L7r) (q : Query) (auth : Authenticated) (machine : Machine) : Prop :=
  (L7rRequests.authenticateUser site l7r.auth q.call).1 = .ok auth ∧
    connectTarget numbers l7r q = .ok machine

/-- The access is checked on the row as it has been written. -/
def Allows (auth : Authenticated) (machine : Machine) : Prop :=
  allowAccessToVm site auth { machine.vm with realUserId := some auth.user.id } = true

instance (auth : Authenticated) (machine : Machine) : Decidable (Allows site auth machine) :=
  inferInstanceAs (Decidable (_ = _))

def Allowed (l7r : L7r) (q : Query) : Prop :=
  ∃ auth machine, Passes site numbers l7r q auth machine ∧ Allows site auth machine

/-- No row of vm_runtimes is changed, and no token and no authentication parameters are
created. -/
structure Unchanged (q : Query) (stored : List String) (after : Tables) : Prop where
  machines : after.machines = q.machines
  userTokens : ∀ row ∈ after.userTokens, ∃ row' ∈ q.call.db.userTokens, row'.token = row.token
  userAuthParameters : after.userAuthParameters = stored

end Connecting

section Authentication

variable {db db' db'' : Db}

theorem Kept.refl (db : Db) : Kept db db := fun row hrow => ⟨row, hrow, rfl⟩

theorem Kept.trans (h : Kept db db') (h' : Kept db' db'') : Kept db db'' := by
  intro row hrow
  obtain ⟨row', hrow', htoken'⟩ := h' row hrow
  obtain ⟨row'', hrow'', htoken⟩ := h row' hrow'
  exact ⟨row'', hrow'', htoken.trans htoken'⟩

theorem kept_deleteToken (db : Db) (token : String) : Kept db (db.deleteToken token) :=
  fun row hrow => ⟨row, List.mem_of_mem_filter hrow, rfl⟩

theorem kept_expire {object : UserToken} (h : db.expire object = some db') : Kept db db' := by
  unfold Db.expire at h
  split at h
  · cases h
    exact Kept.refl db
  · split at h
    · cases h
    · cases h
      intro row hrow
      obtain ⟨row', hrow', rfl⟩ := List.mem_map.mp hrow
      refine ⟨row', hrow', ?_⟩
      split <;> rfl

theorem kept_bearer (plugin : Plugin) (auth : Authenticator) (time : Time) (db : Db)
    (token : String) : Kept db (plugin.authenticateBearer auth time db token).2 := by
  unfold Plugin.authenticateBearer Default.authenticateBearer
  split
  · split
    · exact Kept.refl db
    · split
      · exact kept_deleteToken db _
      · unfold Default.useToken
        split
        · exact Kept.refl db
        · split
          · next hexpire => exact kept_expire hexpire
          · exact Kept.refl db
  · exact Kept.refl db

theorem kept_tryBearer (time : Time) (token : String) (plugins : List Plugin) (db : Db) :
    Kept db (tryBearer time token plugins db).2 := by
  induction plugins generalizing db with
  | nil => exact Kept.refl db
  | cons plugin rest ih =>
    have hplugin := kept_bearer plugin Authenticator.new time db token
    unfold tryBearer
    split
    · next hanswer =>
      rw [hanswer] at hplugin
      exact hplugin.trans (ih _)
    · next hanswer =>
      rw [hanswer] at hplugin
      split <;> exact hplugin

variable (site : QuietSite)

theorem kept_afterAuthenticateBasic (plugins : List Plugin)
    (hplugins : ∀ plugin ∈ plugins, ∀ auth login db,
      Kept db (plugin.afterAuthenticateBasic auth login db))
    (auth : Authenticator) (login : String) (db : Db) :
    Kept db (afterAuthenticateBasic plugins auth login db) := by
  induction plugins generalizing db with
  | nil => exact Kept.refl db
  | cons plugin rest ih =>
    have hplugin := hplugins plugin List.mem_cons_self auth login db
    exact hplugin.trans (ih (fun plugin h => hplugins plugin (List.mem_cons_of_mem _ h)) _)

theorem kept_tryPlugins {all : List Plugin}
    (hall : ∀ plugin ∈ all, ∀ auth login db,
      Kept db (plugin.afterAuthenticateBasic auth login db))
    (tenantId : TenantId) (passwd : String) (token : Option String) (plugins : List Plugin)
    (auth : Authenticator) (login : String) (db : Db) :
    Kept db (tryPlugins all tenantId passwd token plugins auth login db).2 := by
  induction plugins generalizing auth login db with
  | nil => exact Kept.refl db
  | cons plugin rest ih =>
    unfold tryPlugins
    split
    · exact ih auth login db
    · next login' _ =>
      dsimp only
      split
      · have hafter := kept_afterAuthenticateBasic all hall
          { auth with normalizedLogin := some login' } login' db
        split
        · exact hafter
        · exact hafter.trans (ih _ _ _)
      · exact Kept.refl db

theorem kept_authenticateBasic (db : Db) (login passwd : String) :
    Kept db (authenticateBasic site.toSite db login passwd).2 := by
  unfold authenticateBasic authenticateAtTenant
  dsimp only
  split
  · exact Kept.refl db
  · split
    · exact Kept.refl db
    · split
      · exact Kept.refl db
      · split
        · exact Kept.refl db
        · exact kept_tryPlugins (site.quiet _) _ _ _ _ _ _ _

theorem kept_dbAfter (cached : Option Authenticated) (call : Call) :
    Kept call.db (dbAfter site.toSite cached call) := by
  have hanew : ∀ given, Kept call.db (dbAnew site.toSite call given) := by
    intro given
    unfold dbAnew
    split
    · exact kept_authenticateBasic site call.db _ _
    · split
      · exact kept_tryBearer call.time _ _ call.db
      · exact Kept.refl call.db
  unfold dbAfter
  dsimp only
  split
  · exact Kept.refl call.db
  · split
    · exact hanew _
    · split
      · exact hanew _
      · exact Kept.refl call.db

end Authentication

section Refusals

variable (site : QuietSite) (numbers : Numbers) (mint : Minting) {l7r : L7r} {q : Query}
  {stored : List String}

/-- A request that fails a check before the access is decided has written nothing. -/
theorem unchanged_of_not_passes
    (h : ∀ auth machine, ¬Passes site.toSite numbers l7r q auth machine) :
    Unchanged q stored (connectTables site.toSite numbers mint l7r q stored) := by
  have hkept := kept_dbAfter site l7r.auth q.call
  unfold connectTables
  dsimp only
  split
  · exact ⟨rfl, hkept, rfl⟩
  · next auth hauth =>
    split
    · exact ⟨rfl, hkept, rfl⟩
    · next machine htarget => exact absurd ⟨hauth, htarget⟩ (h auth machine)

theorem changed_of_passes {auth : Authenticated} {machine : Machine}
    (h : Passes site.toSite numbers l7r q auth machine) :
    ¬Unchanged q stored (connectTables site.toSite numbers mint l7r q stored) := by
  intro hsame
  have hstored := hsame.userAuthParameters
  rw [connectTables, h.1] at hstored
  dsimp only at hstored
  rw [h.2] at hstored
  exact absurd hstored (by simp)

/-- The processor gives the row its user in exactly the requests that pass. -/
theorem setRealUser_acts (l7r : L7r) (q : Query) :
    (∃ act ∈ (connectToVm site.toSite numbers l7r q).acts, ∃ user, act.deed = .setRealUser user) ↔
      ∃ auth machine, Passes site.toSite numbers l7r q auth machine := by
  constructor
  · rintro ⟨act, hact, -⟩
    unfold connectToVm at hact
    split at hact
    · cases hact
    · next auth hauth =>
      split at hact
      · cases hact
      · next machine htarget => exact ⟨auth, machine, hauth, htarget⟩
  · rintro ⟨auth, machine, hauth, htarget⟩
    refine ⟨⟨machine.vm.id, .setRealUser auth.user.id⟩, ?_, _, rfl⟩
    rw [connectToVm, hauth]
    dsimp only
    rw [htarget]
    dsimp only
    unfold connectAs
    dsimp only
    split <;> exact List.mem_cons_self

end Refusals

/-- A refused request to connect changes nothing exactly if it is not one that passes every
check but that of the access. -/
theorem refused_unchanged_iff (site : QuietSite) (numbers : Numbers) (mint : Minting)
    (l7r : L7r) (q : Query) (stored : List String) :
    (¬Allowed site.toSite numbers l7r q →
      Unchanged q stored (connectTables site.toSite numbers mint l7r q stored)) ↔
    ∀ auth machine, Passes site.toSite numbers l7r q auth machine →
      Allows site.toSite auth machine := by
  constructor
  · intro h auth machine hpasses
    by_contra hno
    refine changed_of_passes site numbers mint hpasses (h ?_)
    rintro ⟨auth', machine', hpasses', hallows⟩
    cases hpasses.1.symm.trans hpasses'.1
    cases hpasses.2.symm.trans hpasses'.2
    exact hno hallows
  · intro h hno
    exact unchanged_of_not_passes site numbers mint fun auth machine hpasses =>
      hno ⟨auth, machine, hpasses, h auth machine hpasses⟩

section Example

def quietTokenSite : QuietSite where
  toSite := tokenSite
  quiet _ plugin hplugin _ _ db := by
    rw [List.mem_singleton.mp hplugin]
    exact Kept.refl db

def plainMinting : Minting where
  encode _ := "{}"
  sid := "s1d"

/-- A user with a token is refused the machine of another user, whose row is changed. -/
theorem refused_connect_writes :
    ¬Allowed tokenSite decimal L7r.new (tokenQuery none 6 "8") ∧
      ¬Unchanged (tokenQuery none 6 "8") []
        (connectTables tokenSite decimal plainMinting L7r.new (tokenQuery none 6 "8") []) := by
  have hpasses : Passes tokenSite decimal L7r.new (tokenQuery none 6 "8") (byToken none)
      (machineOf 6 8) := ⟨by decide, by decide⟩
  refine ⟨?_, changed_of_passes quietTokenSite decimal plainMinting hpasses⟩
  rintro ⟨auth, machine, hpasses', hallows⟩
  cases hpasses.1.symm.trans hpasses'.1
  cases hpasses.2.symm.trans hpasses'.2
  exact absurd hallows (by decide)

end Example

end Qvd.ConnectRefusals
