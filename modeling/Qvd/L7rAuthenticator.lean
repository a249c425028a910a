import Mathlib.Data.List.Nodup

/-!
The authenticator of the L7R: the plugins it asks, the tenant, login and password of a
basic authentication, the token of a bearer authentication, and the check of the user's
access to a machine. Digests, LDAP servers and one-time passwords are in the plugins.
-/
namespace Qvd.L7rAuthenticator

abbrev Time := ℕ
abbrev TenantId := ℕ
abbrev UserId := ℕ
abbrev VmId := ℕ

structure Tenant where
  id : TenantId
  name : String
  blocked : Bool
deriving DecidableEq, Repr

structure User where
  id : UserId
  login : String
  password : String
  tenantId : TenantId
  blocked : Bool
deriving DecidableEq, Repr

/-- A row of user_tokens; token is the primary key. -/
structure UserToken where
  token : String
  userId : UserId
  vmId : Option VmId
  expiration : Time
  multiUse : Bool
deriving DecidableEq, Repr

def UserToken.isExpired (object : UserToken) (time : Time) : Bool :=
  time > object.expiration

/-- A machine with the user it belongs to and the one its runtime row names. -/
structure Vm where
  id : VmId
  userId : UserId
  realUserId : Option UserId
deriving DecidableEq, Repr

/-- The tables an authenticator reads, with their primary keys. -/
structure Db where
  tenants : List Tenant
  users : List User
  userTokens : List UserToken
  tenants_nodup : (tenants.map Tenant.id).Nodup
  users_nodup : (users.map User.id).Nodup
  userTokens_nodup : (userTokens.map UserToken.token).Nodup
deriving DecidableEq, Repr

section Tokens

/-- The lookup of a token by its primary key. -/
def Db.findToken (db : Db) (token : String) : Option UserToken :=
  db.userTokens.find? (fun row => row.token = token)

/-- The rows after the update of one column of one token. -/
def setExpiration (rows : List UserToken) (token : String) (expiration : Time) :
    List UserToken :=
  rows.map (fun row => if row.token = token then { row with expiration := expiration } else row)

theorem tokens_setExpiration (rows : List UserToken) (token : String) (expiration : Time) :
    (setExpiration rows token expiration).map UserToken.token = rows.map UserToken.token := by
  unfold setExpiration
  rw [List.map_map]
  apply List.map_congr_left
  intro row _
  simp only [Function.comp]
  split
  · rfl
  · rfl

/-- The method expire of a row object. The update writes the column only when the object
has another value in it, and dies when the row has gone. -/
def Db.expire (db : Db) (object : UserToken) : Option Db :=
  if object.expiration = 0 then some db
  else if (db.findToken object.token).isNone then none
  else some { db with
    userTokens := setExpiration db.userTokens object.token 0
    userTokens_nodup := by rw [tokens_setExpiration]; exact db.userTokens_nodup }

/-- The deletion of a token. -/
def Db.deleteToken (db : Db) (token : String) : Db :=
  { db with
    userTokens := db.userTokens.filter (fun row => row.token ≠ token)
    userTokens_nodup := db.userTokens_nodup.sublist (List.filter_sublist.map _) }

end Tokens

/-- The object before it has authenticated anybody. Its key multi_use is read by a plugin;
the constructor does not set it. -/
structure Authenticator where
  login : Option String
  passwd : Option String
  tenantId : Option TenantId
  normalizedLogin : Option String
  multiUse : Option Bool
deriving DecidableEq, Repr

def Authenticator.new : Authenticator where
  login := none
  passwd := none
  tenantId := none
  normalizedLogin := none
  multiUse := none

/-- The object once it is authenticated, with the row of its user as it was read then and,
after a bearer authentication, the row of its token. -/
structure Authenticated extends Authenticator where
  user : User
  session : Option UserToken
deriving DecidableEq, Repr

/-- The hooks of a plugin. A basic authentication that succeeds returns the login, which a
plugin may have changed. The bearer authentication is the one of the default plugin or the
inherited one, which accepts nothing. -/
structure Plugin where
  findTenant : String → Option (String × String)
  normalizeTenant : Option String → Option String
  normalizeLogin : Option String → Option String
  authenticateBasic2fSplit : Authenticator → String → Option (String × String)
  authenticateBasic : Authenticator → Db → String → String → Option String
  authenticateBasic2f : Authenticator → Db → String → String → Bool
  afterAuthenticateBasic : Authenticator → String → Db → Db
  answersBearer : Bool
  allowAccessToVm : Authenticated → Vm → Bool

section Plugins

/-- The class the plugins inherit from. -/
def Plugin.base : Plugin where
  findTenant _ := none
  normalizeTenant tenant := tenant
  normalizeLogin login := login
  authenticateBasic2fSplit _ _ := none
  authenticateBasic _ _ _ _ := none
  authenticateBasic2f _ _ _ _ := false
  afterAuthenticateBasic _ _ db := db
  answersBearer := false
  allowAccessToVm auth vm := auth.user.id = vm.userId

/-- The settings of the default plugin, with the digest of a salted password. -/
structure DefaultSettings where
  separators : List Char
  tenant : Option String
  digest : String → String

/-- The separators match without regard to case. -/
def DefaultSettings.isSeparator (settings : DefaultSettings) (c : Char) : Bool :=
  settings.separators.any (fun separator => separator.toLower = c.toLower)

/-- The login is split at its first separator. -/
def Default.findTenant (settings : DefaultSettings) (login : String) :
    Option (String × String) :=
  let head := login.toList.takeWhile (fun c => !settings.isSeparator c)
  match login.toList.drop head.length with
  | _ :: rest => some (String.ofList rest, String.ofList head)
  | [] => settings.tenant.map (fun tenant => (tenant, login))

def Default.authenticateBasic (settings : DefaultSettings) (auth : Authenticator) (db : Db)
    (login passwd : String) : Option String :=
  if passwd = "" then none
  else if db.users.any (fun user => user.login = login &&
      user.password = settings.digest passwd && some user.tenantId = auth.tenantId) then
    some login
  else none

/-- What the plugin does with a token that has been found and is not expired. It asks the
authenticator, and not the token, whether the token is for more than one use. -/
def Default.useToken (auth : Authenticator) (db : Db) (object : UserToken) :
    Option UserToken × Db :=
  if auth.multiUse.getD false then (some object, db)
  else
    match db.expire object with
    | some db' => (some { object with expiration := 0 }, db')
    | none => (none, db)

def Default.authenticateBearer (auth : Authenticator) (time : Time) (db : Db)
    (token : String) : Option UserToken × Db :=
  match db.findToken token with
  | none => (none, db)
  | some object =>
    if object.isExpired time then (none, db.deleteToken object.token)
    else Default.useToken auth db object

def Plugin.default (settings : DefaultSettings) : Plugin :=
  { Plugin.base with
    findTenant := Default.findTenant settings
    authenticateBasic := Default.authenticateBasic settings
    answersBearer := true }

def Plugin.authenticateBearer (plugin : Plugin) (auth : Authenticator) (time : Time) (db : Db)
    (token : String) : Option UserToken × Db :=
  if plugin.answersBearer then Default.authenticateBearer auth time db token else (none, db)

/-- The plugin for pools of machines that belong to one user. -/
def Plugin.vmPool (dummyUserId : UserId) : Plugin :=
  { Plugin.base with
    allowAccessToVm := fun auth vm =>
      vm.userId = dummyUserId && vm.realUserId = some auth.user.id }

end Plugins

/-- The configuration of an L7R: the plugins for a tenant, whether logins are case sensitive by
the settings of a tenant (0 for those of all), and the decoding of base64. -/
structure Site where
  plugins : TenantId → List Plugin
  caseSensitive : TenantId → Bool
  decodeBase64 : String → String

section Basic

variable (site : Site)

/-- The plugins an authenticator has loaded: those of its tenant, or of tenant 0. -/
def Site.pluginsOf (auth : Authenticator) : List Plugin :=
  site.plugins (auth.tenantId.getD 0)

/-- The first plugin to answer decides on the tenant. -/
def findTenant (plugins : List Plugin) (login : String) : Option (String × String) :=
  plugins.findSome? (fun plugin => plugin.findTenant login)

def isSpace (c : Char) : Bool :=
  c ∈ [' ', '\t', '\n', '\r', '\x0c', '\x0b']

def trim (name : String) : String :=
  String.ofList (((name.toList.dropWhile isSpace).reverse.dropWhile isSpace).reverse)

/-- The normalization of a name; it fails when a plugin leaves it undefined. -/
def normalize (caseSensitive : Bool) (hooks : List (Option String → Option String))
    (name : String) : Option String :=
  hooks.foldl (fun name hook => hook name)
    (some (trim (if caseSensitive then name else name.toLower)))

/-- The tenant must exist, not be the reserved one and not be blocked. -/
def validateTenant (db : Db) (name : String) : Option TenantId :=
  match db.tenants.find? (fun tenant => tenant.name = name) with
  | none => none
  | some tenant =>
    if tenant.id = 0 then none
    else if tenant.blocked then none
    else some tenant.id

/-- The first plugin to answer splits the password from a second factor. -/
def authenticateBasic2fSplit (plugins : List Plugin) (auth : Authenticator) (passwd : String) :
    String × Option String :=
  match plugins.findSome? (fun plugin => plugin.authenticateBasic2fSplit auth passwd) with
  | some (passwd, token) => (passwd, some token)
  | none => (passwd, none)

/-- A second factor that was split off must be accepted by some plugin. -/
def secondFactorOk (plugins : List Plugin) (auth : Authenticator) (db : Db) (login : String)
    (token : Option String) : Bool :=
  match token with
  | none => true
  | some token => plugins.any (fun plugin => plugin.authenticateBasic2f auth db login token)

def afterAuthenticateBasic (plugins : List Plugin) (auth : Authenticator) (login : String)
    (db : Db) : Db :=
  plugins.foldl (fun db plugin => plugin.afterAuthenticateBasic auth login db) db

def findUser (db : Db) (login : String) (tenantId : TenantId) : Option User :=
  db.users.find? (fun user => user.login = login && user.tenantId = tenantId)

/-- The loop over the plugins. It goes on after a plugin that accepts a login without a
row in users, and ends at a second factor that is not accepted. -/
def tryPlugins (all : List Plugin) (tenantId : TenantId) (passwd : String)
    (token : Option String) : List Plugin → Authenticator → String → Db →
    Option Authenticated × Db
  | [], _, _, db => (none, db)
  | plugin :: rest, auth, login, db =>
    match plugin.authenticateBasic auth db login passwd with
    | none => tryPlugins all tenantId passwd token rest auth login db
    | some login =>
      let auth := { auth with normalizedLogin := some login }
      if secondFactorOk all auth db login token then
        let db := afterAuthenticateBasic all auth login db
        match findUser db login tenantId with
        | some user => (some { auth with user := user, session := none }, db)
        | none => tryPlugins all tenantId passwd token rest auth login db
      else (none, db)

/-- The part of authenticate_basic after the tenant has been validated. -/
def authenticateAtTenant (db : Db) (login passwd login1 : String) (tenantId : TenantId) :
    Option Authenticated × Db :=
  let auth := { Authenticator.new with
    login := some login, passwd := some passwd, tenantId := some tenantId }
  let plugins := site.pluginsOf auth
  -- The setting of tenant 1 is read: the tenant's id is passed where cfg takes a flag.
  match normalize (site.caseSensitive 1) (plugins.map Plugin.normalizeLogin) login1 with
  | none => (none, db)
  | some normalized =>
    let auth := { auth with normalizedLogin := some normalized }
    let split := authenticateBasic2fSplit plugins auth passwd
    tryPlugins plugins tenantId split.1 split.2 plugins auth normalized db

def authenticateBasic (db : Db) (login passwd : String) : Option Authenticated × Db :=
  let plugins := site.pluginsOf Authenticator.new
  match findTenant plugins login with
  | none => (none, db)
  | some (tenant, login1) =>
    match normalize (site.caseSensitive 0) (plugins.map Plugin.normalizeTenant) tenant with
    | none => (none, db)
    | some _ =>
      match validateTenant db tenant with
      | none => (none, db)
      | some tenantId => authenticateAtTenant site db login passwd login1 tenantId

end Basic

section Bearer

/-- The first plugin to accept the token decides; the session's user must be registered.
The parameters stored with the session are left out. -/
def tryBearer (time : Time) (token : String) : List Plugin → Db → Option Authenticated × Db
  | [], db => (none, db)
  | plugin :: rest, db =>
    match plugin.authenticateBearer Authenticator.new time db token with
    | (none, db) => tryBearer time token rest db
    | (some session, db) =>
      match db.users.find? (fun user => user.id = session.userId) with
      | none => (none, db)
      | some user =>
        (some { Authenticator.new with user := user, session := some session }, db)

def authenticateBearer (site : Site) (time : Time) (db : Db) (token : String) :
    Option Authenticated × Db :=
  tryBearer time token (site.pluginsOf Authenticator.new) db

end Bearer

section Accepted

theorem findToken_token {db : Db} {token : String} {object : UserToken}
    (h : db.findToken token = some object) : object.token = token := by
  simpa using List.find?_some h

theorem findToken_mem {db : Db} {token : String} {object : UserToken}
    (h : db.findToken token = some object) : object ∈ db.userTokens :=
  List.mem_of_find?_eq_some h

theorem expire_tables {db db' : Db} {object : UserToken} (h : db.expire object = some db') :
    db'.users = db.users ∧ db'.tenants = db.tenants := by
  unfold Db.expire at h
  split at h
  · obtain rfl := Option.some.inj h
    exact ⟨rfl, rfl⟩
  · split at h
    · cases h
    · obtain rfl := Option.some.inj h
      exact ⟨rfl, rfl⟩

/-- What stays of a token that is used: everything but its expiration. -/
structure SameToken (session object : UserToken) : Prop where
  token : session.token = object.token
  userId : session.userId = object.userId
  vmId : session.vmId = object.vmId
  multiUse : session.multiUse = object.multiUse

theorem SameToken.refl (object : UserToken) : SameToken object object :=
  ⟨rfl, rfl, rfl, rfl⟩

theorem useToken_some {auth : Authenticator} {db db' : Db} {object session : UserToken}
    (h : Default.useToken auth db object = (some session, db')) :
    SameToken session object ∧ db'.users = db.users ∧ db'.tenants = db.tenants := by
  unfold Default.useToken at h
  split at h
  · obtain ⟨hsession, rfl⟩ := Prod.mk.inj h
    obtain rfl := Option.some.inj hsession
    exact ⟨SameToken.refl _, rfl, rfl⟩
  · cases hexpire : db.expire object with
    | none =>
      rw [hexpire] at h
      cases (Prod.mk.inj h).1
    | some stored =>
      rw [hexpire] at h
      obtain ⟨hsession, rfl⟩ := Prod.mk.inj h
      obtain rfl := Option.some.inj hsession
      exact ⟨⟨rfl, rfl, rfl, rfl⟩, expire_tables hexpire⟩

/-- A plugin that accepts a token has found its row, not expired. -/
theorem authenticateBearer_some {plugin : Plugin} {auth : Authenticator} {time : Time}
    {db db' : Db} {token : String} {session : UserToken}
    (h : plugin.authenticateBearer auth time db token = (some session, db')) :
    plugin.answersBearer = true ∧ ∃ object, db.findToken token = some object ∧
      object.isExpired time = false ∧ SameToken session object ∧ db'.users = db.users ∧
      db'.tenants = db.tenants := by
  unfold Plugin.authenticateBearer at h
  by_cases hanswers : plugin.answersBearer = true
  · rw [if_pos hanswers] at h
    unfold Default.authenticateBearer at h
    cases hfind : db.findToken token with
    | none =>
      rw [hfind] at h
      cases (Prod.mk.inj h).1
    | some object =>
      rw [hfind] at h
      cases hexpired : object.isExpired time with
      | true =>
        simp only [hexpired, if_true] at h
        cases (Prod.mk.inj h).1
      | false =>
        simp only [hexpired, Bool.false_eq_true, if_false] at h
        exact ⟨hanswers, object, rfl, hexpired, useToken_some h⟩
  · rw [if_neg hanswers] at h
    cases (Prod.mk.inj h).1

theorem findToken_deleteToken {db : Db} {deleted token : String} {object : UserToken}
    (h : (db.deleteToken deleted).findToken token = some object) :
    db.findToken token = some object := by
  have hmem := (List.mem_filter.mp (findToken_mem h)).1
  have htoken := findToken_token h
  cases hfind : db.findToken token with
  | none =>
    have hnone := List.find?_eq_none.mp hfind object hmem
    simp [htoken] at hnone
  | some other =>
    have hsame : other = object := by
      apply List.inj_on_of_nodup_map db.userTokens_nodup (findToken_mem hfind) hmem
      rw [findToken_token hfind, htoken]
    rw [hsame]

/-- A plugin that does not accept a token may have deleted it and leaves the rest. -/
theorem authenticateBearer_none {plugin : Plugin} {auth : Authenticator} {time : Time}
    {db db' : Db} {token : String}
    (h : plugin.authenticateBearer auth time db token = (none, db')) :
    db' = db ∨ ∃ deleted, db' = db.deleteToken deleted := by
  unfold Plugin.authenticateBearer at h
  split at h
  · unfold Default.authenticateBearer at h
    split at h
    · exact Or.inl (Prod.mk.inj h).2.symm
    · split at h
      · exact Or.inr ⟨_, (Prod.mk.inj h).2.symm⟩
      · unfold Default.useToken at h
        split at h
        · cases (Prod.mk.inj h).1
        · split at h
          · cases (Prod.mk.inj h).1
          · exact Or.inl (Prod.mk.inj h).2.symm
  · exact Or.inl (Prod.mk.inj h).2.symm

/-- What a bearer authentication has established when it succeeds. -/
structure BearerAccepted (site : Site) (time : Time) (db : Db) (token : String)
    (auth : Authenticated) (object : UserToken) : Prop where
  plugin : ∃ plugin ∈ site.pluginsOf Authenticator.new, plugin.answersBearer = true
  found : db.findToken token = some object
  notExpired : object.isExpired time = false
  session : ∃ session, auth.session = some session ∧ SameToken session object
  user : auth.user ∈ db.users
  userId : auth.user.id = object.userId
  fresh : auth.toAuthenticator = Authenticator.new

theorem tryBearer_some {time : Time} {token : String} {auth : Authenticated}
    (plugins : List Plugin) (db : Db)
    (h : (tryBearer time token plugins db).1 = some auth) :
    ∃ plugin ∈ plugins, plugin.answersBearer = true ∧ ∃ object session,
      db.findToken token = some object ∧ object.isExpired time = false ∧
      SameToken session object ∧ auth.user ∈ db.users ∧ auth.user.id = session.userId ∧
      auth = { Authenticator.new with user := auth.user, session := some session } := by
  induction plugins generalizing db with
  | nil => cases h
  | cons plugin rest ih =>
    unfold tryBearer at h
    cases hplugin : plugin.authenticateBearer Authenticator.new time db token with
    | mk result db' =>
      rw [hplugin] at h
      cases result with
      | none =>
        obtain ⟨other, hother, hanswers, object, session, hfind, hrest⟩ := ih db' h
        refine ⟨other, List.mem_cons_of_mem _ hother, hanswers, object, session, ?_⟩
        rcases authenticateBearer_none hplugin with rfl | ⟨deleted, rfl⟩
        · exact ⟨hfind, hrest⟩
        · exact ⟨findToken_deleteToken hfind, hrest⟩
      | some session =>
        obtain ⟨hanswers, object, hfind, hexpired, hsame, husers, -⟩ :=
          authenticateBearer_some hplugin
        refine ⟨plugin, List.mem_cons_self, hanswers, object, session, hfind, hexpired, hsame, ?_⟩
        cases huser : db'.users.find? (fun user => user.id = session.userId) with
        | none =>
          simp only [huser] at h
          cases h
        | some user =>
          simp only [huser] at h
          obtain rfl := Option.some.inj h
          refine ⟨?_, ?_, rfl⟩
          · rw [← husers]
            exact List.mem_of_find?_eq_some huser
          · simpa using List.find?_some huser

theorem bearerAccepted {site : Site} {time : Time} {db : Db} {token : String}
    {auth : Authenticated} (h : (authenticateBearer site time db token).1 = some auth) :
    ∃ object, BearerAccepted site time db token auth object := by
  obtain ⟨plugin, hplugin, hanswers, object, session, hfind, hexpired, hsame, huser, hid,
    hauth⟩ := tryBearer_some _ _ h
  refine ⟨object, ⟨plugin, hplugin, hanswers⟩, hfind, hexpired, ⟨session, ?_, hsame⟩, huser,
    hid.trans hsame.userId, ?_⟩
  · rw [hauth]
  · rw [hauth]

/-- What a basic authentication has established when it succeeds. -/
structure BasicAccepted (site : Site) (db : Db) (login passwd : String)
    (auth : Authenticated) : Prop where
  givenLogin : auth.login = some login
  givenPasswd : auth.passwd = some passwd
  plugin : ∃ plugin ∈ site.pluginsOf auth.toAuthenticator, ∃ first asked db' login',
    plugin.authenticateBasic asked db' login'
      (authenticateBasic2fSplit (site.pluginsOf auth.toAuthenticator) first passwd).1 =
        auth.normalizedLogin
  registered : auth.normalizedLogin = some auth.user.login
  tenant : ∃ name tenantId, validateTenant db name = some tenantId ∧
    auth.tenantId = some tenantId ∧ auth.user.tenantId = tenantId
  session : auth.session = none

theorem findUser_some {db : Db} {login : String} {tenantId : TenantId} {user : User}
    (h : findUser db login tenantId = some user) :
    user.login = login ∧ user.tenantId = tenantId := by
  simpa using List.find?_some h

theorem tryPlugins_some {all : List Plugin} {tenantId : TenantId} {passwd : String}
    {token : Option String} {auth : Authenticated} (plugins : List Plugin)
    (start : Authenticator) (login : String) (db : Db)
    (h : (tryPlugins all tenantId passwd token plugins start login db).1 = some auth) :
    ∃ plugin ∈ plugins, ∃ asked db' login' user normalized,
      plugin.authenticateBasic asked db' login' passwd = some normalized ∧
      user.login = normalized ∧ user.tenantId = tenantId ∧
      auth = { start with normalizedLogin := some normalized, user := user, session := none } := by
  induction plugins generalizing start login db with
  | nil => cases h
  | cons plugin rest ih =>
    unfold tryPlugins at h
    cases haccept : plugin.authenticateBasic start db login passwd with
    | none =>
      rw [haccept] at h
      obtain ⟨other, hother, hrest⟩ := ih _ _ _ h
      exact ⟨other, List.mem_cons_of_mem _ hother, hrest⟩
    | some normalized =>
      simp only [haccept] at h
      split at h
      · split at h
        · rename_i user huser
          obtain rfl := Option.some.inj h
          obtain ⟨hlogin, htenant⟩ := findUser_some huser
          exact ⟨plugin, List.mem_cons_self, start, db, login, user, normalized, haccept,
            hlogin, htenant, rfl⟩
        · obtain ⟨other, hother, asked, db', login', user, normalized', hacc, hlogin, htenant,
            hauth⟩ := ih _ _ _ h
          exact ⟨other, List.mem_cons_of_mem _ hother, asked, db', login', user, normalized',
            hacc, hlogin, htenant, hauth⟩
      · cases h

theorem basicAccepted {site : Site} {db : Db} {login passwd : String} {auth : Authenticated}
    (h : (authenticateBasic site db login passwd).1 = some auth) :
    BasicAccepted site db login passwd auth := by
  unfold authenticateBasic at h
  dsimp only at h
  split at h
  · cases h
  · split at h
    · cases h
    · split at h
      · cases h
      · rename_i tenantId hvalid
        unfold authenticateAtTenant at h
        dsimp only at h
        split at h
        · cases h
        · obtain ⟨plugin, hplugin, asked, db', login', user, normalized, haccept, hlogin,
            htenant, rfl⟩ := tryPlugins_some _ _ _ _ h
          exact ⟨rfl, rfl, ⟨plugin, hplugin, _, asked, db', login', haccept⟩,
            congrArg some hlogin.symm, ⟨_, tenantId, hvalid, rfl, htenant⟩, rfl⟩

/-- A tenant that passes the validation is not blocked. -/
theorem validateTenant_not_blocked {db : Db} {name : String} {tenantId : TenantId}
    (h : validateTenant db name = some tenantId) :
    ∀ tenant ∈ db.tenants, tenant.id = tenantId → tenant.blocked = false := by
  intro tenant hmem hid
  unfold validateTenant at h
  split at h
  · cases h
  · rename_i found hfind
    split at h
    · cases h
    · split at h
      · cases h
      · rename_i hblocked
        have hfound := List.mem_of_find?_eq_some hfind
        have hsame : tenant = found := by
          apply List.inj_on_of_nodup_map db.tenants_nodup hmem hfound
          exact hid.trans (Option.some.inj h).symm
        rw [hsame]
        simpa using hblocked

end Accepted

/-- One plugin that allows the access is enough. -/
def allowAccessToVm (site : Site) (auth : Authenticated) (vm : Vm) : Bool :=
  (site.pluginsOf auth.toAuthenticator).any (fun plugin => plugin.allowAccessToVm auth vm)

end Qvd.L7rAuthenticator
