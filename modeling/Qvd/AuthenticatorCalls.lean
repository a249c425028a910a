import Qvd.L7rAuthenticator
import Qvd.Runs

/-!
The calls made on one object of the authenticator. What it keeps of the authentications it has
made, and which credentials it accepts again.
-/
namespace Qvd.AuthenticatorCalls

open Runs L7rAuthenticator

/-- The object: the login and the password of the last basic authentication, the session the
plugins have put there, and the mark of a success. -/
structure Object where
  auth : Authenticator
  user : Option User
  session : Option UserToken
  authenticated : Bool
deriving DecidableEq, Repr

def Object.new : Object where
  auth := Authenticator.new
  user := none
  session := none
  authenticated := false

/-- The credentials of a header: its login is not empty. -/
inductive Credentials
  | basic (login passwd : String) (filled : login ≠ "")
  | bearer (token : String)

section Basic

variable (site : Site)

/-- The first part of `authenticate_basic`: the tenant and the normalized login. -/
def Object.prepare (o : Object) (db : Db) (login passwd : String) : Object × Option String :=
  let o := { o with auth := { o.auth with login := some login, passwd := some passwd } }
  let plugins := site.pluginsOf o.auth
  match findTenant plugins login with
  | none => (o, none)
  | some (tenant, login1) =>
    match normalize (site.caseSensitive 0) (plugins.map Plugin.normalizeTenant) tenant with
    | none => (o, none)
    | some _ =>
      match validateTenant db tenant with
      | none => (o, none)
      | some tenantId =>
        let o := { o with auth := { o.auth with tenantId := some tenantId } }
        let plugins := site.pluginsOf o.auth
        match normalize (site.caseSensitive 1) (plugins.map Plugin.normalizeLogin) login1 with
        | none => (o, none)
        | some normalized =>
          ({ o with auth := { o.auth with normalizedLogin := some normalized } },
            some normalized)

/-- `authenticate_basic`. The mark of an earlier success is deleted under another name, so it
stays. -/
def Object.authenticateBasic (o : Object) (db : Db) (login passwd : String) :
    Bool × Object × Db :=
  match o.prepare site db login passwd with
  | (o, none) => (false, o, db)
  | (o, some normalized) =>
    let plugins := site.pluginsOf o.auth
    let split := authenticateBasic2fSplit plugins o.auth passwd
    match tryPlugins plugins (o.auth.tenantId.getD 0) split.1 split.2 plugins o.auth normalized
      db with
    | (none, db) => (false, o, db)
    | (some auth, db) =>
      (true, { o with auth := auth.toAuthenticator, user := some auth.user,
                      authenticated := true }, db)

end Basic

section Bearer

/-- The loop of `authenticate_bearer`. A plugin that answers first forgets the session; one
that accepts ends the loop, also when the user of the session is not registered. -/
def Object.tryBearer (time : Time) (token : String) :
    List Plugin → Object → Db → Bool × Object × Db
  | [], o, db => (false, o, db)
  | plugin :: rest, o, db =>
    if plugin.answersBearer then
      match Default.authenticateBearer o.auth time db token with
      | (none, db) => tryBearer time token rest { o with session := none } db
      | (some session, db) =>
        match db.users.find? (fun user => user.id = session.userId) with
        | none => (false, { o with session := some session }, db)
        | some user =>
          (true, { o with session := some session, user := some user, authenticated := true },
            db)
    else tryBearer time token rest o db

def Object.authenticateBearer (site : Site) (o : Object) (time : Time) (db : Db)
    (token : String) : Bool × Object × Db :=
  Object.tryBearer time token (site.pluginsOf o.auth) o db

end Bearer

/-- `recheck_authentication`; it dies on a token when there is no session. -/
def Object.recheck (o : Object) : Credentials → Option Bool
  | .basic login passwd _ =>
    some (o.authenticated && o.auth.login.getD "" = login && o.auth.passwd.getD "" = passwd)
  | .bearer token =>
    if o.authenticated then o.session.map fun session => session.token = token
    else some false

/-- An authentication call, with the time, the database and the plugins' answers it finds. -/
structure Call where
  site : Site
  time : Time
  db : Db
  credentials : Credentials

def Call.run (c : Call) (o : Object) : Bool × Object × Db :=
  match c.credentials with
  | .basic login passwd _ => o.authenticateBasic c.site c.db login passwd
  | .bearer token => o.authenticateBearer c.site c.time c.db token

/-- The authentication calls made on an object. -/
def calls : System Object Call where
  init o := o = Object.new
  step o c o' := o' = (c.run o).2.1

section Laws

/-- Credentials are accepted again only if the last call was made with them and succeeded. -/
def LastOnly (past : List (Object × Call)) (o : Object) : Prop :=
  ∀ given, o.recheck given = some true →
    ∃ o₀ c rest, past = (o₀, c) :: rest ∧ c.credentials = given ∧ (c.run o₀).1 = true

/-- A basic authentication whose password held a second factor succeeds only if a plugin
accepts that. -/
def SecondFactor (o : Object) (c : Call) (_ : Object) : Prop :=
  ∀ login passwd filled prepared normalized token,
    c.credentials = .basic login passwd filled →
    o.prepare c.site c.db login passwd = (prepared, some normalized) →
    (authenticateBasic2fSplit (c.site.pluginsOf prepared.auth) prepared.auth passwd).2 =
      some token →
    (c.run o).1 = true →
    ∃ plugin ∈ c.site.pluginsOf prepared.auth, ∃ asked db login,
      plugin.authenticateBasic2f asked db login token = true

/-- The row of a token that has not expired. -/
def usable (time : Time) (db : Db) (token : String) : Option UserToken :=
  (db.findToken token).filter fun object => !object.isExpired time

def registered (db : Db) (useful : Option UserToken) : Bool :=
  useful.any fun object => (db.users.find? fun user => user.id = object.userId).isSome

def Call.answered (c : Call) (o : Object) : Bool :=
  (c.site.pluginsOf o.auth).any Plugin.answersBearer

/-- The plugins accept the credentials, and their user is registered. -/
def Call.accepted (c : Call) (o : Object) : Bool :=
  match c.credentials with
  | .basic login passwd _ =>
    match o.prepare c.site c.db login passwd with
    | (_, none) => false
    | (o, some normalized) =>
      let plugins := c.site.pluginsOf o.auth
      let split := authenticateBasic2fSplit plugins o.auth passwd
      (tryPlugins plugins (o.auth.tenantId.getD 0) split.1 split.2 plugins o.auth normalized
        c.db).1.isSome
  | .bearer token => c.answered o && registered c.db (usable c.time c.db token)

/-- A call that is accepted finds no credentials of the other kind on the object. One that is
not finds an object without success; or it is for a token that is of no use, and the object
holds no login, and no session that the plugins leave there. -/
def Clean (o : Object) (c : Call) : Prop :=
  match c.credentials with
  | .basic _ _ _ => if c.accepted o then o.session = none else o.authenticated = false
  | .bearer token =>
    if c.accepted o then o.auth.login = none
    else o.authenticated = false ∨ o.auth.login = none ∧
      if c.answered o then usable c.time c.db token = none else o.session = none

end Laws

section BasicCalls

variable {site : Site} {db : Db} {login passwd : String}

/-- What the preparation leaves on the object, whether it fails or not. -/
structure Prepared (o o' : Object) (login passwd : String) : Prop where
  login : o'.auth.login = some login
  passwd : o'.auth.passwd = some passwd
  session : o'.session = o.session
  authenticated : o'.authenticated = o.authenticated

theorem prepare_prepared (o : Object) :
    Prepared o (o.prepare site db login passwd).1 login passwd := by
  unfold Object.prepare
  dsimp only
  split
  · exact ⟨rfl, rfl, rfl, rfl⟩
  · split
    · exact ⟨rfl, rfl, rfl, rfl⟩
    · split
      · exact ⟨rfl, rfl, rfl, rfl⟩
      · split
        · exact ⟨rfl, rfl, rfl, rfl⟩
        · exact ⟨rfl, rfl, rfl, rfl⟩

/-- What a basic authentication leaves on the object: its credentials in any case, and the
mark of an earlier success when it fails. -/
structure BasicLeaves (o : Object) (accepted : Bool) (o' : Object)
    (login passwd : String) : Prop where
  login : o'.auth.login = some login
  passwd : o'.auth.passwd = some passwd
  session : o'.session = o.session
  authenticated : o'.authenticated = (o.authenticated || accepted)

theorem run_basic {c : Call} {filled : login ≠ ""} (o : Object)
    (hbasic : c.credentials = .basic login passwd filled) :
    (c.run o).1 = c.accepted o ∧
      BasicLeaves o (c.accepted o) (c.run o).2.1 login passwd := by
  have hprepared : Prepared o (o.prepare c.site c.db login passwd).1 login passwd :=
    prepare_prepared o
  unfold Call.run Call.accepted
  rw [hbasic]
  dsimp only
  unfold Object.authenticateBasic
  cases hprepare : o.prepare c.site c.db login passwd with
  | mk o' normalized =>
    rw [hprepare] at hprepared
    cases normalized with
    | none =>
      exact ⟨rfl, hprepared.login, hprepared.passwd, hprepared.session,
        hprepared.authenticated.trans (Bool.or_false _).symm⟩
    | some normalized =>
      dsimp only
      cases htry : tryPlugins (c.site.pluginsOf o'.auth) (o'.auth.tenantId.getD 0)
          (authenticateBasic2fSplit (c.site.pluginsOf o'.auth) o'.auth passwd).1
          (authenticateBasic2fSplit (c.site.pluginsOf o'.auth) o'.auth passwd).2
          (c.site.pluginsOf o'.auth) o'.auth normalized c.db with
      | mk result db' =>
        cases result with
        | none =>
          exact ⟨rfl, hprepared.login, hprepared.passwd, hprepared.session,
            hprepared.authenticated.trans (Bool.or_false _).symm⟩
        | some auth =>
          obtain ⟨-, -, -, -, -, user, name, -, -, -, rfl⟩ :=
            tryPlugins_some _ _ _ _ (congrArg Prod.fst htry)
          exact ⟨rfl, hprepared.login, hprepared.passwd, hprepared.session, by simp⟩

/-- The first call on an object decides as the authenticator of a request does. -/
theorem new_authenticateBasic :
    (Object.new.authenticateBasic site db login passwd).1 =
      (L7rAuthenticator.authenticateBasic site db login passwd).1.isSome := by
  unfold Object.authenticateBasic Object.prepare L7rAuthenticator.authenticateBasic
  simp only [authenticateAtTenant, Site.pluginsOf, Object.new, Authenticator.new,
    Option.getD_none, Option.getD_some]
  cases findTenant (site.plugins 0) login with
  | none => rfl
  | some parts =>
    dsimp only
    cases normalize (site.caseSensitive 0) ((site.plugins 0).map Plugin.normalizeTenant)
        parts.1 with
    | none => rfl
    | some _ =>
      dsimp only
      cases validateTenant db parts.1 with
      | none => rfl
      | some tenantId =>
        dsimp only
        cases normalize (site.caseSensitive 1)
            ((site.plugins tenantId).map Plugin.normalizeLogin) parts.2 with
        | none => rfl
        | some normalized =>
          dsimp only
          split
          · rename_i hnone
            exact (congrArg (fun result => Option.isSome (Prod.fst result)) hnone).symm
          · rename_i hsome
            exact (congrArg (fun result => Option.isSome (Prod.fst result)) hsome).symm

/-- A success with a second factor is one at a plugin, with the factor accepted there. -/
theorem tryPlugins_secondFactor {all : List Plugin} {tenantId : TenantId} {token : String}
    {auth : Authenticated} (plugins : List Plugin) (start : Authenticator) (login : String)
    (db : Db)
    (h : (tryPlugins all tenantId passwd (some token) plugins start login db).1 = some auth) :
    ∃ plugin ∈ all, ∃ asked db login,
      plugin.authenticateBasic2f asked db login token = true := by
  induction plugins generalizing start login db with
  | nil => cases h
  | cons plugin rest ih =>
    unfold tryPlugins at h
    cases haccept : plugin.authenticateBasic start db login passwd with
    | none =>
      rw [haccept] at h
      exact ih _ _ _ h
    | some normalized =>
      simp only [haccept] at h
      split at h
      · rename_i hfactor
        obtain ⟨second, hmem, hsecond⟩ := List.any_eq_true.mp hfactor
        exact ⟨second, hmem, _, _, _, hsecond⟩
      · cases h

theorem secondFactor_run (o : Object) (c : Call) (o' : Object) : SecondFactor o c o' := by
  intro login passwd filled prepared normalized token hbasic hprepare hsplit hrun
  rw [(run_basic o hbasic).1] at hrun
  unfold Call.accepted at hrun
  simp only [hbasic, hprepare, hsplit] at hrun
  obtain ⟨auth, htry⟩ := Option.isSome_iff_exists.mp hrun
  exact tryPlugins_secondFactor _ _ _ _ htry

end BasicCalls

section BearerCalls

variable {time : Time} {db : Db} {token : String}

theorem usable_some {object : UserToken} (h : usable time db token = some object) :
    db.findToken token = some object ∧ object.isExpired time = false := by
  obtain ⟨hfind, hexpired⟩ := Option.filter_eq_some_iff.mp h
  exact ⟨hfind, by simpa using hexpired⟩

theorem usable_deleteToken : usable time (db.deleteToken token) token = none := by
  have hnone : (db.deleteToken token).findToken token = none := by
    simp [Db.findToken, Db.deleteToken, List.find?_filter]
  unfold usable
  rw [hnone]
  rfl

/-- A plugin refuses a token that is of no use, for good. -/
theorem defaultBearer_of_useless (auth : Authenticator) (h : usable time db token = none) :
    ∃ db', Default.authenticateBearer auth time db token = (none, db') ∧
      usable time db' token = none := by
  unfold Default.authenticateBearer
  cases hfind : db.findToken token with
  | none => exact ⟨db, rfl, h⟩
  | some object =>
    have hexpired : object.isExpired time = true := by
      simpa [usable, hfind] using h
    refine ⟨db.deleteToken object.token, by simp [hexpired], ?_⟩
    rw [findToken_token hfind]
    exact usable_deleteToken

/-- A plugin accepts a token that is of use. -/
theorem defaultBearer_of_usable (auth : Authenticator) {object : UserToken}
    (h : usable time db token = some object) :
    ∃ session db', Default.authenticateBearer auth time db token = (some session, db') ∧
      session.token = token ∧ session.userId = object.userId ∧ db'.users = db.users := by
  obtain ⟨hfind, hexpired⟩ := usable_some h
  have hused : ∃ session db', Default.useToken auth db object = (some session, db') := by
    unfold Default.useToken
    split
    · exact ⟨_, _, rfl⟩
    · cases hexpire : db.expire object with
      | some db' => exact ⟨_, _, rfl⟩
      | none =>
        rw [← findToken_token hfind] at hfind
        unfold Db.expire at hexpire
        rw [hfind] at hexpire
        split at hexpire <;> cases hexpire
  obtain ⟨session, db', huse⟩ := hused
  obtain ⟨hsame, husers, -⟩ := useToken_some huse
  refine ⟨session, db', ?_, hsame.token.trans (findToken_token hfind), hsame.userId, husers⟩
  unfold Default.authenticateBearer
  simp only [hfind, hexpired, huse, Bool.false_eq_true, if_false]

/-- The session on the object after a bearer authentication. -/
structure SessionLeft (answered : Bool) (useful : Option UserToken) (token : String)
    (before after : Option UserToken) : Prop where
  unanswered : answered = false → after = before
  useless : answered = true → useful = none → after = none
  used : answered = true → useful ≠ none → ∃ session, after = some session ∧
    session.token = token

/-- What a bearer authentication leaves on the object: the login of an earlier call in any
case, and the mark of an earlier success when it fails. -/
structure BearerLeaves (o : Object) (answered : Bool) (useful : Option UserToken)
    (token : String) (accepted : Bool) (o' : Object) : Prop where
  auth : o'.auth = o.auth
  authenticated : o'.authenticated = (o.authenticated || accepted)
  session : SessionLeft answered useful token o.session o'.session

theorem tryBearer_useless (plugins : List Plugin) (o : Object) (db : Db)
    (h : usable time db token = none) :
    (Object.tryBearer time token plugins o db).1 = false ∧
      BearerLeaves o (plugins.any Plugin.answersBearer) none token false
        (Object.tryBearer time token plugins o db).2.1 := by
  induction plugins generalizing o db with
  | nil =>
    exact ⟨rfl, rfl, (Bool.or_false _).symm, fun _ => rfl, (nomatch ·), (nomatch ·)⟩
  | cons plugin rest ih =>
    unfold Object.tryBearer
    by_cases hanswers : plugin.answersBearer = true
    · obtain ⟨db', hbearer, huseless⟩ := defaultBearer_of_useless o.auth h
      obtain ⟨hfails, hleaves⟩ := ih { o with session := none } db' huseless
      rw [if_pos hanswers, hbearer, List.any_cons, hanswers, Bool.true_or]
      refine ⟨hfails, hleaves.auth, hleaves.authenticated, (nomatch ·), fun _ _ => ?_,
        fun _ h => absurd rfl h⟩
      by_cases hrest : rest.any Plugin.answersBearer = true
      · exact hleaves.session.useless hrest rfl
      · exact hleaves.session.unanswered (Bool.not_eq_true _ ▸ hrest)
    · have hsilent : plugin.answersBearer = false := Bool.not_eq_true _ ▸ hanswers
      rw [if_neg hanswers, List.any_cons, hsilent, Bool.false_or]
      exact ih o db h

theorem tryBearer_usable (plugins : List Plugin) (o : Object) (db : Db) {object : UserToken}
    (h : usable time db token = some object) :
    (Object.tryBearer time token plugins o db).1 =
        (plugins.any Plugin.answersBearer && registered db (some object)) ∧
      BearerLeaves o (plugins.any Plugin.answersBearer) (some object) token
        (plugins.any Plugin.answersBearer && registered db (some object))
        (Object.tryBearer time token plugins o db).2.1 := by
  induction plugins with
  | nil =>
    exact ⟨rfl, rfl, (Bool.or_false _).symm, fun _ => rfl, (nomatch ·), (nomatch ·)⟩
  | cons plugin rest ih =>
    unfold Object.tryBearer
    by_cases hanswers : plugin.answersBearer = true
    · obtain ⟨session, db', hbearer, htoken, huserId, husers⟩ :=
        defaultBearer_of_usable o.auth h
      rw [if_pos hanswers, hbearer, List.any_cons, hanswers, Bool.true_or, Bool.true_and]
      have hregistered : registered db (some object) =
          (db'.users.find? fun user => user.id = session.userId).isSome := by
        rw [husers, huserId]
        rfl
      rw [hregistered]
      cases huser : db'.users.find? (fun user => user.id = session.userId) with
      | none =>
        simp only [huser]
        exact ⟨rfl, rfl, (Bool.or_false _).symm, (nomatch ·), fun _ h => (nomatch h),
          fun _ _ => ⟨session, rfl, htoken⟩⟩
      | some user =>
        simp only [huser]
        exact ⟨rfl, rfl, (Bool.or_true _).symm, (nomatch ·), fun _ h => (nomatch h),
          fun _ _ => ⟨session, rfl, htoken⟩⟩
    · have hsilent : plugin.answersBearer = false := Bool.not_eq_true _ ▸ hanswers
      rw [if_neg hanswers, List.any_cons, hsilent, Bool.false_or]
      exact ih

theorem run_bearer {c : Call} (o : Object) (hbearer : c.credentials = .bearer token) :
    (c.run o).1 = c.accepted o ∧
      BearerLeaves o (c.answered o) (usable c.time c.db token) token (c.accepted o)
        (c.run o).2.1 := by
  unfold Call.run Call.accepted Object.authenticateBearer
  rw [hbearer]
  dsimp only
  cases huseful : usable c.time c.db token with
  | none =>
    rw [registered, Option.any_none, Bool.and_false]
    exact tryBearer_useless _ o c.db huseful
  | some object => exact tryBearer_usable _ o c.db huseful

end BearerCalls

section Rechecks

theorem recheck_basic {o : Object} {login passwd : String} {filled : login ≠ ""} :
    o.recheck (.basic login passwd filled) = some true ↔
      o.authenticated = true ∧ o.auth.login = some login ∧ o.auth.passwd.getD "" = passwd := by
  simp only [Object.recheck, Option.some.injEq, Bool.and_eq_true, decide_eq_true_eq, and_assoc]
  refine and_congr_right fun _ => and_congr_left fun _ => ?_
  cases hlogin : o.auth.login with
  | none => exact iff_of_false (fun h => filled h.symm) (nomatch ·)
  | some other => simp

theorem recheck_bearer {o : Object} {token : String} :
    o.recheck (.bearer token) = some true ↔
      o.authenticated = true ∧ ∃ session, o.session = some session ∧ session.token = token := by
  unfold Object.recheck
  cases o.authenticated with
  | false => simp
  | true => simp

/-- Without a mark of success nothing is accepted. -/
theorem authenticated_of_recheck {o : Object} {given : Credentials}
    (h : o.recheck given = some true) : o.authenticated = true := by
  cases given with
  | basic login passwd filled => exact (recheck_basic.mp h).1
  | bearer token => exact (recheck_bearer.mp h).1

/-- The login that is kept is the one of a call. -/
def LoginFilled (o : Object) : Prop :=
  ∀ login, o.auth.login = some login → login ≠ ""

theorem loginFilled_run {o : Object} (c : Call) (h : LoginFilled o) :
    LoginFilled (c.run o).2.1 := by
  intro kept hkept
  cases hc : c.credentials with
  | basic login passwd filled =>
    have hlogin := (run_basic o hc).2.login
    rw [hkept] at hlogin
    obtain rfl := Option.some.inj hlogin
    exact filled
  | bearer token =>
    rw [(run_bearer o hc).2.auth] at hkept
    exact h kept hkept

variable {past : List (Object × Call)} {o : Object} {c : Call}

/-- After a call, credentials are accepted only if they are its own and it succeeded. -/
theorem lastOnly_cons : LastOnly ((o, c) :: past) (c.run o).2.1 ↔
    ∀ given, (c.run o).2.1.recheck given = some true →
      c.credentials = given ∧ (c.run o).1 = true := by
  refine forall₂_congr fun given _ => ?_
  constructor
  · rintro ⟨o₀, c₀, rest, hpast, hgiven, hrun⟩
    obtain ⟨hhead, -⟩ := List.cons.inj hpast
    obtain ⟨rfl, rfl⟩ := Prod.mk.inj hhead
    exact ⟨hgiven, hrun⟩
  · rintro ⟨hgiven, hrun⟩
    exact ⟨o, c, past, rfl, hgiven, hrun⟩

theorem lastOnly_basic_iff {login passwd : String} {filled : login ≠ ""}
    (hbasic : c.credentials = .basic login passwd filled) :
    LastOnly ((o, c) :: past) (c.run o).2.1 ↔ Clean o c := by
  obtain ⟨hrun, hleaves⟩ := run_basic o hbasic
  have hauthenticated := hleaves.authenticated
  have hsession := hleaves.session
  unfold Clean
  rw [lastOnly_cons, hbasic, hrun]
  dsimp only
  cases haccepted : c.accepted o with
  | true =>
    rw [haccepted, Bool.or_true] at hauthenticated
    rw [if_pos rfl]
    constructor
    · intro hlast
      cases hkept : o.session with
      | none => rfl
      | some session =>
        have hagain : (c.run o).2.1.recheck (.bearer session.token) = some true :=
          recheck_bearer.mpr ⟨hauthenticated, session, hsession.trans hkept, rfl⟩
        cases (hlast _ hagain).1
    · intro hnone given hagain
      cases given with
      | basic login' passwd' filled' =>
        obtain ⟨-, hlogin, hpasswd⟩ := recheck_basic.mp hagain
        rw [hleaves.login] at hlogin
        rw [hleaves.passwd] at hpasswd
        obtain rfl := Option.some.inj hlogin
        obtain rfl : passwd = passwd' := hpasswd
        exact ⟨rfl, rfl⟩
      | bearer token =>
        obtain ⟨-, session, hkept, -⟩ := recheck_bearer.mp hagain
        rw [hsession, hnone] at hkept
        cases hkept
  | false =>
    rw [haccepted, Bool.or_false] at hauthenticated
    rw [if_neg Bool.false_ne_true]
    constructor
    · intro hlast
      cases hmark : o.authenticated with
      | false => rfl
      | true =>
        have hagain : (c.run o).2.1.recheck (.basic login passwd filled) = some true := by
          refine recheck_basic.mpr ⟨hauthenticated.trans hmark, hleaves.login, ?_⟩
          rw [hleaves.passwd]
          rfl
        cases (hlast _ hagain).2
    · intro hnone given hagain
      have hmark := authenticated_of_recheck hagain
      rw [hauthenticated, hnone] at hmark
      cases hmark

/-- The login of an earlier call is accepted with the mark of any success. -/
theorem login_none_of_lastOnly {token : String} (hfilled : LoginFilled o)
    (hbearer : c.credentials = .bearer token) (hmark : (c.run o).2.1.authenticated = true)
    (hlast : LastOnly ((o, c) :: past) (c.run o).2.1) : o.auth.login = none := by
  obtain ⟨-, hleaves⟩ := run_bearer o hbearer
  cases hkept : o.auth.login with
  | none => rfl
  | some login =>
    have hagain : (c.run o).2.1.recheck
        (.basic login ((c.run o).2.1.auth.passwd.getD "") (hfilled login hkept)) =
          some true := by
      refine recheck_basic.mpr ⟨hmark, ?_, rfl⟩
      rw [hleaves.auth, hkept]
    cases hbearer.symm.trans (lastOnly_cons.mp hlast _ hagain).1

theorem recheck_basic_ne {token : String} (hbearer : c.credentials = .bearer token)
    (hnone : o.auth.login = none) {login passwd : String} (filled : login ≠ "") :
    (c.run o).2.1.recheck (.basic login passwd filled) ≠ some true := by
  intro hagain
  obtain ⟨-, hkept, -⟩ := recheck_basic.mp hagain
  rw [(run_bearer o hbearer).2.auth, hnone] at hkept
  cases hkept

/-- When a call with a token leaves no session. -/
theorem session_none_iff {token : String} (hbearer : c.credentials = .bearer token) :
    (c.run o).2.1.session = none ↔
      if c.answered o then usable c.time c.db token = none else o.session = none := by
  have hsession := (run_bearer o hbearer).2.session
  cases hanswered : c.answered o with
  | false =>
    rw [hsession.unanswered hanswered]
    exact Iff.rfl
  | true =>
    rw [if_pos rfl]
    refine ⟨fun hnone => ?_, hsession.useless hanswered⟩
    by_contra huseful
    obtain ⟨session, hkept, -⟩ := hsession.used hanswered huseful
    rw [hnone] at hkept
    cases hkept

/-- The session that an accepted call leaves is that of its token. -/
theorem session_of_accepted {token : String} (hbearer : c.credentials = .bearer token)
    (haccepted : c.accepted o = true) :
    ∃ session, (c.run o).2.1.session = some session ∧ session.token = token := by
  have hsession := (run_bearer o hbearer).2.session
  unfold Call.accepted at haccepted
  rw [hbearer] at haccepted
  obtain ⟨hanswered, hregistered⟩ := (Bool.and_eq_true _ _).mp haccepted
  have huseful : usable c.time c.db token ≠ none := by
    intro hnone
    rw [hnone] at hregistered
    cases hregistered
  exact hsession.used hanswered huseful

theorem lastOnly_bearer_iff {token : String} (hfilled : LoginFilled o)
    (hbearer : c.credentials = .bearer token) :
    LastOnly ((o, c) :: past) (c.run o).2.1 ↔ Clean o c := by
  obtain ⟨hrun, hleaves⟩ := run_bearer o hbearer
  have hauthenticated := hleaves.authenticated
  unfold Clean
  rw [hbearer]
  dsimp only
  cases haccepted : c.accepted o with
  | true =>
    rw [haccepted, Bool.or_true] at hauthenticated
    rw [if_pos rfl]
    constructor
    · exact login_none_of_lastOnly hfilled hbearer hauthenticated
    · intro hnone
      refine lastOnly_cons.mpr fun given hagain => ?_
      cases given with
      | basic login passwd filled => exact absurd hagain (recheck_basic_ne hbearer hnone filled)
      | bearer token' =>
        obtain ⟨-, session, hkept, rfl⟩ := recheck_bearer.mp hagain
        obtain ⟨session', hkept', htoken⟩ := session_of_accepted hbearer haccepted
        rw [hkept] at hkept'
        obtain rfl := Option.some.inj hkept'
        exact ⟨hbearer.trans (congrArg _ htoken.symm), hrun.trans haccepted⟩
  | false =>
    rw [haccepted, Bool.or_false] at hauthenticated
    rw [if_neg Bool.false_ne_true, ← session_none_iff hbearer]
    constructor
    · intro hlast
      cases hmark : o.authenticated with
      | false => exact Or.inl rfl
      | true =>
        refine Or.inr
          ⟨login_none_of_lastOnly hfilled hbearer (hauthenticated.trans hmark) hlast, ?_⟩
        cases hkept : (c.run o).2.1.session with
        | none => rfl
        | some session =>
          have hagain : (c.run o).2.1.recheck (.bearer session.token) = some true :=
            recheck_bearer.mpr ⟨hauthenticated.trans hmark, session, hkept, rfl⟩
          cases (hrun.trans haccepted).symm.trans (lastOnly_cons.mp hlast _ hagain).2
    · intro hclean
      refine lastOnly_cons.mpr fun given hagain => ?_
      rcases hclean with hnone | ⟨hnone, hnoKept⟩
      · have hmark := authenticated_of_recheck hagain
        rw [hauthenticated, hnone] at hmark
        cases hmark
      · cases given with
        | basic login passwd filled =>
          exact absurd hagain (recheck_basic_ne hbearer hnone filled)
        | bearer token' =>
          obtain ⟨-, session, hkept, -⟩ := recheck_bearer.mp hagain
          rw [hnoKept] at hkept
          cases hkept

end Rechecks

/-- Throughout a run of calls an object accepts again only the credentials of the last call,
if that succeeded, and no second factor is passed over, exactly if every call is clean. -/
theorem accepts_last_iff {past : List (Object × Call)} {o : Object}
    (hrun : calls.Run past o) :
    AlwaysSince LastOnly past o ∧ EachTransition SecondFactor past o ↔
      AllSteps Clean past := by
  have hsecond : EachTransition SecondFactor past o :=
    hrun.eachTransition_of_always (I := fun _ => True)
      (fun o c o' _ _ => secondFactor_run o c o') ⟨trivial, fun _ _ => trivial⟩
  have hlast : AlwaysSince LastOnly past o ↔ AllSteps Clean past := by
    refine hrun.alwaysSince_iff_allSteps ?_ ?_
    · rintro o rfl given hagain
      cases authenticated_of_recheck hagain
    · rintro past o c o' hpast - rfl
      have hfilled : LoginFilled o := by
        refine (hpast.always (I := LoginFilled) ?_ ?_).1
        · rintro o rfl login hlogin
          cases hlogin
        · rintro o c o' hfilled rfl
          exact loginFilled_run c hfilled
      cases hc : c.credentials with
      | basic login passwd filled => exact lastOnly_basic_iff hc
      | bearer token => exact lastOnly_bearer_iff hfilled hc
  rw [← hlast]
  exact and_iff_left hsecond

section Alice

/-- The default plugin alone, with one user in the database. -/
def defaultSite : Site where
  plugins _ := [Plugin.default
    { separators := ['@'], tenant := none
      digest := fun passwd =>
        if passwd = "secret" then "K7gNU3sdo+OL0wNhqoVWhr3g6s1xYv72ol/pe/Unols" else "" }]
  caseSensitive _ := true
  decodeBase64 encoded := encoded

def aliceDb : Db where
  tenants := [{ id := 2, name := "acme", blocked := false }]
  users := [{ id := 5, login := "alice", tenantId := 2, blocked := false
              password := "K7gNU3sdo+OL0wNhqoVWhr3g6s1xYv72ol/pe/Unols" }]
  userTokens := []
  tenants_nodup := by simp
  users_nodup := by simp
  userTokens_nodup := by simp

def basicCall (login passwd : String) (filled : login ≠ "") : Call where
  site := defaultSite
  time := 1000
  db := aliceDb
  credentials := .basic login passwd filled

/-- A login with the right password and then one that does not exist. -/
def aliceThenMallory : List (Object × Call) :=
  let first := basicCall "alice@acme" "secret" (by decide)
  [((first.run Object.new).2.1, basicCall "mallory@acme" "guess" (by decide)),
    (Object.new, first)]

theorem clean_of_accepted {o : Object} {c : Call} {login passwd : String} {filled : login ≠ ""}
    (hbasic : c.credentials = .basic login passwd filled) (haccepted : c.accepted o = true)
    (hnone : o.session = none) : Clean o c := by
  unfold Clean
  rw [hbasic]
  dsimp only
  rw [if_pos haccepted]
  exact hnone

theorem aliceThenMallory_run : calls.Run aliceThenMallory
    ((basicCall "mallory@acme" "guess" (by decide)).run
      ((basicCall "alice@acme" "secret" (by decide)).run Object.new).2.1).2.1 :=
  ((System.Run.start rfl).extend rfl).extend rfl

theorem accepts_last_iff_alice :
    AlwaysSince LastOnly [(Object.new, basicCall "alice@acme" "secret" (by decide))]
        ((basicCall "alice@acme" "secret" (by decide)).run Object.new).2.1 ∧
      EachTransition SecondFactor [(Object.new, basicCall "alice@acme" "secret" (by decide))]
        ((basicCall "alice@acme" "secret" (by decide)).run Object.new).2.1 := by
  refine (accepts_last_iff ((System.Run.start rfl).extend rfl)).mpr ?_
  rw [allSteps_cons]
  refine ⟨?_, by simp [AllSteps]⟩
  have haccepted : (basicCall "alice@acme" "secret" (by decide)).accepted Object.new = true := by
    decide
  exact clean_of_accepted rfl haccepted rfl

/-- The login that failed is accepted when it is given again. -/
theorem failed_login_accepted_again : ∃ past o, calls.Run past o ∧
    (past.head?.map fun e => (e.2.run e.1).1) = some false ∧
    o.recheck (.basic "mallory@acme" "guess" (by decide)) = some true ∧
    ¬AlwaysSince LastOnly past o := by
  have hagain : ((basicCall "mallory@acme" "guess" (by decide)).run
      ((basicCall "alice@acme" "secret" (by decide)).run Object.new).2.1).2.1.recheck
        (.basic "mallory@acme" "guess" (by decide)) = some true := by
    decide
  refine ⟨_, _, aliceThenMallory_run, by decide, hagain, ?_⟩
  intro hlast
  obtain ⟨_, _, _, hpast, -, hsuccess⟩ := hlast.now _ hagain
  obtain ⟨hhead, -⟩ := List.cons.inj hpast
  obtain ⟨rfl, rfl⟩ := Prod.mk.inj hhead
  revert hsuccess
  decide

end Alice

end Qvd.AuthenticatorCalls
