import Qvd.L7rAuthenticator
import Qvd.Runs

/-!
The requests of one persistent connection to the L7R. The process keeps the authenticator
of the last successful authentication, and an error response does not end the connection.
-/
namespace Qvd.L7rRequests

open Runs L7rAuthenticator

/-- What the Authorization header of a request gives. -/
structure Credentials where
  login : Option String
  passwd : Option String
  token : Option String
deriving DecidableEq, Repr

def Credentials.none : Credentials :=
  { login := Option.none, passwd := Option.none, token := Option.none }

/-- The match of a decoded basic credential: a login without colon, and a rest in which a
line feed can only be the last character, which the match leaves out. -/
def splitBasic (decoded : String) : Option (String × String) :=
  let login := decoded.toList.takeWhile (fun c => c ≠ ':')
  match decoded.toList.drop login.length with
  | [] => Option.none
  | _ :: rest =>
    if login = [] then Option.none
    else if '\n' ∉ rest then some (String.ofList login, String.ofList rest)
    else if rest.getLast? = some '\n' ∧ '\n' ∉ rest.dropLast then
      some (String.ofList login, String.ofList rest.dropLast)
    else Option.none

/-- The value after the name of an authentication scheme. -/
def schemeValue (scheme : String) (authorization : String) : Option String :=
  if scheme.toList.isPrefixOf authorization.toList then
    some (String.ofList (authorization.toList.drop scheme.length))
  else Option.none

def credentials (site : Site) (authorization : Option String) : Credentials :=
  match authorization with
  | Option.none => Credentials.none
  | some value =>
    match schemeValue "Bearer " value with
    | some bearer => { Credentials.none with token := some (site.decodeBase64 bearer) }
    | Option.none =>
      match (schemeValue "Basic " value).bind (fun basic => splitBasic (site.decodeBase64 basic)) with
      | some (login, passwd) =>
        { Credentials.none with login := some login, passwd := some passwd }
      | Option.none => Credentials.none

/-- The errors of _authenticate_user: the host is not registered, nobody is authenticated,
or the program dies. -/
inductive AuthError
  | serviceUnavailable
  | unauthorized
  | died
deriving DecidableEq, Repr

/-- The comparison of the credentials with those of a cached authenticator. A bearer token
against an authenticator without session dies. -/
def recheckAuthentication (auth : Authenticated) (given : Credentials) :
    Except AuthError Bool :=
  if given.login.isSome && given.passwd.isSome &&
      auth.login.getD "" = given.login.getD "" && auth.passwd.getD "" = given.passwd.getD "" then
    .ok true
  else
    match given.token with
    | Option.none => .ok false
    | some token =>
      match auth.session with
      | Option.none => .error .died
      | some session => .ok (session.token = token)

/-- What a request finds when it is served. -/
structure Call where
  authorization : Option String
  time : Time
  db : Db
  hostRegistered : Bool

/-- The authentication of a request that the cached authenticator does not answer. -/
def authenticateAnew (site : Site) (call : Call) (given : Credentials) :
    Option Authenticated :=
  match given.login, given.passwd with
  | some login, some passwd => (authenticateBasic site call.db login passwd).1
  | _, _ =>
    match given.token with
    | some token => (authenticateBearer site call.time call.db token).1
    | Option.none => Option.none

/-- A new authenticator is cached before its user is checked. -/
def cacheAndCheck (cached : Option Authenticated) (auth : Option Authenticated) :
    Except AuthError Authenticated × Option Authenticated :=
  match auth with
  | Option.none => (.error .unauthorized, cached)
  | some auth => (if auth.user.blocked then .error .unauthorized else .ok auth, some auth)

/-- The result of _authenticate_user, and the authenticator cached after it. -/
def authenticateUser (site : Site) (cached : Option Authenticated) (call : Call) :
    Except AuthError Authenticated × Option Authenticated :=
  let given := credentials site call.authorization
  if call.hostRegistered = false then (.error .serviceUnavailable, cached)
  else
    match cached with
    | Option.none => cacheAndCheck cached (authenticateAnew site call given)
    | some auth =>
      match recheckAuthentication auth given with
      | .error e => (.error e, cached)
      | .ok true => (.ok auth, cached)
      | .ok false => cacheAndCheck cached (authenticateAnew site call given)

/-- The methods the L7R serves, by the function that processes them. -/
inductive Processor
  | connectToVm | authenticateUser | createAuthToken | listOfVm | listOfApplications
  | ping | stopVm | notFound
deriving DecidableEq, Repr

/-- The processors that authenticate the user of the request. -/
def Processor.authenticates : Processor → Bool
  | .ping | .notFound => false
  | _ => true

/-- A request that is served, or one that dies in a plugin or in the database, before or
after a new authenticator has been cached. -/
inductive Request
  | serve (processor : Processor) (call : Call)
  | die (processor : Processor) (call : Call) (afterCaching : Bool)

/-- The authenticator cached after a request. -/
def handle (site : Site) (cached : Option Authenticated) : Request → Option Authenticated
  | .serve processor call =>
    if processor.authenticates then (authenticateUser site cached call).2 else cached
  | .die processor call afterCaching =>
    if processor.authenticates && afterCaching then (authenticateUser site cached call).2
    else cached

/-- The requests of one connection, on a database that anybody may change between them. -/
def connectionSystem (site : Site) : System (Option Authenticated) Request where
  init cached := cached = Option.none
  step cached request cached' := cached' = handle site cached request

section Specification

variable (site : Site)

def Request.call : Request → Call
  | .serve _ call | .die _ call _ => call

def Request.processor : Request → Processor
  | .serve processor _ | .die processor _ _ => processor

/-- The plugins have accepted the credentials of the call, and this is their outcome. -/
def AcceptedAt (call : Call) (auth : Authenticated) : Prop :=
  let given := credentials site call.authorization
  (∃ login passwd, given.login = some login ∧ given.passwd = some passwd ∧
    BasicAccepted site call.db login passwd auth) ∨
  ∃ token object, given.token = some token ∧
    BearerAccepted site call.time call.db token auth object

/-- No row of the table makes the user's tenant a blocked one. -/
def TenantNotBlocked (db : Db) (user : User) : Prop :=
  ∀ tenant ∈ db.tenants, tenant.id = user.tenantId → tenant.blocked = false

/-- Some request of the connection had its credentials accepted with this outcome, for a
user whose tenant was not blocked. -/
def Origin (requests : List Request) (auth : Authenticated) : Prop :=
  ∃ request ∈ requests, AcceptedAt site request.call auth ∧
    TenantNotBlocked request.call.db auth.user

/-- What a normal return of _authenticate_user promises: the credentials of the request were
accepted on this connection, and neither the user nor the tenant was blocked then. -/
def Checked (past : List (Option Authenticated × Request)) (cached : Option Authenticated) :
    Request → Prop
  | .die _ _ _ => True
  | .serve processor call => processor.authenticates = true → ∀ auth,
      (authenticateUser site cached call).1 = .ok auth →
      auth.user.blocked = false ∧
      ∃ request ∈ Request.serve processor call :: past.map Prod.snd,
        credentials site request.call.authorization = credentials site call.authorization ∧
        AcceptedAt site request.call auth ∧ TenantNotBlocked request.call.db auth.user

/-- The request does not present again the credentials of a user that was blocked when they
were checked, and its token is not one of a user of a blocked tenant. -/
def RequestOk (cached : Option Authenticated) (request : Request) : Prop :=
  let given := credentials site request.call.authorization
  request.processor.authenticates = true → request.call.hostRegistered = true →
    (∀ auth, cached = some auth → recheckAuthentication auth given = .ok true →
      auth.user.blocked = false) ∧
    ∀ token row user, given.token = some token →
      request.call.db.findToken token = some row → row.isExpired request.call.time = false →
      user ∈ request.call.db.users → user.id = row.userId → user.blocked = false →
      TenantNotBlocked request.call.db user

end Specification

section Credentials

theorem splitBasic_login {decoded login passwd : String}
    (h : splitBasic decoded = some (login, passwd)) : login ≠ "" := by
  have hne : ∀ chars : List Char, chars ≠ [] → String.ofList chars ≠ "" := by
    intro chars hchars heq
    apply hchars
    simpa using congrArg String.toList heq
  unfold splitBasic at h
  dsimp only at h
  split at h
  · cases h
  · split at h
    · cases h
    · rename_i hlogin
      split at h
      · obtain ⟨rfl, -⟩ := Prod.mk.inj (Option.some.inj h)
        exact hne _ hlogin
      · split at h
        · obtain ⟨rfl, -⟩ := Prod.mk.inj (Option.some.inj h)
          exact hne _ hlogin
        · cases h

/-- A header gives a login that is not empty with its password, or neither of them. -/
theorem credentials_shape (site : Site) (authorization : Option String) :
    (∃ login passwd, login ≠ "" ∧ credentials site authorization =
      { Credentials.none with login := some login, passwd := some passwd }) ∨
    ∃ token, credentials site authorization = { Credentials.none with token := token } := by
  unfold credentials
  split
  · exact Or.inr ⟨Option.none, rfl⟩
  · split
    · exact Or.inr ⟨_, rfl⟩
    · split
      · rename_i login passwd hsplit
        obtain ⟨basic, -, hbasic⟩ := Option.bind_eq_some_iff.mp hsplit
        exact Or.inl ⟨login, passwd, splitBasic_login hbasic, rfl⟩
      · exact Or.inr ⟨Option.none, rfl⟩

/-- Credentials that pass the recheck are those the cached authenticator was accepted for. -/
theorem recheck_credentials {site : Site} {call : Call} {auth : Authenticated}
    {authorization : Option String} (haccepted : AcceptedAt site call auth)
    (h : recheckAuthentication auth (credentials site authorization) = .ok true) :
    credentials site call.authorization = credentials site authorization := by
  unfold recheckAuthentication at h
  rcases credentials_shape site authorization with ⟨login, passwd, hne, hgiven⟩ | ⟨token, hgiven⟩
  · rw [hgiven] at h ⊢
    simp only [Credentials.none, Option.isSome_some, Option.getD_some, Bool.true_and,
      Bool.and_eq_true, decide_eq_true_eq] at h
    split at h
    · rename_i hsame
      rcases haccepted with ⟨login', passwd', hlogin, hpasswd, haccepted⟩ |
        ⟨token', object, htoken, haccepted⟩
      · rw [haccepted.givenLogin, haccepted.givenPasswd] at hsame
        obtain ⟨rfl, rfl⟩ := hsame
        rcases credentials_shape site call.authorization with ⟨l, p, -, hcall⟩ | ⟨t, hcall⟩
        · rw [hcall] at hlogin hpasswd ⊢
          obtain rfl := Option.some.inj hlogin
          obtain rfl := Option.some.inj hpasswd
          rfl
        · rw [hcall] at hlogin
          cases hlogin
      · rw [haccepted.fresh] at hsame
        exact absurd hsame.1.symm hne
    · cases h
  · rw [hgiven] at h ⊢
    simp only [Credentials.none, Option.isSome_none, Bool.false_and, Bool.false_eq_true,
      if_false] at h
    cases token with
    | none => cases h
    | some token =>
      rcases haccepted with ⟨login', passwd', hlogin, hpasswd, haccepted⟩ |
        ⟨token', object, htoken, haccepted⟩
      · rw [haccepted.session] at h
        cases h
      · obtain ⟨session, hsession, hsame⟩ := haccepted.session
        rw [hsession] at h
        have htokens : session.token = token := by simpa using h
        rw [hsame.token, findToken_token haccepted.found] at htokens
        rcases credentials_shape site call.authorization with ⟨l, p, -, hcall⟩ | ⟨t, hcall⟩
        · rw [hcall] at htoken
          cases htoken
        · rw [hcall] at htoken ⊢
          rw [show t = some token' from htoken, htokens]

end Credentials

section Steps

variable {site : Site} {cached : Option Authenticated} {call : Call} {auth : Authenticated}

theorem authenticateAnew_accepted
    (h : authenticateAnew site call (credentials site call.authorization) = some auth) :
    AcceptedAt site call auth := by
  unfold authenticateAnew at h
  split at h
  · rename_i login passwd hlogin hpasswd
    exact Or.inl ⟨login, passwd, hlogin, hpasswd, basicAccepted h⟩
  · split at h
    · rename_i token htoken
      obtain ⟨object, haccepted⟩ := bearerAccepted h
      exact Or.inr ⟨token, object, htoken, haccepted⟩
    · cases h

/-- A normal return gives the cached authenticator after its recheck, or a new one whose
user is not blocked. -/
theorem authenticateUser_ok (h : (authenticateUser site cached call).1 = .ok auth) :
    call.hostRegistered = true ∧
      ((cached = some auth ∧
          recheckAuthentication auth (credentials site call.authorization) = .ok true) ∨
        (authenticateAnew site call (credentials site call.authorization) = some auth ∧
          auth.user.blocked = false)) := by
  have hcached : ∀ cached new, (cacheAndCheck cached new).1 = .ok auth →
      new = some auth ∧ auth.user.blocked = false := by
    intro cached new h
    cases new with
    | none => cases h
    | some new =>
      simp only [cacheAndCheck] at h
      split at h
      · cases h
      · rename_i hblocked
        obtain rfl := Except.ok.inj h
        exact ⟨rfl, by simpa using hblocked⟩
  unfold authenticateUser at h
  dsimp only at h
  split at h
  · cases h
  · rename_i hhost
    refine ⟨by simpa using hhost, ?_⟩
    split at h
    · exact Or.inr (hcached _ _ h)
    · split at h
      · cases h
      · rename_i hrecheck
        obtain rfl := Except.ok.inj h
        exact Or.inl ⟨rfl, hrecheck⟩
      · exact Or.inr (hcached _ _ h)

/-- What is cached after a request was cached before it or has just been accepted. -/
theorem authenticateUser_cached (h : (authenticateUser site cached call).2 = some auth) :
    cached = some auth ∨ (call.hostRegistered = true ∧
      authenticateAnew site call (credentials site call.authorization) = some auth) := by
  have hcached : ∀ new, (cacheAndCheck cached new).2 = some auth →
      cached = some auth ∨ new = some auth := by
    intro new h
    cases new with
    | none => exact Or.inl h
    | some new => exact Or.inr h
  unfold authenticateUser at h
  dsimp only at h
  split at h
  · exact Or.inl h
  · rename_i hhost
    split at h
    · exact (hcached _ h).imp_right fun h => ⟨by simpa using hhost, h⟩
    · split at h
      · exact Or.inl h
      · exact Or.inl h
      · exact (hcached _ h).imp_right fun h => ⟨by simpa using hhost, h⟩

/-- A basic authentication has validated the tenant of the user it returns. -/
theorem basicAccepted_tenant {db : Db} {login passwd : String}
    (h : BasicAccepted site db login passwd auth) : TenantNotBlocked db auth.user := by
  obtain ⟨name, tenantId, hvalid, -, huser⟩ := h.tenant
  intro tenant hmem hid
  exact validateTenant_not_blocked hvalid tenant hmem (hid.trans huser)

/-- An authentication of a request that meets the condition is for a tenant not blocked. -/
theorem accepted_tenant {request : Request} (hauthenticates : request.processor.authenticates)
    (hhost : request.call.hostRegistered = true) (hok : RequestOk site cached request)
    (haccepted : AcceptedAt site request.call auth) (hblocked : auth.user.blocked = false) :
    TenantNotBlocked request.call.db auth.user := by
  rcases haccepted with ⟨login, passwd, -, -, haccepted⟩ | ⟨token, object, htoken, haccepted⟩
  · exact basicAccepted_tenant haccepted
  · exact (hok hauthenticates hhost).2 token object auth.user htoken haccepted.found
      haccepted.notExpired haccepted.user haccepted.userId hblocked

end Steps

section Runs

variable {site : Site}

/-- What is kept of the cached authenticator: if its user was not blocked when it was
checked, a request of the connection has been accepted with it. -/
def CachedOk (site : Site) (past : List (Option Authenticated × Request))
    (cached : Option Authenticated) : Prop :=
  ∀ auth, cached = some auth → auth.user.blocked = false → Origin site (past.map Prod.snd) auth

theorem Origin.weaken {requests : List Request} {auth : Authenticated} (request : Request)
    (h : Origin site requests auth) : Origin site (request :: requests) auth := by
  obtain ⟨earlier, hmem, haccepted⟩ := h
  exact ⟨earlier, List.mem_cons_of_mem _ hmem, haccepted⟩

theorem cachedOk_step {past : List (Option Authenticated × Request)}
    {cached : Option Authenticated} {request : Request} (h : CachedOk site past cached)
    (hok : RequestOk site cached request) :
    CachedOk site ((cached, request) :: past) (handle site cached request) := by
  intro auth hauth hblocked
  have hold : cached = some auth → Origin site (((cached, request) :: past).map Prod.snd) auth :=
    fun hcached => (h auth hcached hblocked).weaken request
  have hnew : request.processor.authenticates = true →
      (authenticateUser site cached request.call).2 = some auth →
      Origin site (((cached, request) :: past).map Prod.snd) auth := by
    intro hauthenticates hafter
    rcases authenticateUser_cached hafter with hcached | ⟨hhost, hanew⟩
    · exact hold hcached
    · have haccepted := authenticateAnew_accepted hanew
      exact ⟨request, List.mem_cons_self, haccepted,
        accepted_tenant hauthenticates hhost hok haccepted hblocked⟩
  cases request with
  | serve processor call =>
    simp only [handle] at hauth
    split at hauth
    · rename_i hauthenticates
      exact hnew hauthenticates hauth
    · exact hold hauth
  | die processor call afterCaching =>
    simp only [handle, Bool.and_eq_true] at hauth
    split at hauth
    · rename_i hboth
      exact hnew hboth.1 hauth
    · exact hold hauth

/-- A request that meets the condition gets past the authentication only as promised. -/
theorem checked_of_ok {past : List (Option Authenticated × Request)}
    {cached : Option Authenticated} {request : Request} (h : CachedOk site past cached)
    (hok : RequestOk site cached request) : Checked site past cached request := by
  cases request with
  | die processor call afterCaching => trivial
  | serve processor call =>
    intro hauthenticates auth hreturned
    obtain ⟨hhost, hcases⟩ := authenticateUser_ok hreturned
    rcases hcases with ⟨hcached, hrecheck⟩ | ⟨hanew, hblocked⟩
    · have hblocked := (hok hauthenticates hhost).1 auth hcached hrecheck
      obtain ⟨earlier, hmem, haccepted, htenant⟩ := h auth hcached hblocked
      exact ⟨hblocked, earlier, List.mem_cons_of_mem _ hmem,
        recheck_credentials haccepted hrecheck, haccepted, htenant⟩
    · have haccepted := authenticateAnew_accepted hanew
      exact ⟨hblocked, .serve processor call, List.mem_cons_self, rfl, haccepted,
        accepted_tenant hauthenticates hhost hok haccepted hblocked⟩

/-- On a connection none of whose requests presents again the credentials of a user found
blocked, or a token of a user of a blocked tenant, nobody blocked gets past. -/
theorem blocked_users_refused (past : List (Option Authenticated × Request))
    (cached : Option Authenticated) (run : (connectionSystem site).Run past cached)
    (hok : AllSteps (RequestOk site) past) : EachStep (Checked site) past := by
  have hboth : AllSteps (RequestOk site) past →
      CachedOk site past cached ∧ EachStep (Checked site) past := by
    refine run.invariant
      (I := fun past cached => AllSteps (RequestOk site) past →
        CachedOk site past cached ∧ EachStep (Checked site) past) ?_ ?_
    · intro cached hinit _
      refine ⟨?_, trivial⟩
      intro auth hauth
      rw [hinit] at hauth
      cases hauth
    · intro past cached request cached' ih hstep hall
      obtain ⟨hrequest, hpast⟩ := (allSteps_cons _ _ _ _).mp hall
      obtain ⟨hcached, heach⟩ := ih hpast
      obtain rfl : cached' = _ := hstep
      exact ⟨cachedOk_step hcached hrequest, checked_of_ok hcached hrequest, heach⟩
  exact (hboth hok).2

end Runs

section OneUser

/-- A site with the default plugin alone, for the credentials used below. -/
def plainSite : Site where
  plugins _ := [Plugin.default
    { separators := ['@'], tenant := Option.none
      digest := fun passwd =>
        if passwd = "secret" then "K7gNU3sdo+OL0wNhqoVWhr3g6s1xYv72ol/pe/Unols" else "" }]
  caseSensitive _ := true
  decodeBase64 encoded :=
    if encoded = "YWxpY2VAYWNtZTpzZWNyZXQ=" then "alice@acme:secret"
    else if encoded = "dDBrM24=" then "t0k3n" else ""

/-- One tenant, one user with a password and one token of that user. -/
def oneUser (userBlocked tenantBlocked : Bool) : Db where
  tenants := [{ id := 2, name := "acme", blocked := tenantBlocked }]
  users := [{ id := 5, login := "alice", tenantId := 2, blocked := userBlocked
              password := "K7gNU3sdo+OL0wNhqoVWhr3g6s1xYv72ol/pe/Unols" }]
  userTokens := [{ token := "t0k3n", userId := 5, vmId := Option.none, expiration := 2000,
                   multiUse := true }]
  tenants_nodup := by simp
  users_nodup := by simp
  userTokens_nodup := by simp

def listCall (authorization : String) (db : Db) : Call where
  authorization := some authorization
  time := 1000
  db := db
  hostRegistered := true

theorem list_run (call : Call) : (connectionSystem plainSite).Run
    [(Option.none, .serve .listOfVm call)]
    (authenticateUser plainSite Option.none call).2 :=
  .extend (.start rfl) rfl

/-- The list of machines of a user that is not blocked, by the password. -/
theorem list_by_password_checked :
    (authenticateUser plainSite Option.none
      (listCall "Basic YWxpY2VAYWNtZTpzZWNyZXQ=" (oneUser false false))).1.isOk = true ∧
    EachStep (Checked plainSite)
      [(Option.none, .serve .listOfVm
        (listCall "Basic YWxpY2VAYWNtZTpzZWNyZXQ=" (oneUser false false)))] := by
  refine ⟨by decide, ?_⟩
  refine blocked_users_refused _ _ (list_run _) ?_
  rw [allSteps_cons]
  refine ⟨?_, by simp [AllSteps]⟩
  intro _ _
  refine ⟨?_, ?_⟩
  · intro auth hcached
    cases hcached
  · intro token row user htoken
    have hnone : (credentials plainSite (some "Basic YWxpY2VAYWNtZTpzZWNyZXQ=")).token =
        Option.none := by decide
    cases hnone.symm.trans htoken

/-- The authenticator of the user, as it is cached. -/
def alice (blocked : Bool) (session : Option UserToken) : Authenticated where
  login := if session.isSome then Option.none else some "alice@acme"
  passwd := if session.isSome then Option.none else some "secret"
  tenantId := if session.isSome then Option.none else some 2
  normalizedLogin := if session.isSome then Option.none else some "alice"
  multiUse := Option.none
  user := { id := 5, login := "alice", tenantId := 2, blocked := blocked
            password := "K7gNU3sdo+OL0wNhqoVWhr3g6s1xYv72ol/pe/Unols" }
  session := session

/-- A blocked user is refused once and gets past with the same request again; a token gets
a user of a blocked tenant past at once. -/
theorem blocked_user_gets_past :
    (∃ past cached, (connectionSystem plainSite).Run past cached ∧
      (past.map Prod.snd).map (fun request => request.call.authorization) =
        List.replicate 2 (some "Basic YWxpY2VAYWNtZTpzZWNyZXQ=") ∧
      ¬ EachStep (Checked plainSite) past) ∧
    ∃ past cached, (connectionSystem plainSite).Run past cached ∧
      (past.map Prod.snd).map (fun request => request.call.authorization) =
        [some "Bearer dDBrM24="] ∧
      ¬ EachStep (Checked plainSite) past := by
  refine ⟨⟨_, _, (list_run (listCall "Basic YWxpY2VAYWNtZTpzZWNyZXQ=" (oneUser true false))).extend
    (a := .serve .listOfVm (listCall "Basic YWxpY2VAYWNtZTpzZWNyZXQ=" (oneUser true false))) rfl,
    rfl, ?_⟩, _, _, list_run (listCall "Bearer dDBrM24=" (oneUser false true)), rfl, ?_⟩
  · rintro ⟨hchecked, -⟩
    have hblocked := (hchecked rfl (alice true Option.none) (by decide)).1
    cases hblocked
  · rintro ⟨hchecked, -⟩
    obtain ⟨-, request, hmem, -, -, htenant⟩ := hchecked rfl
      (alice false (some { token := "t0k3n", userId := 5, vmId := Option.none, expiration := 0,
                           multiUse := true })) (by decide)
    obtain rfl := List.mem_singleton.mp hmem
    have hblocked := htenant { id := 2, name := "acme", blocked := true } (by decide) rfl
    cases hblocked

end OneUser

end Qvd.L7rRequests
