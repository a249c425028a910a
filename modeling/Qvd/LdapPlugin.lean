import Qvd.L7rAuthenticator
import Qvd.LdapValues

/-!
The LDAP plugin of the authenticator: the bind with a pattern, the search for the user's entry
and the bind as that entry. What the plugin asks the directory, and whom a success is about.
-/
namespace Qvd.LdapPlugin

open LdapValues LineText

/-- The library: the escape of a value for a distinguished name, and the reading of a filter,
which may refuse its text. -/
structure NetLdap (F : Type*) where
  escapeDnValue : Text → Text
  readFilter : Text → Option F
  escaped : ∀ value, DnValue true (escapeDnValue value) value
  plain : ∀ value, Plain value → escapeDnValue value = value

/-- The settings of a tenant; the regular expression is a predicate on the server's errors. -/
structure Settings where
  host : Text
  userbindpattern : Option Text
  binddn : Option Text
  bindpass : Option Text
  base : Text
  filter : Option Text
  scope : Option Text
  deref : Option Text
  racfAllowregex : Option (Text → Bool)
  normalizeName : Bool
  homeSet : Bool

structure Entry where
  dn : Text
  uidNumber : Option Text
  gidNumber : Option Text
  uid : Option Text
  homeDirectory : Option Text
deriving DecidableEq

structure Query (F : Type*) where
  base : Text
  filter : F
  deref : Text
  scope : Text
deriving DecidableEq

structure BindAnswer where
  code : ℕ
  serverError : Option Text
deriving DecidableEq

structure SearchAnswer where
  code : ℕ
  entries : List Entry
deriving DecidableEq

/-- What has been asked of a directory on a connection, with its answer. A bind without a name
and a password is anonymous. -/
inductive Exchange (F : Type*)
  | bind (as : Option (Text × Text)) (answer : BindAnswer)
  | search (query : Query F) (answer : SearchAnswer)
deriving DecidableEq

/-- A directory answers by what has been asked before. It accepts a bind without a password. -/
structure Directory (F : Type*) where
  connects : Text → Bool
  bind : List (Exchange F) → Option (Text × Text) → BindAnswer
  search : List (Exchange F) → Query F → SearchAnswer
  unauthenticated : ∀ past dn, (bind past (some (dn, []))).code = 0

/-- What a success sets on the authenticator. -/
structure Changes where
  params : List (String × Text)
  normalizedLogin : Option Text
deriving DecidableEq

/-- `s/\%u/.../g`. -/
def fill (value : Text) : Text → Text
  | '%' :: 'u' :: rest => value ++ fill value rest
  | c :: rest => c :: fill value rest
  | [] => []

def ldapInvalidCredentials : ℕ := 49

section Authentication

variable {F : Type*} (net : NetLdap F) (settings : Settings) (directory : Directory F)
  (login password : Text)

def Settings.filterTemplate : Text := settings.filter.getD "(uid=%u)".toList

def Settings.query (filter : F) : Query F where
  base := settings.base
  filter := filter
  deref := settings.deref.getD "never".toList
  scope := settings.scope.getD "base".toList

/-- What is taken from the entry of a user. -/
def entryChanges (racfError : Option Text) (entry : Entry) : Changes where
  params := racfError.toList.map (Prod.mk "qvd.auth.ldap.racf_detailed_error") ++
    entry.uidNumber.toList.map (Prod.mk "qvd.vm.user.uid") ++
    entry.gidNumber.toList.map (Prod.mk "qvd.vm.user.gid") ++
    entry.uid.toList.map (Prod.mk "qvd.vm.user.ldap.name") ++
    entry.homeDirectory.toList.map (Prod.mk "qvd.vm.user.ldap.home") ++
    if settings.homeSet then entry.homeDirectory.toList.map (Prod.mk "qvd.vm.user.home") else []
  normalizedLogin := if settings.normalizeName then entry.uid else none

/-- The bind as the entry that was found. -/
def bindEntry (past : List (Exchange F)) (entry : Entry) :
    Option Changes × List (Exchange F) :=
  let answer := directory.bind past (some (entry.dn, password))
  let past := .bind (some (entry.dn, password)) answer :: past
  if answer.code = 0 then (some (entryChanges settings none entry), past)
  else
    match answer.serverError, settings.racfAllowregex with
    | some serverError, some racfRegex =>
      if answer.code = ldapInvalidCredentials && racfRegex serverError then
        (some (entryChanges settings (some serverError) entry), past)
      else (none, past)
    | _, _ => (none, past)

/-- The search for the entry of the user. -/
def searchUser (past : List (Exchange F)) : Option Changes × List (Exchange F) :=
  match net.readFilter (fill (net.escapeDnValue login) settings.filterTemplate) with
  | none => (none, past)
  | some filter =>
    let answer := directory.search past (settings.query filter)
    let past := .search (settings.query filter) answer :: past
    if answer.code ≠ 0 then (none, past)
    else
      match answer.entries with
      | [entry] => bindEntry settings directory password past entry
      | _ => (none, past)

/-- Who the plugin is when it searches; without a password of its own it uses the user's. -/
def searcher : Option (Text × Text) :=
  settings.binddn.map fun binddn =>
    (fill (net.escapeDnValue login) binddn, settings.bindpass.getD password)

def bindAndSearch (past : List (Exchange F)) : Option Changes × List (Exchange F) :=
  let answer := directory.bind past (searcher net settings login password)
  let past := .bind (searcher net settings login password) answer :: past
  if answer.code ≠ 0 then (none, past)
  else searchUser net settings directory login password past

/-- `authenticate_basic`, with what it has asked the directory, the latest first. -/
def authenticateBasic : Option Changes × List (Exchange F) :=
  if directory.connects settings.host then
    match settings.userbindpattern with
    | none => bindAndSearch net settings directory login password []
    | some userbindpattern =>
      let user := (fill (net.escapeDnValue login) userbindpattern, password)
      let answer := directory.bind [] (some user)
      if answer.code = 0 then
        (some { params := [], normalizedLogin := none }, [.bind (some user) answer])
      else bindAndSearch net settings directory login password [.bind (some user) answer]
  else (none, [])

end Authentication

section Law

variable {F : Type*} (net : NetLdap F) (settings : Settings) (login password : Text)

/-- The bind pattern with the login as one attribute value. -/
def ByPattern (dn : Text) : Prop :=
  ∃ pattern value, settings.userbindpattern = some pattern ∧
    value = net.escapeDnValue login ∧ DnValue true value login ∧ dn = fill value pattern

/-- The only entry for the filter in which the login stands as a value. -/
def ByFilter (log : List (Exchange F)) (dn : Text) : Prop :=
  ∃ filter answer entry,
    net.readFilter (fill (escapeFilter login) settings.filterTemplate) = some filter ∧
    .search (settings.query filter) answer ∈ log ∧ answer.code = 0 ∧
    answer.entries = [entry] ∧ entry.dn = dn

/-- The directory has accepted the password, not an empty one, for the user. -/
structure Named (log : List (Exchange F)) : Prop where
  filled : password ≠ []
  accepted : ∃ dn answer, .bind (some (dn, password)) answer ∈ log ∧ answer.code = 0 ∧
    (ByPattern net settings login dn ∨ ByFilter net settings login log dn)

/-- The filter that is searched for, with the login escaped as in a distinguished name. -/
def searched : Option F :=
  net.readFilter (fill (net.escapeDnValue login) settings.filterTemplate)

/-- The filter in which the login stands as a value. -/
def literal : Option F :=
  net.readFilter (fill (escapeFilter login) settings.filterTemplate)

/-- The bind before the search is the one with the pattern once more. -/
def Repeats : Prop :=
  ∃ pattern, settings.userbindpattern = some pattern ∧
    searcher net settings login password =
      some (fill (net.escapeDnValue login) pattern, password)

/-- The password is not empty, or is never asked for; and the filter with the escaped login is
refused, or is the one in which the login stands as a value, or the user has been accepted
before the search. -/
def Guarded : Prop :=
  (password ≠ [] ∨ settings.userbindpattern = none ∧ searched net settings login = none) ∧
  (searched net settings login = none ∨
    searched net settings login = literal net settings login ∨
    Repeats net settings login password)

/-- A login without syntax or blanks at its ends only needs a password. -/
theorem guarded_of_plain {net : NetLdap F} {settings : Settings} {login password : Text}
    (hlogin : Plain login) (hpassword : password ≠ []) :
    Guarded net settings login password := by
  refine ⟨.inl hpassword, .inr (.inl ?_)⟩
  unfold searched literal
  rw [net.plain login hlogin, hlogin.escapeFilter]

end Law

section Successes

variable {F : Type*} {net : NetLdap F} {settings : Settings} {directory : Directory F}
  {login password : Text} {past log : List (Exchange F)} {entry : Entry} {changes : Changes}

theorem bindEntry_some (hracf : settings.racfAllowregex = none)
    (h : bindEntry settings directory password past entry = (some changes, log)) :
    ∃ answer, answer.code = 0 ∧ log = .bind (some (entry.dn, password)) answer :: past := by
  unfold bindEntry at h
  dsimp only at h
  split at h
  · rename_i hcode
    exact ⟨_, hcode, (Prod.mk.inj h).2.symm⟩
  · rw [hracf] at h
    split at h
    · rename_i hregex
      cases hregex
    · cases (Prod.mk.inj h).1

/-- A success after the search: the bind before it, the search, and the bind as the only entry
it has found. -/
structure BySearch (net : NetLdap F) (settings : Settings) (login password : Text)
    (past log : List (Exchange F)) : Prop where
  exchanges : ∃ filter first answer entry last, searched net settings login = some filter ∧
    first.code = 0 ∧ answer.code = 0 ∧ answer.entries = [entry] ∧ last.code = 0 ∧
    log = .bind (some (entry.dn, password)) last :: .search (settings.query filter) answer ::
      .bind (searcher net settings login password) first :: past

theorem bindAndSearch_some (hracf : settings.racfAllowregex = none)
    (h : bindAndSearch net settings directory login password past = (some changes, log)) :
    BySearch net settings login password past log := by
  unfold bindAndSearch at h
  dsimp only at h
  split at h
  · cases (Prod.mk.inj h).1
  · rename_i hfirst
    unfold searchUser at h
    split at h
    · cases (Prod.mk.inj h).1
    · rename_i filter hfilter
      dsimp only at h
      split at h
      · cases (Prod.mk.inj h).1
      · rename_i hanswer
        split at h
        · rename_i entry hentries
          obtain ⟨last, hlast, rfl⟩ := bindEntry_some hracf h
          exact ⟨filter, _, _, entry, last, hfilter, not_not.mp hfirst, not_not.mp hanswer,
            hentries, hlast, rfl⟩
        · cases (Prod.mk.inj h).1

/-- A success is one of the bind with the pattern, or one after the search. -/
theorem authenticateBasic_some (hracf : settings.racfAllowregex = none)
    (h : authenticateBasic net settings directory login password = (some changes, log)) :
    (∃ pattern answer, settings.userbindpattern = some pattern ∧ answer.code = 0 ∧
      log = [.bind (some (fill (net.escapeDnValue login) pattern, password)) answer]) ∨
    ∃ past, BySearch net settings login password past log := by
  unfold authenticateBasic at h
  split at h
  · split at h
    · exact Or.inr ⟨_, bindAndSearch_some hracf h⟩
    · rename_i pattern hpattern
      dsimp only at h
      split at h
      · rename_i hcode
        exact Or.inl ⟨pattern, _, hpattern, hcode, (Prod.mk.inj h).2.symm⟩
      · exact Or.inr ⟨_, bindAndSearch_some hracf h⟩
  · cases (Prod.mk.inj h).1

theorem byPattern {pattern : Text} (hpattern : settings.userbindpattern = some pattern) :
    ByPattern net settings login (fill (net.escapeDnValue login) pattern) :=
  ⟨pattern, _, hpattern, rfl, net.escaped login, rfl⟩

theorem named_of_guarded (hracf : settings.racfAllowregex = none)
    (hguarded : Guarded net settings login password)
    (h : authenticateBasic net settings directory login password = (some changes, log)) :
    Named net settings login password log := by
  obtain ⟨hfilled, hfilter⟩ := hguarded
  rcases authenticateBasic_some hracf h with ⟨pattern, answer, hpattern, hcode, rfl⟩ | ⟨past, hby⟩
  · constructor
    · rcases hfilled with hfilled | ⟨hnone, -⟩
      · exact hfilled
      · cases hnone.symm.trans hpattern
    · exact ⟨_, answer, List.mem_singleton_self _, hcode, Or.inl (byPattern hpattern)⟩
  · obtain ⟨filter, first, answer, entry, last, hsearched, hfirst, hanswer, hentries, hlast,
      rfl⟩ := hby
    constructor
    · rcases hfilled with hfilled | ⟨-, hrefused⟩
      · exact hfilled
      · cases hrefused.symm.trans hsearched
    · rcases hfilter with hrefused | hsame | ⟨pattern, hpattern, hagain⟩
      · cases hrefused.symm.trans hsearched
      · refine ⟨entry.dn, last, List.mem_cons_self, hlast, Or.inr ?_⟩
        exact ⟨filter, answer, entry, hsame.symm.trans hsearched,
          List.mem_cons_of_mem _ List.mem_cons_self, hanswer, hentries, rfl⟩
      · refine ⟨_, first, ?_, hfirst, Or.inl (byPattern hpattern)⟩
        rw [← hagain]
        exact List.mem_cons_of_mem _ (List.mem_cons_of_mem _ List.mem_cons_self)

end Successes

section Obliging

variable {F : Type*} {net : NetLdap F} {settings : Settings} {login password : Text}

def accepting : BindAnswer where
  code := 0
  serverError := none

def refusing : BindAnswer where
  code := ldapInvalidCredentials
  serverError := none

@[simp] theorem accepting_code : accepting.code = 0 := rfl

/-- The directory that finds one entry for any filter, and refuses at most one user, who has a
password. -/
def obliging (refused : Option (Text × Text)) (entry : Entry) : Directory F where
  connects _ := true
  bind _ as := if refused.any (fun user => as = some user && user.2 ≠ []) then refusing
    else accepting
  search _ _ := { code := 0, entries := [entry] }
  unauthenticated := by
    intro past dn
    rw [if_neg]
    · rfl
    · cases refused with
      | none => simp
      | some user =>
        rw [Option.any_some]
        intro h
        simp only [Option.some.injEq, ne_eq, decide_not, Bool.and_eq_true, decide_eq_true_eq,
          Bool.not_eq_eq_eq_not, Bool.not_true, decide_eq_false_iff_not] at h
        exact h.2 (congrArg Prod.snd h.1).symm

@[simp] theorem obliging_connects (refused : Option (Text × Text)) (entry : Entry) (host : Text) :
    (obliging (F := F) refused entry).connects host = true := rfl

@[simp] theorem obliging_search (refused : Option (Text × Text)) (entry : Entry)
    (past : List (Exchange F)) (query : Query F) :
    (obliging refused entry).search past query = { code := 0, entries := [entry] } := rfl

theorem obliging_accepts {refused as : Option (Text × Text)} {entry : Entry}
    {past : List (Exchange F)} (h : ∀ user, refused = some user → as ≠ some user) :
    (obliging refused entry).bind past as = accepting := by
  refine if_neg ?_
  cases refused with
  | none => simp
  | some user => simp [h user rfl]

theorem obliging_refuses {user : Text × Text} {entry : Entry} {past : List (Exchange F)}
    (h : user.2 ≠ []) : (obliging (some user) entry).bind past (some user) = refusing :=
  if_pos (by simpa using h)

/-- The user of the bind with the pattern. -/
def patternUser (net : NetLdap F) (settings : Settings) (login password : Text) :
    Option (Text × Text) :=
  settings.userbindpattern.map fun pattern => (fill (net.escapeDnValue login) pattern, password)

/-- An entry whose name is not the one of the pattern. -/
def otherEntry (net : NetLdap F) (settings : Settings) (login : Text) : Entry where
  dn := 'x' :: (settings.userbindpattern.map (fill (net.escapeDnValue login))).getD []
  uidNumber := none
  gidNumber := none
  uid := none
  homeDirectory := none

theorem otherEntry_ne {user : Text × Text}
    (h : patternUser net settings login password = some user) :
    (otherEntry net settings login).dn ≠ user.1 := by
  obtain ⟨pattern, hpattern, rfl⟩ := Option.map_eq_some_iff.mp h
  intro hsame
  have hlength := congrArg List.length hsame
  simp [otherEntry, hpattern] at hlength

theorem searcher_ne (hrepeats : ¬Repeats net settings login password) {user : Text × Text}
    (h : patternUser net settings login password = some user) :
    searcher net settings login password ≠ some user := by
  obtain ⟨pattern, hpattern, rfl⟩ := Option.map_eq_some_iff.mp h
  exact fun hagain => hrepeats ⟨pattern, hpattern, hagain⟩

/-- What is asked of the obliging directory, after the bind with the pattern. -/
def obligingLog (net : NetLdap F) (settings : Settings) (login password : Text) (filter : F)
    (past : List (Exchange F)) : List (Exchange F) :=
  .bind (some ((otherEntry net settings login).dn, password)) accepting ::
    .search (settings.query filter) { code := 0, entries := [otherEntry net settings login] } ::
    .bind (searcher net settings login password) accepting :: past

theorem bindAndSearch_obliging {filter : F} {past : List (Exchange F)}
    (hsearched : searched net settings login = some filter)
    (hrepeats : ¬Repeats net settings login password) :
    bindAndSearch net settings (obliging (patternUser net settings login password)
        (otherEntry net settings login)) login password past =
      (some (entryChanges settings none (otherEntry net settings login)),
        obligingLog net settings login password filter past) := by
  have hother : ∀ user, patternUser net settings login password = some user →
      some ((otherEntry net settings login).dn, password) ≠ some user := by
    intro user huser hsame
    refine otherEntry_ne huser ?_
    rw [← Option.some.inj hsame]
  unfold searched at hsearched
  simp only [bindAndSearch, searchUser, bindEntry, hsearched, obliging_search, ne_eq, not_true,
    obliging_accepts (fun _ => searcher_ne hrepeats), obliging_accepts hother, accepting_code,
    if_true, if_false, obligingLog]

/-- The obliging directory lets the user of its entry in. -/
theorem authenticateBasic_obliging {filter : F}
    (hsearched : searched net settings login = some filter)
    (hrepeats : ¬Repeats net settings login password)
    (hpassword : password ≠ [] ∨ settings.userbindpattern = none) :
    ∃ past, authenticateBasic net settings (obliging (patternUser net settings login password)
        (otherEntry net settings login)) login password =
      (some (entryChanges settings none (otherEntry net settings login)),
        obligingLog net settings login password filter past) ∧
      ∀ e ∈ past, ∃ user, e = .bind user refusing := by
  unfold authenticateBasic
  rw [if_pos (obliging_connects _ _ _)]
  cases hpattern : settings.userbindpattern with
  | none => exact ⟨[], bindAndSearch_obliging hsearched hrepeats, by simp⟩
  | some pattern =>
    have hfilled : password ≠ [] := hpassword.resolve_right (by simp [hpattern])
    have huser : patternUser net settings login password =
        some (fill (net.escapeDnValue login) pattern, password) := by
      rw [patternUser, hpattern]
      rfl
    have hrefused : (obliging (F := F) (patternUser net settings login password)
        (otherEntry net settings login)).bind []
          (some (fill (net.escapeDnValue login) pattern, password)) = refusing := by
      rw [huser]
      exact obliging_refuses hfilled
    dsimp only
    rw [hrefused, if_neg (by decide)]
    refine ⟨_, bindAndSearch_obliging hsearched hrepeats, ?_⟩
    exact List.forall_mem_singleton.mpr ⟨_, rfl⟩

theorem guarded_of_named
    (h : ∀ (directory : Directory F) changes log,
      authenticateBasic net settings directory login password = (some changes, log) →
        Named net settings login password log) :
    Guarded net settings login password := by
  have hfilled : password ≠ [] ∨
      settings.userbindpattern = none ∧ searched net settings login = none := by
    by_contra hnot
    rw [not_or, not_not] at hnot
    obtain ⟨hempty, hasked⟩ := hnot
    cases hpattern : settings.userbindpattern with
    | some pattern =>
      have hrun : authenticateBasic net settings
          (obliging none (otherEntry net settings login)) login password =
            (some { params := [], normalizedLogin := none },
              [.bind (some (fill (net.escapeDnValue login) pattern, password)) accepting]) := by
        unfold authenticateBasic
        rw [if_pos (obliging_connects _ _ _), hpattern]
        dsimp only
        rw [obliging_accepts (by simp), if_pos accepting_code]
      exact (h _ _ _ hrun).filled hempty
    | none =>
      cases hsearched : searched net settings login with
      | none => exact hasked ⟨hpattern, hsearched⟩
      | some filter =>
        have hrepeats : ¬Repeats net settings login password := by
          rintro ⟨pattern, hsome, -⟩
          cases hpattern.symm.trans hsome
        obtain ⟨past, hrun, -⟩ := authenticateBasic_obliging hsearched hrepeats (.inr hpattern)
        exact (h _ _ _ hrun).filled hempty
  refine ⟨hfilled, ?_⟩
  by_contra hnot
  rw [not_or, not_or] at hnot
  obtain ⟨hasked, hdiffers, hrepeats⟩ := hnot
  obtain ⟨filter, hsearched⟩ := Option.ne_none_iff_exists'.mp hasked
  have hpassword : password ≠ [] := hfilled.resolve_right fun hboth => hasked hboth.2
  obtain ⟨past, hrun, hpast⟩ := authenticateBasic_obliging hsearched hrepeats (.inl hpassword)
  obtain ⟨dn, answer, hbind, hcode, hby⟩ := (h _ _ _ hrun).accepted
  rcases hby with ⟨pattern, value, hpattern, rfl, -, rfl⟩ | hfilter
  · -- The pattern's user is neither the entry nor the searcher, and was refused before.
    have huser : patternUser net settings login password =
        some (fill (net.escapeDnValue login) pattern, password) := by
      rw [patternUser, hpattern]
      rfl
    rcases List.mem_cons.mp hbind with hentry | hbind
    · refine otherEntry_ne huser ?_
      injection hentry with hentry
      injection hentry with hentry
      exact (Prod.mk.inj hentry).1.symm
    · rcases List.mem_cons.mp hbind with hsearch | hbind
      · cases hsearch
      · rcases List.mem_cons.mp hbind with hsearcher | hbind
        · injection hsearcher with hsearcher
          exact searcher_ne hrepeats huser hsearcher.symm
        · obtain ⟨user, hrefused⟩ := hpast _ hbind
          injection hrefused with _ hrefused
          rw [hrefused] at hcode
          cases hcode
  · obtain ⟨other, answer', entry, hliteral, hsearch, -, -, -⟩ := hfilter
    refine hdiffers ?_
    rcases List.mem_cons.mp hsearch with hbind | hsearch
    · cases hbind
    · rcases List.mem_cons.mp hsearch with hsame | hsearch
      · injection hsame with hsame
        injection hsame with _ hsame
        rw [hsearched, ← hsame]
        exact hliteral.symm
      · rcases List.mem_cons.mp hsearch with hbind | hsearch
        · cases hbind
        · obtain ⟨user, hbind⟩ := hpast _ hsearch
          cases hbind

end Obliging

/-- A success is the user's own with every directory exactly if the login and the password are
guarded against. -/
theorem named_iff {F : Type*} (net : NetLdap F) (settings : Settings)
    (hracf : settings.racfAllowregex = none) (login password : Text) :
    (∀ (directory : Directory F) changes log,
      authenticateBasic net settings directory login password = (some changes, log) →
        Named net settings login password log) ↔
      Guarded net settings login password :=
  ⟨guarded_of_named, fun hguarded _ _ _ h => named_of_guarded hracf hguarded h⟩

/-- The plugin, as the authenticator calls it. -/
def plugin {F : Type*} (net : NetLdap F) (settings : L7rAuthenticator.TenantId → Settings)
    (directory : Directory F) : L7rAuthenticator.Plugin :=
  { L7rAuthenticator.Plugin.base with
    authenticateBasic := fun auth _ login passwd =>
      (authenticateBasic net (settings (auth.tenantId.getD 0)) directory login.toList
        passwd.toList).1.map fun changes =>
          (changes.normalizedLogin.map String.ofList).getD login }

/-- Whom the plugin lets in has given a password that the directory accepts for the login. -/
theorem plugin_named {F : Type*} {net : NetLdap F}
    {settings : L7rAuthenticator.TenantId → Settings} {directory : Directory F}
    {auth : L7rAuthenticator.Authenticator} {db : L7rAuthenticator.Db}
    {login passwd normalized : String}
    (hracf : (settings (auth.tenantId.getD 0)).racfAllowregex = none)
    (hguarded : Guarded net (settings (auth.tenantId.getD 0)) login.toList passwd.toList)
    (h : (plugin net settings directory).authenticateBasic auth db login passwd =
      some normalized) :
    ∃ log, Named net (settings (auth.tenantId.getD 0)) login.toList passwd.toList log := by
  obtain ⟨changes, hchanges, -⟩ := Option.map_eq_some_iff.mp h
  exact ⟨_, named_of_guarded hracf hguarded (Prod.ext hchanges rfl)⟩

section Root

/-- A filter with one assertion. -/
inductive Item
  | present (name : Text)
  | equality (name value : Text)
deriving DecidableEq

/-- The value of an assertion, with its escapes read. -/
def readValue : Text → Option Text
  | '\\' :: h :: l :: rest =>
    match UriText.hexValue h, UriText.hexValue l with
    | some m, some n => (readValue rest).map (Char.ofNat (16 * m + n) :: ·)
    | _, _ => none
  | c :: rest => if c ∈ filterSpecial then none else (readValue rest).map (c :: ·)
  | [] => some []

def readItem (text : Text) : Option Item :=
  let inner := text.tail.dropLast
  let name := inner.takeWhile (· ≠ '=')
  let value := inner.drop (name.length + 1)
  if value = ['*'] then some (.present name)
  else (readValue value).map (.equality name)

def netLdap : NetLdap Item where
  escapeDnValue := escapeDn
  readFilter := readItem
  escaped := escapeDn_stands
  plain _ h := h.escapeDn

def people : Settings where
  host := "ds.example.com".toList
  userbindpattern := none
  binddn := none
  bindpass := none
  base := "ou=People,dc=example,dc=com".toList
  filter := none
  scope := some "one".toList
  deref := none
  racfAllowregex := none
  normalizeName := false
  homeSet := false

def root : Entry where
  dn := "uid=root,ou=People,dc=example,dc=com".toList
  uidNumber := none
  gidNumber := none
  uid := some "root".toList
  homeDirectory := none

/-- A directory of one person. -/
def directory : Directory Item where
  connects _ := true
  bind _ as := if as.all (fun user => user.2 = [] || user = (root.dn, "r00t".toList)) then accepting
    else refusing
  search _ query := {
    code := 0
    entries := if query.filter = .present "uid".toList ∨
      query.filter = .equality "uid".toList "root".toList then [root] else [] }
  unauthenticated := by simp

theorem guarded_root : Guarded netLdap people "root".toList "r00t".toList :=
  ⟨.inl (by decide), .inr (.inl (by decide))⟩

theorem named_iff_root : people.racfAllowregex = none ∧
    ∀ (directory : Directory Item) changes log,
      authenticateBasic netLdap people directory "root".toList "r00t".toList =
          (some changes, log) →
        Named netLdap people "root".toList "r00t".toList log :=
  ⟨rfl, (named_iff netLdap people rfl "root".toList "r00t".toList).mpr guarded_root⟩

/-- An asterisk is any user to the directory, and an empty password is any user's. -/
theorem asterisk_lets_in :
    (∃ changes log, authenticateBasic netLdap people directory "*".toList "r00t".toList =
        (some changes, log) ∧ ¬Named netLdap people "*".toList "r00t".toList log) ∧
    ∃ changes log, authenticateBasic netLdap people directory "root".toList [] =
        (some changes, log) ∧ ¬Named netLdap people "root".toList [] log := by
  refine ⟨⟨_, _, rfl, ?_⟩, _, _, rfl, ?_⟩
  · rintro ⟨-, dn, answer, -, -, hpattern | hfilter⟩
    · obtain ⟨pattern, -, hnone, -⟩ := hpattern
      cases hnone
    · obtain ⟨filter, found, entry, hliteral, hsearch, -⟩ := hfilter
      obtain rfl : filter = .equality "uid".toList "*".toList :=
        (Option.some.inj hliteral).symm
      rcases List.mem_cons.mp hsearch with hbind | hsearch
      · cases hbind
      · rcases List.mem_cons.mp hsearch with hpresent | hsearch
        · injection hpresent with hpresent
          injection hpresent with _ hpresent
          cases hpresent
        · cases List.mem_singleton.mp hsearch
  · intro hnamed
    exact hnamed.filled rfl

end Root

end Qvd.LdapPlugin
