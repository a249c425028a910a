import Mathlib
import Qvd.LdapPlugin

/-!
Logins that differ in the case of their letters and in the blanks around their parts. When the
authenticator takes them for the same.
-/
namespace Qvd.LoginNames

open L7rAuthenticator

/-- The API's `normalize_name`, by which the names of tenants and users are stored. -/
def normalizeName (caseSensitive : Bool) (name : String) : String :=
  if caseSensitive then trim name else (trim name).toLower

/-- Logins are not case sensitive, neither by the settings of all nor by those of a tenant. -/
def Off (site : Site) : Prop := ∀ tenantId, site.caseSensitive tenantId = false

/-- The names in the tables are as the API stores them. -/
structure Stored (db : Db) : Prop where
  tenants : ∀ tenant ∈ db.tenants, ∃ name, tenant.name = normalizeName false name
  users : ∀ user ∈ db.users, ∃ login, user.login = normalizeName false login

/-- A plugin that does not look at the login as it was given. -/
structure Blind (plugin : Plugin) : Prop where
  split : ∀ auth login passwd, plugin.authenticateBasic2fSplit { auth with login := login } passwd =
    plugin.authenticateBasic2fSplit auth passwd
  basic : ∀ auth login db name passwd,
    plugin.authenticateBasic { auth with login := login } db name passwd =
      plugin.authenticateBasic auth db name passwd
  second : ∀ auth login db name token,
    plugin.authenticateBasic2f { auth with login := login } db name token =
      plugin.authenticateBasic2f auth db name token
  after : ∀ auth login name db,
    plugin.afterAuthenticateBasic { auth with login := login } name db =
      plugin.afterAuthenticateBasic auth name db

/-- What the caller learns of a basic authentication: the tenant and the row of the user. -/
def result (site : Site) (db : Db) (login passwd : String) : Option (Option TenantId × User) :=
  (authenticateBasic site db login passwd).1.map fun auth => (auth.tenantId, auth.user)

/-- A login whose parts, as the plugins split them, differ from those of another in case and in
blanks around them. -/
structure Varied (findTenant : String → Option (String × String))
    (login login' tenant tenant' : String) : Prop where
  parts : ∃ name name', findTenant login = some (tenant, name) ∧
    findTenant login' = some (tenant', name') ∧
    normalizeName false name = normalizeName false name'
  tenants : normalizeName false tenant = normalizeName false tenant'

section Names

/-- A character is one of the capital letters, or is its own lower case. -/
theorem toLower_cases (c : Char) :
    (∃ n ∈ List.range 26, c = Char.ofNat (65 + n)) ∨ c.toLower = c := by
  by_cases hupper : c.val ≥ 'A'.val ∧ c.val ≤ 'Z'.val
  · left
    have hlow : 65 ≤ c.toNat := UInt32.le_iff_toNat_le.mp hupper.1
    have hhigh : c.toNat ≤ 90 := UInt32.le_iff_toNat_le.mp hupper.2
    refine ⟨c.toNat - 65, List.mem_range.mpr (by omega), ?_⟩
    rw [Nat.add_sub_cancel' hlow, Char.ofNat_toNat]
  · right
    exact dif_neg hupper

theorem isSpace_toLower (c : Char) : isSpace c.toLower = isSpace c := by
  have hletters : ∀ n ∈ List.range 26,
      isSpace (Char.ofNat (65 + n)).toLower = isSpace (Char.ofNat (65 + n)) := by decide
  rcases toLower_cases c with ⟨n, hn, rfl⟩ | hsame
  · exact hletters n hn
  · rw [hsame]

theorem char_toLower_toLower (c : Char) : c.toLower.toLower = c.toLower := by
  have hletters : ∀ n ∈ List.range 26,
      (Char.ofNat (65 + n)).toLower.toLower = (Char.ofNat (65 + n)).toLower := by decide
  rcases toLower_cases c with ⟨n, hn, rfl⟩ | hsame
  · exact hletters n hn
  · rw [hsame, hsame]

theorem toList_trim (name : String) :
    (trim name).toList = (name.toList.dropWhile isSpace).rdropWhile isSpace := by
  rw [trim, String.toList_ofList]
  rfl

theorem dropWhile_rdropWhile {α : Type*} (p : α → Bool) (l : List α) :
    ((l.dropWhile p).rdropWhile p).dropWhile p = (l.dropWhile p).rdropWhile p := by
  rw [List.dropWhile_eq_self_iff]
  intro hlength
  have hinitial := List.rdropWhile_prefix p (l := l.dropWhile p)
  have hne : 0 < (l.dropWhile p).length := lt_of_lt_of_le hlength hinitial.length_le
  have hhead := List.dropWhile_eq_self_iff.mp (List.dropWhile_idempotent p (l := l)) hne
  rwa [hinitial.getElem hlength]

theorem trim_trim (name : String) : trim (trim name) = trim name := by
  rw [← String.toList_inj]
  rw [toList_trim, toList_trim, dropWhile_rdropWhile, List.rdropWhile_idempotent]

theorem trim_toLower (name : String) : trim name.toLower = (trim name).toLower := by
  have hcomp : isSpace ∘ Char.toLower = isSpace := funext isSpace_toLower
  rw [← String.toList_inj]
  simp only [toList_trim, String.toLower, String.toList_map, List.rdropWhile, List.dropWhile_map,
    ← List.map_reverse, hcomp]

theorem toLower_toLower (name : String) : name.toLower.toLower = name.toLower := by
  rw [← String.toList_inj]
  simp only [String.toLower, String.toList_map, List.map_map, Function.comp_def,
    char_toLower_toLower]

theorem normalizeName_eq (name : String) :
    normalizeName false name = String.ofList ((trim name).toList.map Char.toLower) := by
  rw [normalizeName, if_neg Bool.false_ne_true, ← String.toList_inj, String.toList_ofList]
  exact String.toList_map

/-- A name that is stored is its own normal form. -/
theorem normalizeName_normalizeName (name : String) :
    normalizeName false (normalizeName false name) = normalizeName false name := by
  simp only [normalizeName, Bool.false_eq_true, if_false, trim_toLower, trim_trim,
    toLower_toLower]

theorem normalize_congr {hooks : List (Option String → Option String)} {name name' : String}
    (h : normalizeName false name = normalizeName false name') :
    normalize false hooks name = normalize false hooks name' := by
  simp only [normalizeName, Bool.false_eq_true, if_false] at h
  simp only [L7rAuthenticator.normalize, Bool.false_eq_true, if_false, trim_toLower, h]

end Names

section Plugins

theorem blind_base : Blind Plugin.base :=
  ⟨fun _ _ _ => rfl, fun _ _ _ _ _ => rfl, fun _ _ _ _ _ => rfl, fun _ _ _ _ => rfl⟩

theorem blind_default (settings : DefaultSettings) : Blind (Plugin.default settings) :=
  ⟨fun _ _ _ => rfl, fun _ _ _ _ _ => rfl, fun _ _ _ _ _ => rfl, fun _ _ _ _ => rfl⟩

theorem blind_vmPool (dummyUserId : UserId) : Blind (Plugin.vmPool dummyUserId) :=
  ⟨fun _ _ _ => rfl, fun _ _ _ _ _ => rfl, fun _ _ _ _ _ => rfl, fun _ _ _ _ => rfl⟩

theorem blind_ldap {F : Type*} (net : LdapPlugin.NetLdap F)
    (settings : TenantId → LdapPlugin.Settings) (directory : LdapPlugin.Directory F) :
    Blind (LdapPlugin.plugin net settings directory) :=
  ⟨fun _ _ _ => rfl, fun _ _ _ _ _ => rfl, fun _ _ _ _ _ => rfl, fun _ _ _ _ => rfl⟩

/-- The default plugin splits a login at the first separator, whatever the case and the blanks
before it. -/
theorem default_findTenant {settings : DefaultSettings} {name tenant : List Char}
    {separator : Char} (hseparator : settings.isSeparator separator = true)
    (hname : ∀ c ∈ name, settings.isSeparator c = false) :
    Default.findTenant settings (String.ofList (name ++ separator :: tenant)) =
      some (String.ofList tenant, String.ofList name) := by
  have hhead : (name ++ separator :: tenant).takeWhile (fun c => !settings.isSeparator c) =
      name := by
    rw [List.takeWhile_append_of_pos (fun c hc => by simp [hname c hc]),
      List.takeWhile_cons_of_neg (by simp [hseparator]), List.append_nil]
  unfold Default.findTenant
  simp only [String.toList_ofList, hhead, List.drop_left]

end Plugins

section Blind

variable {site : Site} {db : Db} {passwd : String}

theorem afterAuthenticateBasic_blind {plugins : List Plugin}
    (hblind : ∀ plugin ∈ plugins, Blind plugin) (auth : Authenticator) (login : Option String)
    (name : String) (db : Db) :
    afterAuthenticateBasic plugins { auth with login := login } name db =
      afterAuthenticateBasic plugins auth name db := by
  unfold afterAuthenticateBasic
  induction plugins generalizing db with
  | nil => rfl
  | cons plugin rest ih =>
    obtain ⟨hplugin, hrest⟩ := List.forall_mem_cons.mp hblind
    rw [List.foldl_cons, List.foldl_cons, hplugin.after]
    exact ih hrest _

theorem secondFactorOk_blind {plugins : List Plugin}
    (hblind : ∀ plugin ∈ plugins, Blind plugin) (auth : Authenticator) (login : Option String)
    (db : Db) (name : String) (token : Option String) :
    secondFactorOk plugins { auth with login := login } db name token =
      secondFactorOk plugins auth db name token := by
  cases token with
  | none => rfl
  | some token =>
    unfold secondFactorOk
    rw [Bool.eq_iff_iff, List.any_eq_true, List.any_eq_true]
    refine exists_congr fun plugin => and_congr_right fun hmem => ?_
    rw [(hblind plugin hmem).second]

theorem split_blind {plugins : List Plugin} (hblind : ∀ plugin ∈ plugins, Blind plugin)
    (auth : Authenticator) (login : Option String) (passwd : String) :
    authenticateBasic2fSplit plugins { auth with login := login } passwd =
      authenticateBasic2fSplit plugins auth passwd := by
  unfold authenticateBasic2fSplit
  induction plugins with
  | nil => rfl
  | cons plugin rest ih =>
    obtain ⟨hplugin, hrest⟩ := List.forall_mem_cons.mp hblind
    rw [List.findSome?_cons, List.findSome?_cons, hplugin.split]
    cases plugin.authenticateBasic2fSplit auth passwd with
    | some parts => rfl
    | none => exact ih hrest

def outcome (auth : Authenticated) : Option TenantId × User := (auth.tenantId, auth.user)

/-- The loop over plugins that do not look at the given login ends with the same user. -/
theorem tryPlugins_blind {all : List Plugin} (hall : ∀ plugin ∈ all, Blind plugin)
    (tenantId : TenantId) (token login : Option String) (plugins : List Plugin)
    (hplugins : ∀ plugin ∈ plugins, Blind plugin) (auth : Authenticator) (name : String)
    (db : Db) :
    (tryPlugins all tenantId passwd token plugins { auth with login := login } name db).1.map
        outcome =
      (tryPlugins all tenantId passwd token plugins auth name db).1.map outcome := by
  induction plugins generalizing auth name db with
  | nil => rfl
  | cons plugin rest ih =>
    obtain ⟨hplugin, hrest⟩ := List.forall_mem_cons.mp hplugins
    unfold tryPlugins
    rw [hplugin.basic]
    cases plugin.authenticateBasic auth db name passwd with
    | none => exact ih hrest auth name db
    | some normalized =>
      have hsecond := secondFactorOk_blind hall
        { auth with normalizedLogin := some normalized } login db normalized token
      have hafter := afterAuthenticateBasic_blind hall
        { auth with normalizedLogin := some normalized } login normalized db
      dsimp only at hsecond hafter ⊢
      rw [hsecond, hafter]
      split
      · split
        · rfl
        · exact ih hrest { auth with normalizedLogin := some normalized } normalized _
      · rfl

theorem authenticateAtTenant_same
    (hoff : Off site) (hblind : ∀ tenantId, ∀ plugin ∈ site.plugins tenantId, Blind plugin)
    {login login' name name' : String}
    (hname : normalizeName false name = normalizeName false name') (tenantId : TenantId) :
    (authenticateAtTenant site db login passwd name tenantId).1.map outcome =
      (authenticateAtTenant site db login' passwd name' tenantId).1.map outcome := by
  unfold authenticateAtTenant
  dsimp only [Site.pluginsOf, Option.getD_some]
  rw [hoff 1, normalize_congr hname]
  cases normalize false ((site.plugins tenantId).map Plugin.normalizeLogin) name' with
  | none => rfl
  | some normalized =>
    dsimp only
    have hsplit := split_blind (hblind tenantId)
      { Authenticator.new with
        login := some login', passwd := some passwd, tenantId := some tenantId
        normalizedLogin := some normalized } (some login) passwd
    dsimp only at hsplit
    rw [hsplit]
    exact tryPlugins_blind (hblind tenantId) tenantId _ (some login) _ (hblind tenantId)
      { Authenticator.new with
        login := some login', passwd := some passwd, tenantId := some tenantId
        normalizedLogin := some normalized } normalized db

theorem validateTenant_of_not_normal (hstored : Stored db) {tenant : String}
    (h : tenant ≠ normalizeName false tenant) : validateTenant db tenant = none := by
  have hnone : db.tenants.find? (fun row => row.name = tenant) = none := by
    rw [List.find?_eq_none]
    intro row hmem hname
    obtain ⟨raw, hraw⟩ := hstored.tenants row hmem
    refine h ?_
    rw [← of_decide_eq_true hname, hraw, normalizeName_normalizeName]
  unfold validateTenant
  rw [hnone]

end Blind

/-- The tenant part is looked up as it was given: it is the same in both logins, or is not what
a tenant is stored by in either. -/
def SameLookup (tenant tenant' : String) : Prop :=
  tenant = tenant' ∨
    tenant ≠ normalizeName false tenant ∧ tenant' ≠ normalizeName false tenant'

section Lookups

variable {login login' tenant tenant' : String}

theorem result_same {site : Site} {db : Db} (hoff : Off site)
    (hblind : ∀ tenantId, ∀ plugin ∈ site.plugins tenantId, Blind plugin)
    (hvaried : Varied (findTenant (site.plugins 0)) login login' tenant tenant')
    (hstored : Stored db) (hsame : SameLookup tenant tenant') (passwd : String) :
    result site db login passwd = result site db login' passwd := by
  obtain ⟨⟨name, name', hfind, hfind', hname⟩, htenants⟩ := hvaried
  have hplugins : site.pluginsOf Authenticator.new = site.plugins 0 := rfl
  unfold result authenticateBasic
  dsimp only
  rw [hplugins, hfind, hfind', hoff 0]
  dsimp only
  rw [normalize_congr htenants]
  cases normalize false ((site.plugins 0).map Plugin.normalizeTenant) tenant' with
  | none => rfl
  | some _ =>
    dsimp only
    rcases hsame with rfl | ⟨hnot, hnot'⟩
    · cases validateTenant db tenant with
      | none => rfl
      | some tenantId => exact authenticateAtTenant_same hoff hblind hname tenantId
    · rw [validateTenant_of_not_normal hstored hnot, validateTenant_of_not_normal hstored hnot']

/-- The default plugin alone, with a given way to split logins and passwords as they are. -/
def openSite (findTenant : String → Option (String × String)) : Site where
  plugins _ := [{ Plugin.default { separators := [], tenant := none, digest := id } with
    findTenant := findTenant }]
  caseSensitive _ := false
  decodeBase64 := id

/-- One tenant with one user. -/
def oneUser (tenant name : String) : Db where
  tenants := [{ id := 2, name := tenant, blocked := false }]
  users := [{ id := 5, login := name, password := "secret", tenantId := 2, blocked := false }]
  userTokens := []
  tenants_nodup := by simp
  users_nodup := by simp
  userTokens_nodup := List.nodup_nil

theorem openSite_findTenant (findTenant : String → Option (String × String)) :
    L7rAuthenticator.findTenant ((openSite findTenant).plugins 0) = findTenant := by
  funext login
  simp only [openSite, L7rAuthenticator.findTenant, List.findSome?_cons, List.findSome?_nil]
  cases findTenant login with
  | none => rfl
  | some parts => rfl

theorem oneUser_stored (name : String) (htenant : tenant = normalizeName false tenant) :
    Stored (oneUser tenant (normalizeName false name)) :=
  ⟨List.forall_mem_singleton.mpr ⟨_, htenant⟩, List.forall_mem_singleton.mpr ⟨name, rfl⟩⟩

theorem openSite_blind (findTenant : String → Option (String × String)) (tenantId : TenantId) :
    ∀ plugin ∈ (openSite findTenant).plugins tenantId, Blind plugin :=
  List.forall_mem_singleton.mpr
    ⟨fun _ _ _ => rfl, fun _ _ _ _ _ => rfl, fun _ _ _ _ _ => rfl, fun _ _ _ _ => rfl⟩

/-- The user gets in with the name of the tenant as it is stored. -/
theorem openSite_accepts {findTenant : String → Option (String × String)} {name : String}
    (hfind : findTenant login = some (tenant, name)) :
    (result (openSite findTenant) (oneUser tenant (normalizeName false name)) login
      "secret").isSome = true := by
  have hnormal : normalizeName false name = trim name.toLower := by
    rw [trim_toLower]
    rfl
  simp [result, authenticateBasic, Site.pluginsOf, openSite, L7rAuthenticator.findTenant, hfind,
    L7rAuthenticator.normalize, validateTenant, oneUser, authenticateAtTenant, authenticateBasic2fSplit,
    Plugin.default, Plugin.base, tryPlugins, Default.authenticateBasic, secondFactorOk,
    afterAuthenticateBasic, findUser, Authenticator.new, hnormal]

/-- No other text is taken for the tenant. -/
theorem openSite_refuses {findTenant : String → Option (String × String)} {name stored : String}
    (hfind : findTenant login' = some (tenant', name)) (hne : tenant ≠ tenant') :
    result (openSite findTenant) (oneUser tenant stored) login' "secret" = none := by
  simp [result, authenticateBasic, Site.pluginsOf, openSite, L7rAuthenticator.findTenant, hfind,
    L7rAuthenticator.normalize, validateTenant, oneUser, Plugin.default, Plugin.base, hne]

theorem not_same_of_normal {findTenant : String → Option (String × String)} {name name' : String}
    (hfind : findTenant login = some (tenant, name))
    (hfind' : findTenant login' = some (tenant', name')) (hne : tenant ≠ tenant') :
    result (openSite findTenant) (oneUser tenant (normalizeName false name)) login "secret" ≠
      result (openSite findTenant) (oneUser tenant (normalizeName false name)) login'
        "secret" := by
  intro hsame
  have haccepts := openSite_accepts hfind
  rw [hsame, openSite_refuses hfind' hne] at haccepts
  cases haccepts

end Lookups

section Alice

/-- The default plugin's way to split logins at an at sign. -/
def atSign : String → Option (String × String) :=
  Default.findTenant { separators := ['@'], tenant := none, digest := id }

theorem normalizeName_alice : normalizeName false "alice" = "alice" := by
  rw [normalizeName_eq]
  decide

theorem normalizeName_acme : normalizeName false "acme" = "acme" := by
  rw [normalizeName_eq]
  decide

theorem alice_varied : Varied atSign "alice@acme" " Alice @acme" "acme" "acme" := by
  have hname : normalizeName false "alice" = normalizeName false " Alice " := by
    rw [normalizeName_eq, normalizeName_eq]
    decide
  exact ⟨⟨"alice", " Alice ", by decide, by decide, hname⟩, rfl⟩

end Alice

end Qvd.LoginNames
