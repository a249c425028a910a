import Mathlib.Logic.Function.Basic
import Mathlib.Tactic.ByContra
import Qvd.L7rAuthenticator
import Qvd.Runs

/-!
Bearer tokens under many connections: the look-up of a token, the check of its expiration,
its update or deletion, and the look-up of its user are separate steps of the processes
that present it, against one table and one clock.
-/
namespace Qvd.TokenLifecycle

open Runs L7rAuthenticator

/-- Where a connection is in the authentication by a token: it has to look the token up, it
has its row and has to check, to expire or to delete it, or the plugin has accepted it. -/
inductive Phase
  | idle
  | finding (token : String)
  | checking (object : UserToken)
  | expiring (object : UserToken)
  | deleting (object : UserToken)
  | loading (session : UserToken)
deriving DecidableEq, Repr

/-- The tables, the clock and the connections, with each token as it was issued and the
tokens each connection has been authenticated by. -/
structure World (C : Type*) where
  now : Time
  db : Db
  issued : String → Option UserToken
  phase : C → Phase
  authenticatedBy : C → List String

inductive Action (C : Type*)
  | tick (now : Time)
  | issue (row : UserToken)
  | present (c : C) (token : String)
  | find (c : C)
  | check (c : C)
  | delete (c : C)
  | use (c : C)
  | loadUser (c : C)
deriving DecidableEq

/-- The table with one more token. -/
def insertToken (db : Db) (row : UserToken) (h : db.findToken row.token = none) : Db :=
  { db with
    userTokens := row :: db.userTokens
    userTokens_nodup := by
      rw [List.map_cons, List.nodup_cons]
      refine ⟨?_, db.userTokens_nodup⟩
      intro hmem
      obtain ⟨other, hother, htoken⟩ := List.mem_map.mp hmem
      have hnone := List.find?_eq_none.mp h other hother
      simp [htoken] at hnone }

section Steps

variable {C : Type*} [DecidableEq C]

namespace World

def setPhase (w : World C) (c : C) (phase : Phase) : World C :=
  { w with phase := Function.update w.phase c phase }

def setDb (w : World C) (db : Db) : World C :=
  { w with db := db }

def issue (w : World C) (row : UserToken) (h : w.db.findToken row.token = none) : World C :=
  { w with
    db := insertToken w.db row h
    issued := Function.update w.issued row.token (some row) }

def find (w : World C) (c : C) (token : String) : World C :=
  match w.db.findToken token with
  | none => w.setPhase c .idle
  | some object => w.setPhase c (.checking object)

def check (w : World C) (c : C) (object : UserToken) : World C :=
  if object.isExpired w.now then w.setPhase c (.deleting object)
  else w.setPhase c (.expiring object)

def delete (w : World C) (c : C) (object : UserToken) : World C :=
  (w.setDb (w.db.deleteToken object.token)).setPhase c .idle

/-- The use of a token by an authenticator as the constructor leaves it. -/
def use (w : World C) (c : C) (object : UserToken) : World C :=
  match Default.useToken Authenticator.new w.db object with
  | (some session, db) => (w.setDb db).setPhase c (.loading session)
  | (none, db) => (w.setDb db).setPhase c .idle

def loadUser (w : World C) (c : C) (session : UserToken) : World C :=
  match w.db.users.find? (fun user => user.id = session.userId) with
  | none => w.setPhase c .idle
  | some _ =>
    { w.setPhase c .idle with
      authenticatedBy := Function.update w.authenticatedBy c
        (session.token :: w.authenticatedBy c) }

/-- The next step of a connection that presents a token. -/
def next (w : World C) (c : C) : World C :=
  match w.phase c with
  | .idle => w
  | .finding token => w.find c token
  | .checking object => w.check c object
  | .expiring object => w.use c object
  | .deleting object => w.delete c object
  | .loading session => w.loadUser c session

def nextAction (w : World C) (c : C) : Action C :=
  match w.phase c with
  | .idle => .tick w.now
  | .finding _ => .find c
  | .checking _ => .check c
  | .expiring _ => .use c
  | .deleting _ => .delete c
  | .loading _ => .loadUser c

end World

/-- One step. The clock never goes back, and a new token is for a registered user. -/
inductive Step : World C → Action C → World C → Prop
  | tick {w : World C} {now : Time} (h : w.now ≤ now) : Step w (.tick now) { w with now := now }
  | issue {w : World C} {row : UserToken} (h : w.db.findToken row.token = none)
      (hnew : w.issued row.token = none) (huser : ∃ user ∈ w.db.users, user.id = row.userId) :
      Step w (.issue row) (w.issue row h)
  | present {w : World C} {c : C} {token : String} (h : w.phase c = .idle) :
      Step w (.present c token) (w.setPhase c (.finding token))
  | find {w : World C} {c : C} {token : String} (h : w.phase c = .finding token) :
      Step w (.find c) (w.find c token)
  | check {w : World C} {c : C} {object : UserToken} (h : w.phase c = .checking object) :
      Step w (.check c) (w.check c object)
  | delete {w : World C} {c : C} {object : UserToken} (h : w.phase c = .deleting object) :
      Step w (.delete c) (w.delete c object)
  | use {w : World C} {c : C} {object : UserToken} (h : w.phase c = .expiring object) :
      Step w (.use c) (w.use c object)
  | loadUser {w : World C} {c : C} {session : UserToken} (h : w.phase c = .loading session) :
      Step w (.loadUser c) (w.loadUser c session)

/-- Runs from any tables whose tokens are for registered users. -/
def tokenSystem (C : Type*) [DecidableEq C] : System (World C) (Action C) where
  init w := 0 < w.now ∧ (∀ token, w.issued token = w.db.findToken token) ∧
    (∀ row ∈ w.db.userTokens, ∃ user ∈ w.db.users, user.id = row.userId) ∧
    (∀ c, w.phase c = .idle) ∧ ∀ c, w.authenticatedBy c = []
  step := Step

theorem step_next (w : World C) (c : C) : Step w (w.nextAction c) (w.next c) := by
  unfold World.nextAction World.next
  cases hphase : w.phase c with
  | idle => exact .tick (le_refl _)
  | finding token => exact .find hphase
  | checking object => exact .check hphase
  | expiring object => exact .use hphase
  | deleting object => exact .delete hphase
  | loading session => exact .loadUser hphase

/-- What a connection does from the look-up to the answer of the plugin, with nobody else
taking a step, is the plugin's authentication by a token. -/
theorem next_authenticateBearer (w : World C) (c : C) (token : String) :
    ((((w.setPhase c (.finding token)).next c).next c).next c) =
      match Default.authenticateBearer Authenticator.new w.now w.db token with
      | (none, db) => (w.setDb db).setPhase c .idle
      | (some session, db) => (w.setDb db).setPhase c (.loading session) := by
  have hnext : ∀ (w : World C) (c : C) (phase : Phase), (w.setPhase c phase).phase c = phase :=
    fun _ _ _ => Function.update_self _ _ _
  have htwice : ∀ (w : World C) (p q : Phase), (w.setPhase c p).setPhase c q = w.setPhase c q := by
    intro w p q
    simp [World.setPhase]
  have hfind : (w.setPhase c (.finding token)).next c =
      (w.setPhase c (.finding token)).find c token := by
    unfold World.next
    rw [hnext]
  rw [hfind]
  unfold World.find Default.authenticateBearer
  rw [show (w.setPhase c (.finding token)).db = w.db from rfl]
  cases hrow : w.db.findToken token with
  | none =>
    simp [World.next, hnext, htwice]
    rfl
  | some object =>
    have hcheck : ((w.setPhase c (.finding token)).setPhase c (.checking object)).next c =
        (w.setPhase c (.checking object)).check c object := by
      rw [htwice]
      unfold World.next
      rw [hnext]
    show World.next (World.next _ c) c = _
    rw [hcheck]
    unfold World.check
    rw [show (w.setPhase c (.checking object)).now = w.now from rfl, htwice, htwice]
    dsimp only
    split
    · unfold World.next
      rw [hnext]
      show World.delete _ c object = _
      unfold World.delete
      show (((w.setPhase c _).setDb _).setPhase c _) = _
      exact htwice (w.setDb (w.db.deleteToken object.token)) _ _
    · unfold World.next
      rw [hnext]
      show World.use _ c object = _
      unfold World.use
      rw [show (w.setPhase c (.expiring object)).db = w.db from rfl]
      cases Default.useToken Authenticator.new w.db object with
      | mk session db =>
        cases session with
        | none => exact htwice (w.setDb db) _ _
        | some session => exact htwice (w.setDb db) _ _

end Steps

section Tables

theorem find_setExpiration (rows : List UserToken) (token other : String) (expiration : Time) :
    (setExpiration rows token expiration).find? (fun row => row.token = other) =
      if other = token
      then (rows.find? (fun row => row.token = other)).map
        (fun row => { row with expiration := expiration })
      else rows.find? (fun row => row.token = other) := by
  induction rows with
  | nil => simp [setExpiration]
  | cons row rows ih =>
    unfold setExpiration at ih ⊢
    rw [List.map_cons, List.find?_cons, List.find?_cons, ih]
    by_cases hrow : row.token = token
    · by_cases hother : other = token
      · simp [hrow, hother]
      · simp [hother, hrow, Ne.symm hother]
    · by_cases hother : row.token = other
      · have hne : other ≠ token := hother ▸ hrow
        simp [hother, hne]
      · simp [hrow, hother]

theorem find_filter_ne (rows : List UserToken) (deleted token : String) :
    (rows.filter (fun row => row.token ≠ deleted)).find? (fun row => row.token = token) =
      if token = deleted then none else rows.find? (fun row => row.token = token) := by
  induction rows with
  | nil => simp
  | cons row rows ih =>
    by_cases hrow : row.token = deleted
    · rw [List.filter_cons_of_neg (by simp [hrow]), ih, List.find?_cons]
      by_cases htoken : token = deleted
      · simp [htoken]
      · simp [htoken, hrow, Ne.symm htoken]
    · rw [List.filter_cons_of_pos (by simp [hrow]), List.find?_cons, List.find?_cons, ih]
      by_cases htoken : row.token = token
      · have hne : token ≠ deleted := htoken ▸ hrow
        simp [htoken, hne]
      · simp [htoken]

theorem findToken_delete (db : Db) (deleted token : String) :
    (db.deleteToken deleted).findToken token =
      if token = deleted then none else db.findToken token :=
  find_filter_ne db.userTokens deleted token

theorem findToken_insert (db : Db) (row : UserToken) (h : db.findToken row.token = none)
    (token : String) :
    (insertToken db row h).findToken token =
      if token = row.token then some row else db.findToken token := by
  show (row :: db.userTokens).find? _ = _
  rw [List.find?_cons]
  by_cases htoken : row.token = token
  · simp [htoken]
  · simp [htoken, Ne.symm htoken, Db.findToken]

/-- The use of a token that is in the table sets its expiration to 0. -/
theorem use_found {db : Db} {object stored : UserToken}
    (hfind : db.findToken object.token = some stored) (hne : object.expiration ≠ 0) :
    ∃ db', Default.useToken Authenticator.new db object =
        (some { object with expiration := 0 }, db') ∧ db'.users = db.users ∧
      ∀ token, db'.findToken token = if token = object.token
        then some { stored with expiration := 0 } else db.findToken token := by
  have hsome : (db.findToken object.token).isNone = false := by rw [hfind]; rfl
  refine ⟨{ db with
      userTokens := setExpiration db.userTokens object.token 0
      userTokens_nodup := by rw [tokens_setExpiration]; exact db.userTokens_nodup }, ?_, rfl, ?_⟩
  · simp [Default.useToken, Authenticator.new, Db.expire, hne, hsome]
  · intro token
    refine (find_setExpiration db.userTokens object.token token 0).trans ?_
    by_cases htoken : token = object.token
    · subst htoken
      rw [if_pos rfl, if_pos rfl]
      rw [show db.userTokens.find? _ = some stored from hfind, Option.map_some]
    · rw [if_neg htoken, if_neg htoken]
      rfl

/-- The use of a token that has gone fails. -/
theorem use_gone {db : Db} {object : UserToken} (hfind : db.findToken object.token = none)
    (hne : object.expiration ≠ 0) :
    Default.useToken Authenticator.new db object = (none, db) := by
  simp [Default.useToken, Authenticator.new, Db.expire, hne, hfind]

end Tables

section Specification

variable {C : Type*}

/-- The token the plugin has accepted. -/
def Phase.accepted : Phase → Option String
  | .loading session => some session.token
  | _ => none

/-- The row between its look-up and the update of its expiration. -/
def Phase.held : Phase → Option UserToken
  | .checking object | .expiring object => some object
  | _ => none

/-- The token a connection presents. -/
def Phase.token : Phase → Option String
  | .idle => none
  | .finding token => some token
  | .checking object | .expiring object | .deleting object | .loading object => some object.token

/-- The plugin has accepted the token for the connection. -/
def HasUsed (w : World C) (c : C) (token : String) : Prop :=
  token ∈ w.authenticatedBy c ∨ (w.phase c).accepted = some token

/-- A token that is not multi-use authenticates one connection at most. -/
def SingleUse (w : World C) : Prop :=
  ∀ token row, w.issued token = some row → row.multiUse = false →
    ∀ c c', token ∈ w.authenticatedBy c → token ∈ w.authenticatedBy c' → c = c'

/-- The token can still authenticate: a multi-use token until the expiration it was issued
with, another one until the expiration in its row. -/
def NotExpired (w : World C) (token : String) : Prop :=
  ∃ row, w.issued token = some row ∧ w.now ≤ row.expiration ∧
    (row.multiUse = false →
      ∃ stored, w.db.findToken token = some stored ∧ stored.isExpired w.now = false)

/-- No check lets an expired token pass, and no connection that presents a multi-use token
before its expiration is turned away. -/
def Lawful (w : World C) (_ : Action C) (w' : World C) : Prop :=
  (∀ c object, w.phase c = .checking object → w'.phase c = .expiring object →
    NotExpired w object.token) ∧
  ∀ c token row, (w.phase c).token = some token → w.issued token = some row →
    row.multiUse = true → w.now ≤ row.expiration →
    (w'.phase c).token = some token ∨ w'.authenticatedBy c = token :: w.authenticatedBy c

/-- The condition on a look-up: it does not find a token, not expired, that is not
multi-use and that another connection holds; and it does not look for a multi-use token,
before the expiration it was issued with, that has been used. -/
def StepOk (w : World C) : Action C → Prop
  | .find c => ∀ token row, w.phase c = .finding token → w.issued token = some row →
      if row.multiUse then w.now ≤ row.expiration → ∀ other, ¬ HasUsed w other token
      else ∀ stored, w.db.findToken token = some stored → stored.isExpired w.now = false →
        ∀ other object, other ≠ c → (w.phase other).held = some object → object.token ≠ token
  | _ => True

end Specification

section Invariant

variable {C : Type*}

/-- The row, or a copy of it, is the issued one with an expiration that is not later. -/
def CopyOf (w : World C) (object : UserToken) : Prop :=
  ∃ row, w.issued object.token = some row ∧ SameToken object row ∧
    object.expiration ≤ row.expiration

/-- The object a connection works on. -/
def Phase.object : Phase → Option UserToken
  | .checking object | .expiring object | .deleting object | .loading object => some object
  | _ => none

/-- What holds of a token that is not multi-use. -/
structure Single (w : World C) (token : String) : Prop where
  current : ∀ c object, (w.phase c).held = some object → object.token = token →
    w.db.findToken token = some object ∨ object.expiration < w.now
  holders : ∀ c c' object object', c ≠ c' → (w.phase c).held = some object →
    (w.phase c').held = some object' → object.token = token → object'.token = token →
    object.expiration < w.now ∨ object'.expiration < w.now
  expiring : ∀ c c' object object', w.phase c = .expiring object →
    w.phase c' = .expiring object' → object.token = token → object'.token = token → c = c'
  used_row : ∀ c stored, HasUsed w c token → w.db.findToken token = some stored →
    stored.expiration = 0
  used_checking : ∀ c c' object, HasUsed w c token → w.phase c' = .checking object →
    object.token = token → object.expiration < w.now
  used_expiring : ∀ c c' object, HasUsed w c token → w.phase c' = .expiring object →
    object.token ≠ token
  user : ∀ c c', HasUsed w c token → HasUsed w c' token → c = c'

/-- What holds of a multi-use token. -/
structure Multi (w : World C) (row : UserToken) : Prop where
  present : w.now ≤ row.expiration → ∃ stored, w.db.findToken row.token = some stored
  unused : w.now ≤ row.expiration → (∀ c, ¬ HasUsed w c row.token) →
    w.db.findToken row.token = some row
  held : ∀ c object, (w.phase c).held = some object → object.token = row.token →
    w.now ≤ row.expiration → object.expiration = row.expiration
  deleting : ∀ c object, w.phase c = .deleting object → object.token = row.token →
    row.expiration < w.now

structure Invariant (w : World C) : Prop where
  clock : 0 < w.now
  issued : ∀ token row, w.issued token = some row →
    row.token = token ∧ ∃ user ∈ w.db.users, user.id = row.userId
  stored : ∀ token object, w.db.findToken token = some object → CopyOf w object
  object : ∀ c object, (w.phase c).object = some object → CopyOf w object
  later : ∀ c object stored, (w.phase c).object = some object →
    w.db.findToken object.token = some stored →
    stored.expiration ≤ object.expiration ∨ ∃ session, w.phase c = .loading session
  expiring : ∀ c object, w.phase c = .expiring object → 0 < object.expiration
  deleting : ∀ c object, w.phase c = .deleting object → object.expiration < w.now
  logged : ∀ c token, token ∈ w.authenticatedBy c → ∃ row, w.issued token = some row
  single : ∀ token row, w.issued token = some row → row.multiUse = false → Single w token
  multi : ∀ token row, w.issued token = some row → row.multiUse = true → Multi w row

end Invariant

section Moves

attribute [local grind =] Phase.held Phase.accepted Phase.object

variable {C : Type*} [DecidableEq C]

/-- A connection goes on to another phase; clock, issued tokens and users stay. -/
structure Moves (w w' : World C) (c : C) (phase : Phase) : Prop where
  now : w'.now = w.now
  issued : w'.issued = w.issued
  users : w'.db.users = w.db.users
  phase : ∀ d, w'.phase d = if d = c then phase else w.phase d

/-- No token is accepted for a connection, and none is forgotten. -/
def SameUse (w w' : World C) : Prop :=
  ∀ d token, HasUsed w' d token ↔ HasUsed w d token

theorem moves_setPhase (w : World C) (c : C) (phase : Phase) :
    Moves w (w.setPhase c phase) c phase :=
  ⟨rfl, rfl, rfl, fun d => Function.update_apply _ _ _ d⟩

theorem moves_setDb (w : World C) (db : Db) (c : C) (phase : Phase)
    (h : db.users = w.db.users) : Moves w ((w.setDb db).setPhase c phase) c phase :=
  ⟨rfl, rfl, h, fun d => Function.update_apply _ _ _ d⟩

theorem sameUse_of_phase {w w' : World C} {c : C} {phase : Phase} (hm : Moves w w' c phase)
    (hlog : w'.authenticatedBy = w.authenticatedBy) (hold : (w.phase c).accepted = none)
    (hnew : phase.accepted = none) : SameUse w w' := by
  intro d token
  unfold HasUsed
  rw [hlog, hm.phase d]
  by_cases hd : d = c
  · rw [if_pos hd, hd, hold, hnew]
  · rw [if_neg hd]

variable {w w' : World C} {c : C} {object stored row : UserToken} {token found : String}

/-- A connection that holds no row afterwards keeps what holds of a token. -/
theorem Single.release {phase : Phase} (h : Single w token) (hm : Moves w w' c phase)
    (hu : SameUse w w') (hdb : w'.db = w.db) (hp : phase.held = none) : Single w' token := by
  obtain ⟨hcurrent, hholders, hexpiring, hrow, hchecking, hused, huser⟩ := h
  obtain ⟨hnow, -, -, hphase⟩ := hm
  unfold SameUse at hu
  constructor <;> grind

/-- A look-up that meets the condition: whoever holds the row, too, holds an expired one. -/
theorem Single.find (h : Single w token) (hfound : w.db.findToken found = some stored)
    (hstored : stored.token = found) (hm : Moves w w' c (.checking stored))
    (hu : SameUse w w') (hdb : w'.db = w.db) (hnow0 : 0 < w.now)
    (hok : found = token → w.now ≤ stored.expiration →
      ∀ d other, d ≠ c → (w.phase d).held = some other → other.token ≠ token) :
    Single w' token := by
  obtain ⟨hcurrent, hholders, hexpiring, hrow, hchecking, hused, huser⟩ := h
  obtain ⟨hnow, -, -, hphase⟩ := hm
  unfold SameUse at hu
  constructor <;> grind

/-- A check that is passed: the row is the stored one, and nobody else has passed. -/
theorem Single.pass (h : Single w token) (hc : w.phase c = .checking object)
    (hm : Moves w w' c (.expiring object)) (hu : SameUse w w') (hdb : w'.db = w.db)
    (hunexpired : w.now ≤ object.expiration)
    (hlater : ∀ d other stored, (w.phase d).held = some other →
      w.db.findToken other.token = some stored → stored.expiration ≤ other.expiration) :
    Single w' token := by
  obtain ⟨hcurrent, hholders, hexpiring, hrow, hchecking, hused, huser⟩ := h
  obtain ⟨hnow, -, -, hphase⟩ := hm
  unfold SameUse at hu
  -- another connection that has passed would hold the stored row or an expired one
  have hnobody : ∀ d other, w.phase d = .expiring other → other.token = token →
      object.token = token → d = c := by
    intro d other hd hother htoken
    by_contra hne
    have hobject := hcurrent c object (by rw [hc]; rfl) htoken
    have hheld : (w.phase d).held = some other := by rw [hd]; rfl
    have hboth := hholders d c other object hne hheld (by rw [hc]; rfl) hother htoken
    have hle := hlater d other object hheld
    grind
  constructor <;> grind

/-- The deletion of an expired row. -/
theorem Single.delete (h : Single w token) (hm : Moves w w' c .idle) (hu : SameUse w w')
    (hdb : ∀ other, w'.db.findToken other =
      if other = object.token then none else w.db.findToken other)
    (hexpired : object.expiration < w.now)
    (hlater : ∀ stored, w.db.findToken object.token = some stored →
      stored.expiration ≤ object.expiration) : Single w' token := by
  obtain ⟨hcurrent, hholders, hexpiring, hrow, hchecking, hused, huser⟩ := h
  obtain ⟨hnow, -, -, hphase⟩ := hm
  unfold SameUse at hu
  constructor <;> grind

/-- The use of a token: nobody has used it, and nobody can pass the check any more. -/
theorem Single.use (h : Single w token) (hc : w.phase c = .expiring object)
    (hfound : w.db.findToken object.token = some stored)
    (hle : stored.expiration ≤ object.expiration)
    (hm : Moves w w' c (.loading { object with expiration := 0 }))
    (hu : ∀ d other, HasUsed w' d other ↔ HasUsed w d other ∨ (d = c ∧ other = object.token))
    (hdb : ∀ other, w'.db.findToken other = if other = object.token
      then some { stored with expiration := 0 } else w.db.findToken other) : Single w' token := by
  obtain ⟨hcurrent, hholders, hexpiring, hrow, hchecking, hused, huser⟩ := h
  obtain ⟨hnow, -, -, hphase⟩ := hm
  constructor <;> grind

omit [DecidableEq C] in
theorem Single.tick (h : Single w token) (hle : w.now ≤ w'.now)
    (hphase : ∀ d, w'.phase d = w.phase d) (hu : SameUse w w') (hdb : w'.db = w.db) :
    Single w' token := by
  obtain ⟨hcurrent, hholders, hexpiring, hrow, hchecking, hused, huser⟩ := h
  unfold SameUse at hu
  constructor <;> grind

/-- A connection that holds no row afterwards keeps what holds of a multi-use token. -/
theorem Multi.release {phase : Phase} (h : Multi w row) (hm : Moves w w' c phase)
    (hu : SameUse w w') (hdb : w'.db = w.db) (hp : phase.held = none)
    (hd : ∀ object, phase = .deleting object → object.token = row.token →
      row.expiration < w.now) : Multi w' row := by
  obtain ⟨hpresent, hunused, hheld, hdeleting⟩ := h
  obtain ⟨hnow, -, -, hphase⟩ := hm
  unfold SameUse at hu
  constructor <;> grind

/-- A look-up that meets the condition finds the row as it was issued. -/
theorem Multi.find (h : Multi w row) (hfound : w.db.findToken found = some stored)
    (hstored : stored.token = found) (hm : Moves w w' c (.checking stored))
    (hu : SameUse w w') (hdb : w'.db = w.db)
    (hok : found = row.token → w.now ≤ row.expiration → ∀ d, ¬ HasUsed w d found) :
    Multi w' row := by
  obtain ⟨hpresent, hunused, hheld, hdeleting⟩ := h
  obtain ⟨hnow, -, -, hphase⟩ := hm
  unfold SameUse at hu
  constructor <;> grind

theorem Multi.pass (h : Multi w row) (hc : w.phase c = .checking object)
    (hm : Moves w w' c (.expiring object)) (hu : SameUse w w') (hdb : w'.db = w.db) :
    Multi w' row := by
  obtain ⟨hpresent, hunused, hheld, hdeleting⟩ := h
  obtain ⟨hnow, -, -, hphase⟩ := hm
  unfold SameUse at hu
  constructor <;> grind

/-- A row is deleted only after the expiration it was issued with. -/
theorem Multi.delete (h : Multi w row) (hc : w.phase c = .deleting object)
    (hm : Moves w w' c .idle) (hu : SameUse w w')
    (hdb : ∀ other, w'.db.findToken other =
      if other = object.token then none else w.db.findToken other) : Multi w' row := by
  obtain ⟨hpresent, hunused, hheld, hdeleting⟩ := h
  obtain ⟨hnow, -, -, hphase⟩ := hm
  unfold SameUse at hu
  constructor <;> grind

theorem Multi.use (h : Multi w row)
    (hm : Moves w w' c (.loading { object with expiration := 0 }))
    (hu : ∀ d other, HasUsed w' d other ↔ HasUsed w d other ∨ (d = c ∧ other = object.token))
    (hdb : ∀ other, w'.db.findToken other = if other = object.token
      then some { stored with expiration := 0 } else w.db.findToken other) : Multi w' row := by
  obtain ⟨hpresent, hunused, hheld, hdeleting⟩ := h
  obtain ⟨hnow, -, -, hphase⟩ := hm
  constructor
  · grind
  · intro hle hnone
    have hother : row.token ≠ object.token := by
      intro heq
      exact hnone c ((hu c row.token).mpr (Or.inr ⟨rfl, heq⟩))
    rw [hdb, if_neg hother]
    exact hunused (hnow ▸ hle) fun d hused => hnone d ((hu d row.token).mpr (Or.inl hused))
  · grind
  · grind

omit [DecidableEq C] in
theorem Multi.tick (h : Multi w row) (hle : w.now ≤ w'.now)
    (hphase : ∀ d, w'.phase d = w.phase d) (hu : SameUse w w') (hdb : w'.db = w.db) :
    Multi w' row := by
  obtain ⟨hpresent, hunused, hheld, hdeleting⟩ := h
  unfold SameUse at hu
  constructor
  · grind
  · intro hle' hnone
    rw [hdb]
    exact hunused (le_trans hle hle') fun d hused => hnone d ((hu d row.token).mpr hused)
  · grind
  · grind

end Moves

section StepLemmas

variable {C : Type*} [DecidableEq C] {w w' : World C} {c : C} {object stored row : UserToken}
  {token : String} {now : Time}

omit [DecidableEq C] in
theorem copyOf_congr (h : w'.issued = w.issued) (object : UserToken) :
    CopyOf w' object ↔ CopyOf w object := by
  unfold CopyOf
  rw [h]

omit [DecidableEq C] in
/-- The expiration set to 0 keeps a copy one. -/
theorem CopyOf.expire (h : CopyOf w object) : CopyOf w { object with expiration := 0 } := by
  obtain ⟨row, hissued, ⟨htoken, huser, hvm, hmulti⟩, -⟩ := h
  exact ⟨row, hissued, ⟨htoken, huser, hvm, hmulti⟩, Nat.zero_le _⟩

omit [DecidableEq C] in
theorem notExpired_iff (object : UserToken) (now : Time) :
    object.isExpired now = false ↔ now ≤ object.expiration := by
  simp [UserToken.isExpired]

/-- A connection that goes on keeps the invariant when no row of the table gets a later
expiration and the row it works on afterwards is as it should be. -/
theorem Invariant.advance {phase : Phase} (h : Invariant w) (hm : Moves w w' c phase)
    (hrows : ∀ token new, w'.db.findToken token = some new → CopyOf w new ∧
      ∃ old, w.db.findToken token = some old ∧ new.expiration ≤ old.expiration)
    (hlog : ∀ d token, token ∈ w'.authenticatedBy d → ∃ row, w.issued token = some row)
    (hobject : ∀ object, phase.object = some object → CopyOf w object ∧
      ((∃ session, phase = .loading session) ∨ ∀ stored,
        w.db.findToken object.token = some stored → stored.expiration ≤ object.expiration))
    (hexpiring : ∀ object, phase = .expiring object → 0 < object.expiration)
    (hdeleting : ∀ object, phase = .deleting object → object.expiration < w.now)
    (hsingle : ∀ token row, w.issued token = some row → row.multiUse = false → Single w' token)
    (hmulti : ∀ token row, w.issued token = some row → row.multiUse = true → Multi w' row) :
    Invariant w' := by
  have hcopy := copyOf_congr hm.issued
  obtain ⟨hclock, hissued, -, hobj, hlater, hexp, hdel, -, -, -⟩ := h
  obtain ⟨hnow, hiss, husers, hphase⟩ := hm
  constructor
  · rw [hnow]
    exact hclock
  · rw [hiss, husers]
    exact hissued
  · intro token object hfind
    exact (hcopy object).mpr (hrows token object hfind).1
  · intro d object hd
    rw [hphase] at hd
    rw [hcopy]
    split at hd
    · exact (hobject object hd).1
    · exact hobj d object hd
  · intro d object stored hd hfind
    obtain ⟨-, old, hold, hle⟩ := hrows _ _ hfind
    rw [hphase] at hd ⊢
    split at hd
    · rename_i heq
      rw [if_pos heq]
      rcases (hobject object hd).2 with hloading | hsmaller
      · exact Or.inr hloading
      · exact Or.inl (Nat.le_trans hle (hsmaller old hold))
    · rename_i hne
      rw [if_neg hne]
      rcases hlater d object old hd hold with hsmaller | hloading
      · exact Or.inl (Nat.le_trans hle hsmaller)
      · exact Or.inr hloading
  · intro d object hd
    rw [hphase] at hd
    split at hd
    · exact hexpiring object hd
    · exact hexp d object hd
  · intro d object hd
    rw [hphase] at hd
    rw [hnow]
    split at hd
    · exact hdeleting object hd
    · exact hdel d object hd
  · rw [hiss]
    exact hlog
  · rw [hiss]
    exact hsingle
  · rw [hiss]
    exact hmulti

theorem Invariant.move {phase : Phase} (h : Invariant w) (hm : Moves w w' c phase)
    (hdb : w'.db = w.db) (hlog : w'.authenticatedBy = w.authenticatedBy)
    (hobject : ∀ object, phase.object = some object → CopyOf w object ∧
      ∀ stored, w.db.findToken object.token = some stored →
        stored.expiration ≤ object.expiration)
    (hexpiring : ∀ object, phase = .expiring object → 0 < object.expiration)
    (hdeleting : ∀ object, phase = .deleting object → object.expiration < w.now)
    (hsingle : ∀ token row, w.issued token = some row → row.multiUse = false → Single w' token)
    (hmulti : ∀ token row, w.issued token = some row → row.multiUse = true → Multi w' row) :
    Invariant w' := by
  refine h.advance hm ?_ ?_ ?_ hexpiring hdeleting hsingle hmulti
  · rw [hdb]
    exact fun token new hfind => ⟨h.stored token new hfind, new, hfind, le_refl _⟩
  · rw [hlog]
    exact h.logged
  · exact fun object heq => ⟨(hobject object heq).1, Or.inr (hobject object heq).2⟩

theorem object_of_held {phase : Phase} (h : phase.held = some object) :
    phase.object = some object := by
  cases phase with
  | idle | finding _ | deleting _ | loading _ => cases h
  | checking _ | expiring _ => exact h

omit [DecidableEq C] in
theorem Invariant.heldLater (h : Invariant w) (d : C) (other stored : UserToken)
    (hd : (w.phase d).held = some other) (hfind : w.db.findToken other.token = some stored) :
    stored.expiration ≤ other.expiration := by
  rcases h.later d other stored (object_of_held hd) hfind with hle | ⟨session, hloading⟩
  · exact hle
  · rw [hloading] at hd
    cases hd

theorem invariant_release {phase : Phase} (h : Invariant w)
    (hold : (w.phase c).accepted = none) (hobject : phase.object = none) :
    Invariant (w.setPhase c phase) := by
  have hm := moves_setPhase w c phase
  have hnone : phase.held = none ∧ phase.accepted = none ∧
      (∀ object, phase ≠ .expiring object) ∧ ∀ object, phase ≠ .deleting object := by
    cases phase with
    | idle | finding _ => simp [Phase.held, Phase.accepted]
    | checking _ | expiring _ | deleting _ | loading _ => cases hobject
  obtain ⟨hheld, haccepted, hexpiring, hdeleting⟩ := hnone
  have hu := sameUse_of_phase hm rfl hold haccepted
  refine h.move hm rfl rfl ?_ ?_ ?_ ?_ ?_
  · intro object hsome
    rw [hobject] at hsome
    cases hsome
  · exact fun object heq => absurd heq (hexpiring object)
  · exact fun object heq => absurd heq (hdeleting object)
  · exact fun token row hissued hmulti => (h.single token row hissued hmulti).release hm hu rfl hheld
  · exact fun token row hissued hmulti => (h.multi token row hissued hmulti).release hm hu rfl hheld
      fun object heq => absurd heq (hdeleting object)

theorem invariant_find (h : Invariant w) (hc : w.phase c = .finding token)
    (hok : StepOk w (.find c)) : Invariant (w.find c token) := by
  unfold World.find
  cases hfind : w.db.findToken token with
  | none => exact invariant_release h (by rw [hc]; rfl) rfl
  | some stored =>
    have hm := moves_setPhase w c (.checking stored)
    have hu := sameUse_of_phase hm rfl (by rw [hc]; rfl) rfl
    have htoken := findToken_token hfind
    refine h.move hm rfl rfl ?_ (by rintro _ ⟨⟩) (by rintro _ ⟨⟩) ?_ ?_
    · intro object hobject
      obtain rfl := Option.some.inj hobject
      refine ⟨h.stored token _ hfind, ?_⟩
      intro other hother
      rw [htoken, hfind] at hother
      obtain rfl := Option.some.inj hother
      exact le_refl _
    · intro other row hissued hsingle
      refine (h.single other row hissued hsingle).find hfind htoken hm hu rfl h.clock ?_
      rintro rfl hle
      have hrule := hok token row hc hissued
      rw [hsingle, if_neg Bool.false_ne_true] at hrule
      exact hrule stored hfind ((notExpired_iff _ _).mpr hle)
    · intro other row hissued hmulti
      refine (h.multi other row hissued hmulti).find hfind htoken hm hu rfl ?_
      intro heq hle
      have hrow := (h.issued other row hissued).1
      have hrule := hok token row hc (by rw [heq, hrow]; exact hissued)
      rw [hmulti, if_pos rfl] at hrule
      exact hrule hle

theorem invariant_check (h : Invariant w) (hc : w.phase c = .checking object) :
    Invariant (w.check c object) := by
  have hobject : CopyOf w object ∧ ∀ stored, w.db.findToken object.token = some stored →
      stored.expiration ≤ object.expiration := by
    refine ⟨h.object c object (by rw [hc]; rfl), ?_⟩
    exact fun stored hfind => h.heldLater c object stored (by rw [hc]; rfl) hfind
  unfold World.check
  by_cases hexpired : object.isExpired w.now = true
  · have hlt : object.expiration < w.now := by simpa [UserToken.isExpired] using hexpired
    rw [if_pos hexpired]
    have hm := moves_setPhase w c (.deleting object)
    have hu := sameUse_of_phase hm rfl (by rw [hc]; rfl) rfl
    refine h.move hm rfl rfl ?_ (by rintro _ ⟨⟩) (by rintro _ ⟨⟩; exact hlt) ?_ ?_
    · rintro _ ⟨⟩
      exact hobject
    · exact fun token row hissued hmulti => (h.single token row hissued hmulti).release hm hu rfl rfl
    · intro token row hissued hmulti
      have hrow := h.multi token row hissued hmulti
      refine hrow.release hm hu rfl rfl ?_
      rintro _ ⟨⟩ htoken
      by_contra hle
      have heq := hrow.held c object (by rw [hc]; rfl) htoken (Nat.le_of_not_lt hle)
      exact hle (heq ▸ hlt)
  · have hle := (notExpired_iff object w.now).mp (by simpa using hexpired)
    rw [if_neg hexpired]
    have hm := moves_setPhase w c (.expiring object)
    have hu := sameUse_of_phase hm rfl (by rw [hc]; rfl) rfl
    have hpos : 0 < object.expiration := Nat.lt_of_lt_of_le h.clock hle
    refine h.move hm rfl rfl ?_ (by rintro _ ⟨⟩; exact hpos) (by rintro _ ⟨⟩) ?_ ?_
    · rintro _ ⟨⟩
      exact hobject
    · exact fun token row hissued hmulti =>
        (h.single token row hissued hmulti).pass hc hm hu rfl hle h.heldLater
    · exact fun token row hissued hmulti => (h.multi token row hissued hmulti).pass hc hm hu rfl

theorem invariant_delete (h : Invariant w) (hc : w.phase c = .deleting object) :
    Invariant (w.delete c object) := by
  have hm : Moves w (w.delete c object) c .idle := moves_setDb w _ c .idle rfl
  have hu := sameUse_of_phase hm rfl (by rw [hc]; rfl) rfl
  have hdb : ∀ other, (w.delete c object).db.findToken other =
      if other = object.token then none else w.db.findToken other :=
    findToken_delete w.db object.token
  have hlater : ∀ stored, w.db.findToken object.token = some stored →
      stored.expiration ≤ object.expiration := by
    intro stored hfind
    rcases h.later c object stored (by rw [hc]; rfl) hfind with hle | ⟨session, hloading⟩
    · exact hle
    · rw [hc] at hloading
      cases hloading
  refine h.advance hm ?_ h.logged (by rintro _ ⟨⟩) (by rintro _ ⟨⟩) (by rintro _ ⟨⟩) ?_ ?_
  · intro token new hfind
    rw [hdb] at hfind
    split at hfind
    · cases hfind
    · exact ⟨h.stored token new hfind, new, hfind, le_refl _⟩
  · exact fun token row hissued hmulti =>
      (h.single token row hissued hmulti).delete hm hu hdb (h.deleting c object hc) hlater
  · exact fun token row hissued hmulti => (h.multi token row hissued hmulti).delete hc hm hu hdb

/-- The use of a token that is still in the table. -/
theorem use_eq (hpos : 0 < object.expiration)
    (hfind : w.db.findToken object.token = some stored) :
    ∃ db', w.use c object =
        (w.setDb db').setPhase c (.loading { object with expiration := 0 }) ∧
      db'.users = w.db.users ∧ ∀ token, db'.findToken token = if token = object.token
        then some { stored with expiration := 0 } else w.db.findToken token := by
  obtain ⟨db', huse, husers, hdb⟩ := use_found hfind (Nat.ne_of_gt hpos)
  refine ⟨db', ?_, husers, hdb⟩
  unfold World.use
  rw [huse]

theorem invariant_use (h : Invariant w) (hc : w.phase c = .expiring object) :
    Invariant (w.use c object) := by
  have hpos := h.expiring c object hc
  cases hfind : w.db.findToken object.token with
  | none =>
    have huse : w.use c object = w.setPhase c .idle := by
      unfold World.use
      rw [use_gone hfind (Nat.ne_of_gt hpos)]
      rfl
    rw [huse]
    exact invariant_release h (by rw [hc]; rfl) rfl
  | some stored =>
    obtain ⟨db', huse, husers, hdb⟩ := use_eq (c := c) hpos hfind
    rw [huse]
    have hm := moves_setDb w db' c (.loading { object with expiration := 0 }) husers
    have hu : ∀ d other, HasUsed ((w.setDb db').setPhase c
        (.loading { object with expiration := 0 })) d other ↔
          HasUsed w d other ∨ (d = c ∧ other = object.token) := by
      intro d other
      unfold HasUsed
      rw [hm.phase d]
      by_cases hd : d = c
      · simp [hd, hc, Phase.accepted, World.setPhase, World.setDb, eq_comm]
      · simp [hd, World.setPhase, World.setDb]
    refine h.advance hm ?_ h.logged ?_ (by rintro _ ⟨⟩) (by rintro _ ⟨⟩) ?_ ?_
    · intro token new hnew
      rw [show ((w.setDb db').setPhase c _).db.findToken token = _ from hdb token] at hnew
      split at hnew
      · rename_i heq
        obtain rfl := Option.some.inj hnew
        exact ⟨(h.stored _ stored hfind).expire, stored, heq ▸ hfind, Nat.zero_le _⟩
      · exact ⟨h.stored token new hnew, new, hnew, le_refl _⟩
    · rintro _ ⟨⟩
      exact ⟨(h.object c object (by rw [hc]; rfl)).expire, Or.inl ⟨_, rfl⟩⟩
    · exact fun token row hissued hmulti => (h.single token row hissued hmulti).use hc hfind
        (h.heldLater c object stored (by rw [hc]; rfl) hfind) hm hu hdb
    · exact fun token row hissued hmulti => (h.multi token row hissued hmulti).use hm hu hdb

/-- The user of an accepted token is registered. -/
theorem loadUser_eq (h : Invariant w) (hc : w.phase c = .loading object) :
    w.loadUser c object =
      { w.setPhase c .idle with
        authenticatedBy := Function.update w.authenticatedBy c
          (object.token :: w.authenticatedBy c) } := by
  obtain ⟨row, hissued, ⟨-, huser, -, -⟩, -⟩ := h.object c object (by rw [hc]; rfl)
  obtain ⟨-, user, hmem, hid⟩ := h.issued object.token row hissued
  unfold World.loadUser
  cases hfind : w.db.users.find? (fun user => user.id = object.userId) with
  | none =>
    have hne := List.find?_eq_none.mp hfind user hmem
    simp [hid, huser] at hne
  | some _ => rfl

theorem invariant_loadUser (h : Invariant w) (hc : w.phase c = .loading object) :
    Invariant (w.loadUser c object) := by
  obtain ⟨row, hissued, -, -⟩ := h.object c object (by rw [hc]; rfl)
  rw [loadUser_eq h hc]
  generalize hw' : ({ w.setPhase c .idle with
    authenticatedBy := Function.update w.authenticatedBy c
      (object.token :: w.authenticatedBy c) } : World C) = w'
  have hm : Moves w w' c .idle := by
    subst hw'
    exact ⟨rfl, rfl, rfl, fun d => Function.update_apply _ _ _ d⟩
  have hlog : ∀ d, w'.authenticatedBy d =
      if d = c then object.token :: w.authenticatedBy c else w.authenticatedBy d := by
    subst hw'
    exact fun d => Function.update_apply _ _ _ d
  have hu : SameUse w w' := by
    intro d token
    unfold HasUsed
    rw [hm.phase d, hlog d]
    by_cases hd : d = c
    · simp [hd, hc, Phase.accepted, or_comm, eq_comm]
    · simp [hd]
  have hdb : w'.db = w.db := by
    subst hw'
    rfl
  refine h.advance hm ?_ ?_ (by rintro _ ⟨⟩) (by rintro _ ⟨⟩) (by rintro _ ⟨⟩) ?_ ?_
  · rw [hdb]
    exact fun token new hfind => ⟨h.stored token new hfind, new, hfind, le_refl _⟩
  · intro d token hmem
    rw [hlog] at hmem
    split at hmem
    · rcases List.mem_cons.mp hmem with rfl | hmem
      · exact ⟨row, hissued⟩
      · exact h.logged c token hmem
    · exact h.logged d token hmem
  · exact fun token row hissued hmulti =>
      (h.single token row hissued hmulti).release hm hu hdb rfl
  · exact fun token row hissued hmulti =>
      (h.multi token row hissued hmulti).release hm hu hdb rfl (by rintro _ ⟨⟩)

omit [DecidableEq C] in
theorem invariant_tick (h : Invariant w) (hle : w.now ≤ now) : Invariant { w with now := now } := by
  have hu : SameUse w { w with now := now } := fun _ _ => Iff.rfl
  obtain ⟨hclock, hissued, hstored, hobject, hlater, hexp, hdel, hlogged, hsingle, hmulti⟩ := h
  refine ⟨Nat.lt_of_lt_of_le hclock hle, hissued, hstored, hobject, hlater, hexp, ?_, hlogged,
    ?_, ?_⟩
  · exact fun c object hc => Nat.lt_of_lt_of_le (hdel c object hc) hle
  · exact fun token row hiss hrow => (hsingle token row hiss hrow).tick hle (fun _ => rfl) hu rfl
  · exact fun token row hiss hrow => (hmulti token row hiss hrow).tick hle (fun _ => rfl) hu rfl

section Issue

omit [DecidableEq C] in
/-- Nobody holds a token that has not been issued. -/
theorem Invariant.not_held (h : Invariant w) (hnew : w.issued row.token = none) (c : C)
    (hobject : (w.phase c).object = some object) : object.token ≠ row.token := by
  intro heq
  obtain ⟨other, hissued, -⟩ := h.object c object hobject
  rw [heq, hnew] at hissued
  cases hissued

omit [DecidableEq C] in
theorem Invariant.not_used (h : Invariant w) (hnew : w.issued row.token = none) (c : C) :
    ¬ HasUsed w c row.token := by
  rintro (hlog | haccepted)
  · obtain ⟨other, hissued⟩ := h.logged c row.token hlog
    rw [hnew] at hissued
    cases hissued
  · cases hphase : w.phase c with
    | idle | finding _ | checking _ | expiring _ | deleting _ =>
      rw [hphase] at haccepted
      cases haccepted
    | loading session =>
      rw [hphase] at haccepted
      exact h.not_held hnew c (by rw [hphase]; rfl) (Option.some.inj haccepted)

attribute [local grind =] Phase.held Phase.accepted Phase.object

omit [DecidableEq C] in
theorem Single.issue (h : Invariant w) (hnew : w.issued row.token = none)
    (hfree : w.db.findToken row.token = none)
    (hold : token ≠ row.token → Single w token) : Single (w.issue row hfree) token := by
  have hdb : ∀ other, (w.issue row hfree).db.findToken other =
      if other = row.token then some row else w.db.findToken other :=
    findToken_insert w.db row hfree
  have hphase : ∀ c, (w.issue row hfree).phase c = w.phase c := fun _ => rfl
  have hu : ∀ c other, HasUsed (w.issue row hfree) c other ↔ HasUsed w c other :=
    fun _ _ => Iff.rfl
  have hnow : (w.issue row hfree).now = w.now := rfl
  have hheld : ∀ c object, (w.phase c).held = some object → object.token ≠ row.token :=
    fun c _ hobject => h.not_held hnew c (object_of_held hobject)
  have hused := h.not_used hnew
  by_cases htoken : token = row.token
  · subst htoken
    constructor <;> grind
  · obtain ⟨hcurrent, hholders, hexpiring, hrow, hchecking, hused, huser⟩ := hold htoken
    constructor <;> grind

omit [DecidableEq C] in
theorem Multi.issue (h : Invariant w) (hnew : w.issued row.token = none)
    (hfree : w.db.findToken row.token = none) (hold : object.token ≠ row.token → Multi w object)
    (hsame : object.token = row.token → object = row) : Multi (w.issue row hfree) object := by
  have hdb : ∀ other, (w.issue row hfree).db.findToken other =
      if other = row.token then some row else w.db.findToken other :=
    findToken_insert w.db row hfree
  have hphase : ∀ c, (w.issue row hfree).phase c = w.phase c := fun _ => rfl
  have hu : ∀ c other, HasUsed (w.issue row hfree) c other ↔ HasUsed w c other :=
    fun _ _ => Iff.rfl
  have hnow : (w.issue row hfree).now = w.now := rfl
  have hheld : ∀ c other, (w.phase c).held = some other → other.token ≠ row.token :=
    fun c _ hother => h.not_held hnew c (object_of_held hother)
  have hdeleted : ∀ c other, w.phase c = .deleting other → other.token ≠ row.token :=
    fun c _ hother => h.not_held hnew c (by rw [hother]; rfl)
  by_cases htoken : object.token = row.token
  · obtain rfl := hsame htoken
    constructor <;> grind
  · obtain ⟨hpresent, hunused, hheld, hdeleting⟩ := hold htoken
    constructor <;> grind

omit [DecidableEq C] in
theorem invariant_issue (h : Invariant w) (hfree : w.db.findToken row.token = none)
    (hnew : w.issued row.token = none) (huser : ∃ user ∈ w.db.users, user.id = row.userId) :
    Invariant (w.issue row hfree) := by
  have hdb : ∀ other, (w.issue row hfree).db.findToken other =
      if other = row.token then some row else w.db.findToken other :=
    findToken_insert w.db row hfree
  have hissued : ∀ other, (w.issue row hfree).issued other =
      if other = row.token then some row else w.issued other :=
    fun other => Function.update_apply _ _ _ other
  have hcopy : ∀ object, CopyOf w object → CopyOf (w.issue row hfree) object := by
    rintro object ⟨other, hother, hsame⟩
    refine ⟨other, ?_, hsame⟩
    rw [hissued, if_neg ?_]
    · exact hother
    · intro heq
      rw [heq, hnew] at hother
      cases hother
  constructor
  · exact h.clock
  · intro token object hobject
    rw [hissued] at hobject
    split at hobject
    · rename_i heq
      obtain rfl := Option.some.inj hobject
      exact ⟨heq.symm, huser⟩
    · exact h.issued token object hobject
  · intro token object hobject
    rw [hdb] at hobject
    split at hobject
    · obtain rfl := Option.some.inj hobject
      exact ⟨row, by rw [hissued, if_pos rfl], ⟨rfl, rfl, rfl, rfl⟩, le_refl _⟩
    · exact hcopy object (h.stored token object hobject)
  · exact fun c object hobject => hcopy object (h.object c object hobject)
  · intro c object stored hobject hfind
    rw [hdb, if_neg (h.not_held hnew c hobject)] at hfind
    exact h.later c object stored hobject hfind
  · exact h.expiring
  · exact h.deleting
  · intro c token hmem
    obtain ⟨other, hother⟩ := h.logged c token hmem
    obtain heq | hne := eq_or_ne token row.token
    · exact ⟨row, by rw [hissued, if_pos heq]⟩
    · exact ⟨other, by rw [hissued, if_neg hne]; exact hother⟩
  · intro token object hobject hsingle
    refine Single.issue h hnew hfree ?_
    intro hne
    rw [hissued, if_neg hne] at hobject
    exact h.single token object hobject hsingle
  · intro token object hobject hmulti
    rw [hissued] at hobject
    split at hobject
    · obtain rfl := Option.some.inj hobject
      exact Multi.issue h hnew hfree (fun hne => absurd rfl hne) fun _ => rfl
    · rename_i hne
      rw [← (h.issued token object hobject).1] at hne
      exact Multi.issue h hnew hfree (fun _ => h.multi token object hobject hmulti)
        fun heq => absurd heq hne

end Issue

theorem invariant_step {a : Action C} (h : Invariant w) (hs : Step w a w') (hok : StepOk w a) :
    Invariant w' := by
  cases hs with
  | tick hle => exact invariant_tick h hle
  | issue hfree hnew huser => exact invariant_issue h hfree hnew huser
  | present hc => exact invariant_release h (by rw [hc]; rfl) rfl
  | find hc => exact invariant_find h hc hok
  | check hc => exact invariant_check h hc
  | delete hc => exact invariant_delete h hc
  | use hc => exact invariant_use h hc
  | loadUser hc => exact invariant_loadUser h hc

end StepLemmas

section Laws

variable {C : Type*} [DecidableEq C] {w w' : World C} {a : Action C} {c : C}
  {object row : UserToken} {token : String}

/-- The connection that takes the step. -/
def Action.actor : Action C → Option C
  | .tick _ | .issue _ => none
  | .present c _ | .find c | .check c | .delete c | .use c | .loadUser c => some c

theorem phase_setPhase_ne {d : C} (w : World C) (phase : Phase) (hd : some c ≠ some d) :
    (w.setPhase c phase).phase d = w.phase d :=
  Function.update_of_ne (fun heq => hd (congrArg some heq.symm)) _ _

/-- The other connections stay where they are. -/
theorem phase_other {d : C} (hs : Step w a w') (hd : a.actor ≠ some d) :
    w'.phase d = w.phase d := by
  cases hs with
  | tick _ | issue _ _ _ => rfl
  | present _ => exact phase_setPhase_ne w _ hd
  | find _ =>
    unfold World.find
    split
    · exact phase_setPhase_ne w _ hd
    · exact phase_setPhase_ne w _ hd
  | check _ =>
    unfold World.check
    split
    · exact phase_setPhase_ne w _ hd
    · exact phase_setPhase_ne w _ hd
  | delete _ => exact phase_setPhase_ne _ _ hd
  | use _ =>
    unfold World.use
    split
    · exact phase_setPhase_ne _ _ hd
    · exact phase_setPhase_ne _ _ hd
  | loadUser _ =>
    unfold World.loadUser
    split
    · exact phase_setPhase_ne w _ hd
    · exact phase_setPhase_ne w _ hd

theorem phase_setPhase (w : World C) (c : C) (phase : Phase) :
    (w.setPhase c phase).phase c = phase :=
  Function.update_self _ _ _

omit [DecidableEq C] in
/-- A row that is held and not expired is the row of its token. -/
theorem Invariant.notExpired (h : Invariant w) (hc : (w.phase c).held = some object)
    (hle : w.now ≤ object.expiration) : NotExpired w object.token := by
  obtain ⟨row, hissued, -, hrow⟩ := h.object c object (object_of_held hc)
  refine ⟨row, hissued, Nat.le_trans hle hrow, ?_⟩
  intro hsingle
  refine ⟨object, ?_, (notExpired_iff _ _).mpr hle⟩
  rcases (h.single _ row hissued hsingle).current c object hc rfl with hfind | hlt
  · exact hfind
  · exact absurd hlt (Nat.not_lt.mpr hle)

/-- A connection that has a multi-use token keeps it until it is authenticated by it. -/
theorem multi_step (h : Invariant w) (hs : Step w a w') (ha : a.actor = some c)
    (hc : (w.phase c).token = some token) (hissued : w.issued token = some row)
    (hmulti : row.multiUse = true) (hle : w.now ≤ row.expiration) :
    (w'.phase c).token = some token ∨ w'.authenticatedBy c = token :: w.authenticatedBy c := by
  have hrow := h.multi token row hissued hmulti
  have htoken := (h.issued token row hissued).1
  cases hs with
  | tick _ | issue _ _ _ => cases ha
  | present hidle =>
    obtain rfl := Option.some.inj ha
    rw [hidle] at hc
    cases hc
  | find hphase =>
    obtain rfl := Option.some.inj ha
    rw [hphase] at hc
    obtain rfl := Option.some.inj hc
    obtain ⟨stored, hfind⟩ := hrow.present hle
    rw [htoken] at hfind
    unfold World.find
    rw [hfind]
    left
    rw [phase_setPhase]
    exact congrArg some (findToken_token hfind)
  | check hphase =>
    obtain rfl := Option.some.inj ha
    rw [hphase] at hc
    unfold World.check
    left
    split
    · rw [phase_setPhase]
      exact hc
    · rw [phase_setPhase]
      exact hc
  | delete hphase =>
    obtain rfl := Option.some.inj ha
    rw [hphase] at hc
    have hlt := hrow.deleting _ _ hphase (htoken ▸ Option.some.inj hc)
    exact absurd hlt (Nat.not_lt.mpr hle)
  | use hphase =>
    obtain rfl := Option.some.inj ha
    rw [hphase] at hc
    obtain rfl := Option.some.inj hc
    obtain ⟨stored, hfind⟩ := hrow.present hle
    rw [htoken] at hfind
    obtain ⟨db', huse, -⟩ := use_eq (h.expiring _ _ hphase) hfind
    rw [huse, phase_setPhase]
    exact Or.inl rfl
  | loadUser hphase =>
    obtain rfl := Option.some.inj ha
    rw [hphase] at hc
    obtain rfl := Option.some.inj hc
    rw [loadUser_eq h hphase]
    exact Or.inr (Function.update_self _ _ _)

theorem lawful_step (h : Invariant w) (hs : Step w a w') : Lawful w a w' := by
  constructor
  · intro c object hc hc'
    by_cases ha : a.actor = some c
    · cases hs with
      | tick _ | issue _ _ _ => cases ha
      | present hphase | find hphase | delete hphase | use hphase | loadUser hphase =>
        obtain rfl := Option.some.inj ha
        rw [hc] at hphase
        cases hphase
      | check hphase =>
        obtain rfl := Option.some.inj ha
        rw [hc] at hphase
        cases hphase
        refine h.notExpired (c := _) (by rw [hc]; rfl) ?_
        rw [← notExpired_iff]
        by_contra hexpired
        unfold World.check at hc'
        rw [if_pos (by simpa using hexpired), phase_setPhase] at hc'
        cases hc'
    · rw [phase_other hs ha, hc] at hc'
      cases hc'
  · intro c token row hc hissued hmulti hle
    by_cases ha : a.actor = some c
    · exact multi_step h hs ha hc hissued hmulti hle
    · rw [phase_other hs ha]
      exact Or.inl hc

omit [DecidableEq C] in
theorem Invariant.singleUse (h : Invariant w) : SingleUse w := by
  intro token row hissued hsingle c c' hc hc'
  exact (h.single token row hissued hsingle).user c c' (Or.inl hc) (Or.inl hc')

theorem invariant_init (h : (tokenSystem C).init w) : Invariant w := by
  obtain ⟨hclock, hissued, husers, hidle, hlog⟩ := h
  have hobject : ∀ c object, (w.phase c).object ≠ some object := by
    intro c object hc
    rw [hidle] at hc
    cases hc
  have hheld : ∀ c object, (w.phase c).held ≠ some object :=
    fun c object hc => hobject c object (object_of_held hc)
  have hphase : ∀ c phase, phase ≠ Phase.idle → w.phase c ≠ phase := by
    intro c phase hne heq
    exact hne (heq.symm.trans (hidle c))
  have hused : ∀ c token, ¬ HasUsed w c token := by
    rintro c token (hmem | haccepted)
    · rw [hlog] at hmem
      cases hmem
    · rw [hidle] at haccepted
      cases haccepted
  refine ⟨hclock, ?_, ?_, ?_, ?_, ?_, ?_, ?_, ?_, ?_⟩
  · intro token row hrow
    rw [hissued] at hrow
    exact ⟨findToken_token hrow, husers row (findToken_mem hrow)⟩
  · intro token object hfind
    refine ⟨object, ?_, ⟨rfl, rfl, rfl, rfl⟩, le_refl _⟩
    rw [hissued, findToken_token hfind]
    exact hfind
  · exact fun c object hc => absurd hc (hobject c object)
  · exact fun c object _ hc => absurd hc (hobject c object)
  · exact fun c object hc => absurd hc (hphase c _ (by rintro ⟨⟩))
  · exact fun c object hc => absurd hc (hphase c _ (by rintro ⟨⟩))
  · exact fun c token hmem => absurd (Or.inl hmem) (hused c token)
  · intro token row _ _
    exact ⟨fun c object hc => absurd hc (hheld c object),
      fun c _ object _ _ hc => absurd hc (hheld c object),
      fun c _ _ _ hc => absurd hc (hphase c _ (by rintro ⟨⟩)),
      fun c _ hc => absurd hc (hused c token), fun c _ _ hc => absurd hc (hused c token),
      fun c _ _ hc => absurd hc (hused c token), fun c _ hc => absurd hc (hused c token)⟩
  · intro token row hrow _
    have htoken : row.token = token := by
      rw [hissued] at hrow
      exact findToken_token hrow
    have hfind : w.db.findToken row.token = some row := by rw [htoken, ← hissued, hrow]
    exact ⟨fun _ => ⟨row, hfind⟩, fun _ _ => hfind,
      fun c object hc => absurd hc (hheld c object),
      fun c _ hc => absurd hc (hphase c _ (by rintro ⟨⟩))⟩

end Laws

section TwoConnections

theorem acme_nodup :
    ([{ id := 2, name := "acme", blocked := false }].map Tenant.id).Nodup := by simp

theorem alice_nodup :
    ([{ id := 5, login := "alice", tenantId := 2, blocked := false
        password := "K7gNU3sdo+OL0wNhqoVWhr3g6s1xYv72ol/pe/Unols" }].map User.id).Nodup := by simp

/-- One user with one token. -/
def oneToken (multiUse : Bool) : Db where
  tenants := [{ id := 2, name := "acme", blocked := false }]
  users := [{ id := 5, login := "alice", tenantId := 2, blocked := false
              password := "K7gNU3sdo+OL0wNhqoVWhr3g6s1xYv72ol/pe/Unols" }]
  userTokens := [{ token := "t0k3n", userId := 5, vmId := none, expiration := 2000,
                   multiUse := multiUse }]
  tenants_nodup := acme_nodup
  users_nodup := alice_nodup
  userTokens_nodup := by simp

/-- Connections that have not presented a token. -/
def World.start (C : Type) (multiUse : Bool) : World C where
  now := 1000
  db := oneToken multiUse
  issued := (oneToken multiUse).findToken
  phase _ := .idle
  authenticatedBy _ := []

theorem start_run (C : Type) [DecidableEq C] (multiUse : Bool) :
    (tokenSystem C).Run [] (World.start C multiUse) := by
  refine .start ⟨Nat.succ_pos 999, fun _ => rfl, ?_, fun _ => rfl, fun _ => rfl⟩
  intro row hrow
  obtain rfl := List.mem_singleton.mp hrow
  exact ⟨_, List.mem_singleton_self _, rfl⟩

/-- The steps of connections that go on in the given order, before the run so far. -/
def turns {C : Type} [DecidableEq C] (past : List (World C × Action C)) (w : World C) :
    List C → List (World C × Action C)
  | [] => past
  | c :: rest => turns ((w, w.nextAction c) :: past) (w.next c) rest

theorem run_turns {C : Type} [DecidableEq C] (order : List C)
    {past : List (World C × Action C)} {w : World C} (run : (tokenSystem C).Run past w) :
    (tokenSystem C).Run (turns past w order) (order.foldl World.next w) := by
  induction order generalizing past w with
  | nil => exact run
  | cons c rest ih => exact ih (run.extend (step_next w c))

/-- Two connections have presented the token. -/
def bothPresent (multiUse : Bool) : World Bool :=
  ((World.start Bool multiUse).setPhase false (.finding "t0k3n")).setPhase true
    (.finding "t0k3n")

theorem bothPresent_run (multiUse : Bool) :
    ∃ past, (tokenSystem Bool).Run past (bothPresent multiUse) :=
  ⟨_, ((start_run Bool multiUse).extend (.present rfl)).extend (.present rfl)⟩

end TwoConnections

end Qvd.TokenLifecycle
