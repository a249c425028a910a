import Qvd.TagUniqueness

/-!
The requests that delete objects, image by image or row by row: the conditions that are checked
first, some of which write, the deletion of the row, and what is left of an object whose deletion
fails.
-/
namespace Qvd.ObjectDeletion

open DiskImages TagRows TagUniqueness

section Loop

variable {T W F : Type*} (one : T → W → W × Option F)

/-- The loop over the selected objects. What one of them throws is kept, and the loop goes on. -/
def loop : List T → W → W × List (T × F)
  | [], w => (w, [])
  | turn :: rest, w =>
    let failures := ((one turn w).2.map fun failure => (turn, failure)).toList
    let after := loop rest (one turn w).1
    (after.1, failures ++ after.2)

/-- Every turn of the loop has the property in the state it finds. -/
def EachTurn (P : T → W → Prop) : List T → W → Prop
  | [], _ => True
  | turn :: rest, w => P turn w ∧ EachTurn P rest (one turn w).1

/-- The objects that are deleted. -/
def succeeded : List T → W → List T
  | [], _ => []
  | turn :: rest, w =>
    if (one turn w).2.isNone then turn :: succeeded rest (one turn w).1
    else succeeded rest (one turn w).1

/-- The checks in their order; the first to throw ends them, and what they have written stays. -/
def inTurn : List (T → W → W × Option F) → T → W → W × Option F
  | [], _, w => (w, none)
  | condition :: rest, turn, w =>
    match condition turn w with
    | (w, some failure) => (w, some failure)
    | (w, none) => inTurn rest turn w

variable {one}

theorem EachTurn.mono {P Q : T → W → Prop} (h : ∀ turn w, P turn w → Q turn w) {turns : List T}
    {w : W} (hP : EachTurn one P turns w) : EachTurn one Q turns w := by
  induction turns generalizing w with
  | nil => trivial
  | cons turn rest ih => exact ⟨h turn w hP.1, ih hP.2⟩

theorem eachTurn_iff {P Q : T → W → Prop} (h : ∀ turn w, P turn w ↔ Q turn w) (turns : List T)
    (w : W) : EachTurn one P turns w ↔ EachTurn one Q turns w :=
  ⟨.mono fun turn w => (h turn w).mp, .mono fun turn w => (h turn w).mpr⟩

theorem eachTurn_of_forall {P : T → W → Prop} (h : ∀ turn w, P turn w) (turns : List T) (w : W) :
    EachTurn one P turns w := by
  induction turns generalizing w with
  | nil => trivial
  | cons turn rest ih => exact ⟨h turn w, ih _⟩

/-- When what fails leaves no trace, the loop is the one over the objects that are deleted. -/
theorem loop_succeeded (turns : List T) (w : W)
    (h : EachTurn one (fun turn w => (one turn w).2 ≠ none → (one turn w).1 = w) turns w) :
    loop one (succeeded one turns w) w = ((loop one turns w).1, []) := by
  induction turns generalizing w with
  | nil => rfl
  | cons turn rest ih =>
    obtain ⟨hturn, hrest⟩ := h
    unfold succeeded
    cases hfails : (one turn w).2 with
    | none =>
      rw [Option.isNone_none, if_pos rfl]
      simp only [loop, ih _ hrest, hfails, Option.map_none, Option.toList_none, List.nil_append]
    | some failure =>
      rw [Option.isNone_some, if_neg Bool.false_ne_true]
      have hsame : (one turn w).1 = w := hturn (by simp [hfails])
      rw [hsame] at hrest ⊢
      rw [ih _ hrest]
      simp only [loop, hsame]

theorem inTurn_cons_none {condition : T → W → W × Option F} {turn : T} {w w' : W}
    (h : condition turn w = (w', none)) (rest : List (T → W → W × Option F)) :
    inTurn (condition :: rest) turn w = inTurn rest turn w' := by
  rw [inTurn, h]

theorem inTurn_cons_some {condition : T → W → W × Option F} {turn : T} {w w' : W} {failure : F}
    (h : condition turn w = (w', some failure)) (rest : List (T → W → W × Option F)) :
    inTurn (condition :: rest) turn w = (w', some failure) := by
  rw [inTurn, h]

theorem inTurn_singleton (condition : T → W → W × Option F) (turn : T) (w : W) :
    inTurn [condition] turn w = condition turn w := by
  cases h : condition turn w with
  | mk w' failure =>
    cases failure with
    | none => exact inTurn_cons_none h []
    | some failure => exact inTurn_cons_some h []

/-- When all but the last step only read, and the last one leaves no trace when it fails, then
the whole leaves none. -/
theorem unchanged_of_reading {conditions : List (T → W → W × Option F)}
    {last : T → W → W × Option F} {turn : T} {w : W}
    (hreads : ∀ condition ∈ conditions, (condition turn w).1 = w)
    (hlast : (last turn w).2 ≠ none → (last turn w).1 = w)
    (hfails : (inTurn (conditions ++ [last]) turn w).2 ≠ none) :
    (inTurn (conditions ++ [last]) turn w).1 = w := by
  induction conditions with
  | nil =>
    rw [List.nil_append, inTurn_singleton] at hfails ⊢
    exact hlast hfails
  | cons condition rest ih =>
    obtain ⟨hcondition, hrest⟩ := List.forall_mem_cons.mp hreads
    rw [List.cons_append] at hfails ⊢
    cases hresult : condition turn w with
    | mk w' failure =>
      rw [hresult] at hcondition
      obtain rfl : w' = w := hcondition
      cases failure with
      | some failure => rw [inTurn_cons_some hresult]
      | none =>
        rw [inTurn_cons_none hresult] at hfails ⊢
        exact ih hrest hfails

end Loop

section Rows

/-- A row of another table, with the state in its runtime row. -/
structure Row where
  table : String
  id : ℕ
  state : String
deriving DecidableEq

/-- The deletion of a row: whether the query about a configuration token is answered, and
whether the database accepts the deletion. -/
structure RowTurn where
  row : Row
  queried : Bool
  accepted : Bool
deriving DecidableEq

def vmIsStopped (turn : RowTurn) : Option Failure :=
  if turn.row.state = "stopped" then none else some (.exception 7310)

def hostIsNotRunning (turn : RowTurn) : Option Failure :=
  if turn.row.state ≠ "running" then none else some (.exception 7321)

def isCustomConfig (turn : RowTurn) : Option Failure :=
  if turn.queried then none else some (.exception 7370)

/-- The requests but the one for images. -/
inductive Method
  | delete | vmDelete | hostDelete | configDelete
deriving DecidableEq

def Method.conditions : Method → List (RowTurn → Option Failure)
  | .delete => []
  | .vmDelete => [vmIsStopped]
  | .hostDelete => [hostIsNotRunning]
  | .configDelete => [isCustomConfig]

def deleteRow (turn : RowTurn) (rows : List Row) : List Row × Option Failure :=
  if turn.accepted then (rows.filter (· ≠ turn.row), none) else (rows, some .constraint)

/-- One round of the loop of `delete`. -/
def Method.deleteOne (method : Method) : RowTurn → List Row → List Row × Option Failure :=
  inTurn (method.conditions.map (fun condition turn rows => (rows, condition turn)) ++
    [deleteRow])

end Rows

section Images

/-- The database and the files of the disk images. -/
structure World where
  db : Database
  files : List String
deriving DecidableEq

/-- The deletion of an image: which new tags the database accepts, whether the file can be
unlinked, and whether the database accepts the deletion of the row. -/
structure DiTurn where
  di : Di
  tagAccepted : String → Bool
  unlinks : Bool
  accepted : Bool

variable (images : Option String)

def diNoVmRuntimes (turn : DiTurn) (w : World) : World × Option Failure :=
  (w, if DiskImages.diNoVmRuntimes w.db.toTables turn.di then none else some (.exception 7320))

def diNoDependantVms (turn : DiTurn) (w : World) : World × Option Failure :=
  (w, if DiskImages.diNoDependantVms w.db.toTables turn.di then none
    else some (.exception 7120))

/-- A tag of the image is to be put on another one. -/
def gives (tag : String) (turn : DiTurn) (w : World) : Bool :=
  turn.di.state = .published && hasTag w.db.toTables turn.di tag &&
    !(potentials w.db.toTables turn.di).isEmpty

/-- One round of `di_no_head_default_tags`. -/
def diNoHeadDefaultTag (tag : String) (turn : DiTurn) (w : World) : World × Option Failure :=
  if gives tag turn w && !turn.tagAccepted tag then (w, some .constraint)
  else
    match DiskImages.diNoHeadDefaultTag tag turn.di w.db with
    | .ok db => ({ w with db := db }, none)
    | .error failure => (w, some failure)

def diNoHeadDefaultTags : DiTurn → World → World × Option Failure :=
  inTurn [diNoHeadDefaultTag "default", diNoHeadDefaultTag "head"]

/-- The file of an image, when there is a directory for them. -/
def imageFile (di : Di) : Option String :=
  images.map fun path => path ++ "/" ++ di.path

/-- `di_delete_disk_image`; that the file cannot be unlinked is no failure. -/
def diDeleteDiskImage (turn : DiTurn) (w : World) : World × Option Failure :=
  if turn.unlinks then
    ({ w with files := w.files.filter (fun file => some file ≠ imageFile images turn.di) }, none)
  else (w, none)

def deletedRow (db : Database) (di : Di) : Database :=
  ⟨deleteDi db.toTables di, valid_deleteDi db.valid di⟩

def deleteDiRow (turn : DiTurn) (w : World) : World × Option Failure :=
  if turn.accepted then ({ w with db := deletedRow w.db turn.di }, none)
  else (w, some .constraint)

/-- One round of the loop of `di_delete`. -/
def diDeleteOne : DiTurn → World → World × Option Failure :=
  inTurn [diNoVmRuntimes, diNoDependantVms, diNoHeadDefaultTags, diDeleteDiskImage images,
    deleteDiRow]

end Images

/-- A request with the objects it selects. -/
inductive Request
  | rows (method : Method) (turns : List RowTurn)
  | images (turns : List DiTurn)

section Law

variable (images : Option String)

/-- The tags of the other images of the flavour. -/
def otherTags (di : Di) (w : World) : List DiTag :=
  w.db.diTags.filter (onOther w.db.toTables di)

/-- An image is as it was: its row, its tags, those of the other images of its flavour, and its
file. -/
structure SameImage (di : Di) (w w' : World) : Prop where
  row : di ∈ w'.db.dis ↔ di ∈ w.db.dis
  tags : w'.db.diTags.filter (fun row => row.diId = di.id) =
    w.db.diTags.filter (fun row => row.diId = di.id)
  others : otherTags di w' = otherTags di w
  file : ∀ file, imageFile images di = some file → (file ∈ w'.files ↔ file ∈ w.files)

/-- An object whose deletion fails is left as it was, and the other ones fare as without it. -/
def Request.Whole (rows : List Row) (w : World) : Request → Prop
  | .rows method turns =>
    EachTurn method.deleteOne (fun turn rows => (method.deleteOne turn rows).2 ≠ none →
      (turn.row ∈ (method.deleteOne turn rows).1 ↔ turn.row ∈ rows)) turns rows ∧
    loop method.deleteOne (succeeded method.deleteOne turns rows) rows =
      ((loop method.deleteOne turns rows).1, [])
  | .images turns =>
    EachTurn (diDeleteOne images) (fun turn w => (diDeleteOne images turn w).2 ≠ none →
      SameImage images turn.di w (diDeleteOne images turn w).1) turns w ∧
    loop (diDeleteOne images) (succeeded (diDeleteOne images) turns w) w =
      ((loop (diDeleteOne images) turns w).1, [])

/-- The image can be deleted as far as the machines go. -/
def Unused (turn : DiTurn) (w : World) : Prop :=
  DiskImages.diNoVmRuntimes w.db.toTables turn.di = true ∧
    DiskImages.diNoDependantVms w.db.toTables turn.di = true

def Refused (tag : String) (turn : DiTurn) (w : World) : Prop :=
  gives tag turn w = true ∧ turn.tagAccepted tag = false

/-- There is a file to be unlinked. -/
def Unlinks (turn : DiTurn) (w : World) : Prop :=
  turn.unlinks = true ∧ ∃ file ∈ w.files, imageFile images turn.di = some file

/-- An image that no machine needs fails before anything has been written for it: at its first
tag that is to be put on another image, or with no such tag and no file; or it does not fail. -/
def Clean (turn : DiTurn) (w : World) : Prop :=
  Unused turn w →
    Refused "default" turn w ∨
    (gives "default" turn w = false ∧ Refused "head" turn w) ∨
    (¬Refused "default" turn w ∧ ¬Refused "head" turn w ∧ (turn.accepted = true ∨
      (gives "default" turn w = false ∧ gives "head" turn w = false ∧ ¬Unlinks images turn w)))

def Request.Clean (w : World) : Request → Prop
  | .rows _ _ => True
  | .images turns => EachTurn (diDeleteOne images) (ObjectDeletion.Clean images) turns w

end Law

section Rounds

variable {images : Option String} {turn : DiTurn} {w : World} {tag : String}

theorem gives_iff : gives tag turn w = true ↔ GivesAway w.db.toTables turn.di tag := by
  simp only [gives, Bool.and_eq_true, decide_eq_true_eq, hasTag_iff, Bool.not_eq_eq_eq_not,
    Bool.not_true, List.isEmpty_eq_false_iff, GivesAway]
  exact ⟨fun ⟨⟨hstate, hcarries⟩, hothers⟩ => ⟨hstate, hothers, hcarries⟩,
    fun ⟨hstate, hothers, hcarries⟩ => ⟨⟨hstate, hcarries⟩, hothers⟩⟩

/-- The state after a round that puts the tag on another image if there is one. -/
def given (tag : String) (turn : DiTurn) (w : World) : World :=
  { w with db := reassigned w.db tag turn.di }

theorem diNoHeadDefaultTag_of_refused (h : Refused tag turn w) :
    diNoHeadDefaultTag tag turn w = (w, some .constraint) := by
  unfold diNoHeadDefaultTag
  rw [h.1, h.2]
  rfl

theorem diNoHeadDefaultTag_of_not (h : ¬Refused tag turn w) :
    diNoHeadDefaultTag tag turn w = (given tag turn w, none) := by
  unfold diNoHeadDefaultTag
  rw [if_neg, diNoHeadDefaultTag_ok]
  · rfl
  · intro hboth
    simp only [Bool.and_eq_true, Bool.not_eq_eq_eq_not, Bool.not_true] at hboth
    exact h hboth

theorem database_ext {db db' : Database} (h : db.toTables = db'.toTables) : db = db' := by
  cases db
  cases db'
  cases h
  rfl

theorem given_of_not (h : gives tag turn w = false) : given tag turn w = w := by
  have hnot : ¬GivesAway w.db.toTables turn.di tag := by
    rw [← gives_iff, h]
    exact Bool.false_ne_true
  have hsame : (reassigned w.db tag turn.di).toTables = w.db.toTables := reassign_eq_self hnot
  rw [given, database_ext hsame]

/-- What is put on another image before is not in the way of the tag head. -/
theorem gives_given : gives "head" turn (given "default" turn w) = gives "head" turn w := by
  rw [Bool.eq_iff_iff, gives_iff, gives_iff]
  have hcarries : Carries (reassign w.db.toTables "default" turn.di) turn.di.id "head" ↔
      Carries w.db.toTables turn.di.id "head" := by
    rw [carries_reassign]
    simp
  show GivesAway (reassign w.db.toTables "default" turn.di) turn.di "head" ↔ _
  simp only [GivesAway, hcarries, potentials, reassign_dis]

theorem refused_given : Refused "head" turn (given "default" turn w) ↔ Refused "head" turn w := by
  rw [Refused, gives_given, Refused]

/-- A tag that is put on another image is one more row there. -/
theorem others_given (h : gives tag turn w = true) :
    (otherTags turn.di (given tag turn w)).length = (otherTags turn.di w).length + 1 := by
  obtain ⟨hstate, hothers, hcarries⟩ := gives_iff.mp h
  have hother : onOther (given tag turn w).db.toTables turn.di =
      onOther w.db.toTables turn.di := by
    funext row
    simp only [onOther, inOsf, given, reassigned, reassign_dis]
  have hlast := List.getLast?_eq_some_getLast hothers
  obtain ⟨hnew, hosf, hid, -⟩ := mem_potentials.mp (List.getLast_mem hothers)
  have hrows : (given tag turn w).db.diTags = w.db.diTags ++
      [{ diId := ((potentials w.db.toTables turn.di).getLast hothers).id, tag := tag
         fixed := false }] := by
    show (reassign w.db.toTables tag turn.di).diTags = _
    unfold reassign
    rw [if_pos ⟨hstate, hasTag_iff.mpr hcarries⟩, hlast]
  rw [otherTags, otherTags, hother, hrows, List.filter_append, List.length_append,
    List.filter_cons_of_pos]
  · rfl
  · simp only [onOther, inOsf, Bool.and_eq_true, List.any_eq_true, bne_iff_ne, ne_eq,
      decide_eq_true_eq]
    exact ⟨⟨_, hnew, rfl, hosf⟩, hid⟩

/-- The state before the row is deleted. -/
def cleared (images : Option String) (turn : DiTurn) (w : World) : World :=
  (diDeleteDiskImage images turn (given "head" turn (given "default" turn w))).1

theorem diNoVmRuntimes_of_true (h : DiskImages.diNoVmRuntimes w.db.toTables turn.di = true) :
    diNoVmRuntimes turn w = (w, none) := by
  rw [diNoVmRuntimes, h, if_pos rfl]

theorem diDeleteOne_of_used (h : ¬Unused turn w) :
    ∃ failure, diDeleteOne images turn w = (w, some failure) := by
  by_cases hruntimes : DiskImages.diNoVmRuntimes w.db.toTables turn.di = true
  · have hvms : DiskImages.diNoDependantVms w.db.toTables turn.di ≠ true :=
      fun hvms => h ⟨hruntimes, hvms⟩
    refine ⟨.exception 7120, (inTurn_cons_none (diNoVmRuntimes_of_true hruntimes) _).trans ?_⟩
    exact inTurn_cons_some (by rw [diNoDependantVms, if_neg hvms]) _
  · exact ⟨.exception 7320, inTurn_cons_some (by rw [diNoVmRuntimes, if_neg hruntimes]) _⟩

/-- The round of an image that no machine needs. -/
theorem diDeleteOne_of_unused (h : Unused turn w) : diDeleteOne images turn w =
    inTurn [diNoHeadDefaultTags, diDeleteDiskImage images, deleteDiRow] turn w :=
  (inTurn_cons_none (diNoVmRuntimes_of_true h.1) _).trans
    (inTurn_cons_none (by rw [diNoDependantVms, h.2, if_pos rfl]) _)

theorem diDeleteOne_of_default (h : Unused turn w) (hdefault : Refused "default" turn w) :
    diDeleteOne images turn w = (w, some .constraint) := by
  rw [diDeleteOne_of_unused h]
  exact inTurn_cons_some (inTurn_cons_some (diNoHeadDefaultTag_of_refused hdefault) _) _

theorem diDeleteOne_of_head (h : Unused turn w) (hdefault : ¬Refused "default" turn w)
    (hhead : Refused "head" turn w) :
    diDeleteOne images turn w = (given "default" turn w, some .constraint) := by
  have hrefused := diNoHeadDefaultTag_of_refused (refused_given.mpr hhead)
  rw [diDeleteOne_of_unused h]
  refine inTurn_cons_some ?_ _
  rw [diNoHeadDefaultTags, inTurn_cons_none (diNoHeadDefaultTag_of_not hdefault)]
  exact inTurn_cons_some hrefused _

theorem diDeleteDiskImage_ok (images : Option String) (turn : DiTurn) (w : World) :
    diDeleteDiskImage images turn w = ((diDeleteDiskImage images turn w).1, none) := by
  unfold diDeleteDiskImage
  split
  · rfl
  · rfl

theorem diDeleteOne_of_ok (h : Unused turn w) (hdefault : ¬Refused "default" turn w)
    (hhead : ¬Refused "head" turn w) :
    diDeleteOne images turn w = deleteDiRow turn (cleared images turn w) := by
  have hgiven := diNoHeadDefaultTag_of_not (mt refused_given.mp hhead)
  have htags : diNoHeadDefaultTags turn w =
      (given "head" turn (given "default" turn w), none) := by
    rw [diNoHeadDefaultTags, inTurn_cons_none (diNoHeadDefaultTag_of_not hdefault),
      inTurn_singleton, hgiven]
  rw [diDeleteOne_of_unused h, inTurn_cons_none htags,
    inTurn_cons_none (diDeleteDiskImage_ok images turn _), inTurn_singleton]
  rfl

/-- One round after the other: only a tag that is put on another image changes the others. -/
theorem others_cleared (h : otherTags turn.di (cleared images turn w) = otherTags turn.di w) :
    gives "default" turn w = false ∧ gives "head" turn w = false := by
  have hfile : otherTags turn.di (cleared images turn w) =
      otherTags turn.di (given "head" turn (given "default" turn w)) := by
    unfold cleared diDeleteDiskImage
    split
    · rfl
    · rfl
  have hlength := congrArg List.length (hfile.symm.trans h)
  have hhead : gives "head" turn w = false →
      given "head" turn (given "default" turn w) = given "default" turn w := by
    intro hnot
    exact given_of_not (gives_given.trans hnot)
  have hadds : gives "head" turn w = true →
      (otherTags turn.di (given "head" turn (given "default" turn w))).length =
        (otherTags turn.di (given "default" turn w)).length + 1 := by
    intro hgives
    exact others_given (gives_given.trans hgives)
  cases hdefault : gives "default" turn w with
  | true =>
    have hone := others_given hdefault
    cases hgives : gives "head" turn w with
    | true =>
      have htwo := hadds hgives
      omega
    | false =>
      rw [hhead hgives] at hlength
      omega
  | false =>
    rw [given_of_not hdefault] at hlength hadds
    cases hgives : gives "head" turn w with
    | true =>
      have hone := hadds hgives
      omega
    | false => exact ⟨rfl, rfl⟩

theorem SameImage.refl (images : Option String) (di : Di) (w : World) : SameImage images di w w :=
  ⟨Iff.rfl, rfl, rfl, fun _ _ => Iff.rfl⟩

/-- Without tags to put elsewhere and without a file nothing is written before the row goes. -/
theorem cleared_eq_self (hdefault : gives "default" turn w = false)
    (hhead : gives "head" turn w = false) (hfile : ¬Unlinks images turn w) :
    cleared images turn w = w := by
  have hgiven : given "head" turn w = w := given_of_not hhead
  unfold cleared
  rw [given_of_not hdefault, hgiven]
  unfold diDeleteDiskImage
  split
  · rename_i hunlinks
    have hfiles : w.files.filter (fun file => some file ≠ imageFile images turn.di) = w.files := by
      rw [List.filter_eq_self]
      intro file hmem
      exact decide_eq_true fun hsame => hfile ⟨hunlinks, file, hmem, hsame.symm⟩
    rw [hfiles]
  · rfl

theorem not_sameImage_of_unlinks (h : Unlinks images turn w) :
    ¬SameImage images turn.di w (cleared images turn w) := by
  obtain ⟨hunlinks, file, hmem, hfile⟩ := h
  intro hsame
  have hkept := (hsame.file file hfile).mpr hmem
  unfold cleared diDeleteDiskImage at hkept
  rw [if_pos hunlinks] at hkept
  have hother := (List.mem_filter.mp hkept).2
  exact of_decide_eq_true hother hfile.symm

/-- The state an image leaves that is not clean is another one; that of a clean one that fails
is the same. -/
theorem unchanged_of_clean (hclean : Clean images turn w)
    (hfails : (diDeleteOne images turn w).2 ≠ none) : (diDeleteOne images turn w).1 = w := by
  by_cases hunused : Unused turn w
  · rcases hclean hunused with hdefault | ⟨hnot, hhead⟩ | ⟨hdefault, hhead, haccepted | hnothing⟩
    · rw [diDeleteOne_of_default hunused hdefault]
    · have hdefault : ¬Refused "default" turn w := by
        rintro ⟨hgives, -⟩
        rw [hnot] at hgives
        cases hgives
      rw [diDeleteOne_of_head hunused hdefault hhead]
      exact given_of_not hnot
    · rw [diDeleteOne_of_ok hunused hdefault hhead, deleteDiRow, if_pos haccepted] at hfails
      exact absurd rfl hfails
    · obtain ⟨hnot, hnot', hfile⟩ := hnothing
      rw [diDeleteOne_of_ok hunused hdefault hhead, cleared_eq_self hnot hnot' hfile]
      unfold deleteDiRow
      split
      · rename_i haccepted
        rw [diDeleteOne_of_ok hunused hdefault hhead, deleteDiRow, if_pos haccepted] at hfails
        exact absurd rfl hfails
      · rfl
  · have hused : ∃ failure, diDeleteOne images turn w = (w, some failure) :=
      diDeleteOne_of_used hunused
    obtain ⟨failure, hstopped⟩ := hused
    rw [hstopped]

theorem whole_iff_clean : ((diDeleteOne images turn w).2 ≠ none →
      SameImage images turn.di w (diDeleteOne images turn w).1) ↔ Clean images turn w := by
  constructor
  · intro hwhole hunused
    by_cases hdefault : Refused "default" turn w
    · exact Or.inl hdefault
    by_cases hhead : Refused "head" turn w
    · rw [diDeleteOne_of_head hunused hdefault hhead] at hwhole
      refine Or.inr (Or.inl ⟨?_, hhead⟩)
      by_contra hgives
      have hothers := (hwhole (by simp)).others
      have hlength := others_given (Bool.not_eq_false _ ▸ hgives)
      rw [hothers] at hlength
      omega
    · refine Or.inr (Or.inr ⟨hdefault, hhead, ?_⟩)
      by_cases haccepted : turn.accepted = true
      · exact Or.inl haccepted
      rw [diDeleteOne_of_ok hunused hdefault hhead, deleteDiRow, if_neg haccepted] at hwhole
      have hsame := hwhole (by simp)
      obtain ⟨hnot, hnot'⟩ := others_cleared hsame.others
      exact Or.inr ⟨hnot, hnot', fun hfile => not_sameImage_of_unlinks hfile hsame⟩
  · intro hclean hfails
    rw [unchanged_of_clean hclean hfails]
    exact SameImage.refl images turn.di w

end Rounds

theorem Method.unchanged_of_failure (method : Method) (turn : RowTurn) (rows : List Row)
    (hfails : (method.deleteOne turn rows).2 ≠ none) :
    (method.deleteOne turn rows).1 = rows := by
  refine unchanged_of_reading ?_ ?_ hfails
  · intro condition hmem
    obtain ⟨check, -, rfl⟩ := List.mem_map.mp hmem
    rfl
  · intro hlast
    unfold deleteRow at hlast ⊢
    split at hlast
    · exact absurd rfl hlast
    · rename_i hrejected
      rw [if_neg hrejected]

/-- In every request a deletion that fails leaves its object whole and the others alone exactly
if every image of the request is clean when its turn comes. -/
theorem whole_iff (images : Option String) (rows : List Row) (w : World) (request : Request) :
    request.Whole images rows w ↔ request.Clean images w := by
  cases request with
  | rows method turns =>
    refine iff_of_true ⟨?_, ?_⟩ trivial
    · refine eachTurn_of_forall (fun turn rows hfails => ?_) turns rows
      rw [method.unchanged_of_failure turn rows hfails]
    · exact loop_succeeded turns rows (eachTurn_of_forall method.unchanged_of_failure turns rows)
  | images turns =>
    show EachTurn _ _ _ _ ∧ _ ↔ EachTurn _ _ _ _
    rw [eachTurn_iff fun turn w => whole_iff_clean]
    refine and_iff_left_of_imp fun hclean => loop_succeeded turns w ?_
    exact hclean.mono fun turn w => unchanged_of_clean

section Rejected

/-- Two published images of one flavour, the older one with the tag head. -/
def twoImages : World where
  db := ⟨⟨[⟨1, 1, true, none, 512⟩],
    [⟨1, 1, "1", "1-old.tgz", false, .published⟩, ⟨2, 1, "2", "2-new.tgz", false, .published⟩],
    [⟨1, "head", false⟩], []⟩, by decide⟩
  files := ["/var/lib/qvd/storage/images/1-old.tgz"]

/-- The deletion of the older image, rejected by the database at its row. -/
def rejected : DiTurn where
  di := ⟨1, 1, "1", "1-old.tgz", false, .published⟩
  tagAccepted _ := true
  unlinks := true
  accepted := false

/-- The image whose deletion is rejected has lost its file, and another one has its tag. -/
theorem rejected_leaves_trace :
    (diDeleteOne (some "/var/lib/qvd/storage/images") rejected twoImages).2 =
        some .constraint ∧
      ¬(Request.images [rejected]).Whole (some "/var/lib/qvd/storage/images") [] twoImages := by
  refine ⟨by decide, fun hwhole => ?_⟩
  have hsame := hwhole.1.1 (by decide)
  have hfile := (hsame.file "/var/lib/qvd/storage/images/1-old.tgz" (by decide)).mpr (by decide)
  revert hfile
  decide

end Rejected

end Qvd.ObjectDeletion
