import Mathlib.Data.List.Nodup
import Qvd.BreadthFirst
import Qvd.LxcRelease

/-!
How the LXC handler unmounts what is at and under the root file system of a machine: one
umount after the other, on a mount table that is read again after each.
-/
namespace Qvd.LxcUnmount

open Relation AcyclicRelation BreadthFirst LxcRelease

/-- A mount table with unique ids and no cycles. -/
structure MountTree where
  mounts : List Mount
  unique : (mounts.map Mount.id).Nodup
  acyclic : Acyclic fun a c => c ∈ children mounts a

/-! ### The handler -/

inductive Decision
  | done
  | error
  | attempt (m : Mount)
deriving DecidableEq, Repr

/-- The mounts from the first one at the root file system on. -/
def behind (rootfs : List String) (mounts : List Mount) : List Mount :=
  ((mountAt mounts rootfs).map fun at' => flatten mounts mounts.length [at']).getD []

/-- `_unmount_filesystems`, up to the umount it runs: the last mount whose point has not been
tried. -/
def unmountFilesystems (rootfs : List String) (unmounted : List (List String))
    (mounts : List Mount) : Decision :=
  match mountAt mounts rootfs with
  | none => .done
  | some _ =>
    match ((behind rootfs mounts).filter (fun m => m.point ∉ unmounted)).getLast? with
    | none => .error
    | some m => .attempt m

/-- What the umount commands leave mounted: each for the number of commands before it, the
mounts and the mount point it is given. -/
structure Kernel where
  umount : ℕ → List Mount → List String → List Mount
  sublist : ∀ n mounts point, (umount n mounts point).Sublist mounts

/-- How the unmounting ends, with every umount tried and the mounts it was tried on. -/
structure Result where
  done : Bool
  mounts : List Mount
  attempts : List (List Mount × Mount)

/-- The calls of `_unmount_filesystems`, with a bound on their number. -/
def calls (K : Kernel) (rootfs : List String) :
    ℕ → ℕ → List (List String) → List Mount → Option Result
  | 0, _, _, _ => none
  | fuel + 1, n, unmounted, mounts =>
    match unmountFilesystems rootfs unmounted mounts with
    | .done => some { done := true, mounts := mounts, attempts := [] }
    | .error => some { done := false, mounts := mounts, attempts := [] }
    | .attempt m =>
      (calls K rootfs fuel (n + 1) (m.point :: unmounted) (K.umount n mounts m.point)).map
        fun r => { r with attempts := (mounts, m) :: r.attempts }

/-- Each mount is tried at most once, and one more call ends the unmounting. -/
def unmount (K : Kernel) (rootfs : List String) (mounts : List Mount) : Option Result :=
  calls K rootfs (mounts.length + 1) 0 [] mounts

/-! ### What is asked of it -/

/-- Nothing is mounted on the mount or below it. -/
def Leaf (mounts : List Mount) (m : Mount) : Prop := children mounts m = []

instance (mounts : List Mount) (m : Mount) : Decidable (Leaf mounts m) :=
  inferInstanceAs (Decidable (_ = _))

/-- Each umount of a leaf succeeds. -/
def Kernel.Willing (K : Kernel) : Prop :=
  ∀ n mounts point, (∃ m ∈ mounts, Leaf mounts m ∧ m.point = point) →
    ∃ m ∈ mounts, Leaf mounts m ∧ m.point = point ∧ K.umount n mounts point = mounts.erase m

structure Result.Complete (T : MountTree) (rootfs : List String) (r : Result) : Prop where
  done : r.done = true
  bare : ∀ m ∈ r.mounts, ¬rootfs <+: m.point
  outside : ∀ m ∈ T.mounts, ¬rootfs <+: m.point → m ∈ r.mounts
  leaf : ∀ x ∈ r.attempts, Leaf x.1 x.2

/-- The mounts at and under the root file system are at points of their own, and they are
those from the first mount at it on. -/
structure Separate (T : MountTree) (rootfs : List String) : Prop where
  points : ∀ m ∈ T.mounts, ∀ m' ∈ T.mounts, rootfs <+: m.point → m.point = m'.point → m = m'
  behind : ∀ m ∈ T.mounts, rootfs <+: m.point ↔ m ∈ behind rootfs T.mounts

/-! ### Trees -/

section Trees

variable {T : MountTree} {mounts : List Mount} {rootfs : List String} {m p c : Mount}

theorem mem_children : c ∈ children mounts p ↔ c ∈ mounts ∧ c.parent = p.id ∧ c.id ≠ c.parent := by
  simp [children]

theorem flatten_eq_visit (n : ℕ) (queue : List Mount) :
    flatten mounts n queue = visit (children mounts) n queue := by
  induction n generalizing queue with
  | zero => rfl
  | succ n ih =>
    cases queue with
    | nil => rfl
    | cons first queue => rw [flatten, visit, ih]

theorem MountTree.eq_of_id (T : MountTree) (hp : p ∈ T.mounts) (hc : c ∈ T.mounts)
    (hid : p.id = c.id) : p = c :=
  List.inj_on_of_nodup_map T.unique hp hc hid

theorem MountTree.nodup (T : MountTree) : T.mounts.Nodup := List.Nodup.of_map _ T.unique

theorem mountAt_eq_none_iff : mountAt mounts rootfs = none ↔ ∀ m ∈ mounts, m.point ≠ rootfs := by
  rw [mountAt, List.find?_eq_none]
  simp

theorem mem_of_mountAt (h : mountAt mounts rootfs = some m) : m ∈ mounts ∧ m.point = rootfs :=
  ⟨List.mem_of_find?_eq_some h, of_decide_eq_true (List.find?_some h :)⟩

/-- A table left by umounts of a tree's mounts: the parent of each is left as well. -/
structure Pruned (T : MountTree) (mounts : List Mount) : Prop where
  sublist : mounts.Sublist T.mounts
  parent : ∀ c ∈ mounts, ∀ p ∈ T.mounts, c ∈ children T.mounts p → p ∈ mounts

theorem Pruned.refl (T : MountTree) : Pruned T T.mounts :=
  ⟨List.Sublist.refl _, fun _ _ _ hp _ => hp⟩

theorem mem_children_sublist (h : mounts.Sublist T.mounts) (hc : c ∈ children mounts p) :
    c ∈ children T.mounts p := by
  rw [mem_children] at hc ⊢
  exact ⟨h.subset hc.1, hc.2⟩

theorem forest (h : mounts.Sublist T.mounts) : Forest (children mounts) mounts where
  closed _ _ hx := (mem_children.mp hx).1
  nodup _ := ((T.nodup.sublist h).filter _)
  unique _ ha _ hb _ hxa hxb := T.eq_of_id (h.subset ha) (h.subset hb)
    ((mem_children.mp hxa).2.1.symm.trans (mem_children.mp hxb).2.1)
  acyclic := T.acyclic.mono fun _ _ hxy => mem_children_sublist h hxy

theorem Pruned.erase (h : Pruned T mounts) (hleaf : Leaf mounts m) :
    Pruned T (mounts.erase m) := by
  refine ⟨(List.erase_sublist).trans h.sublist, fun c hc p hp hcp => ?_⟩
  have hcmem := List.mem_of_mem_erase hc
  have hpmem := h.parent c hcmem p hp hcp
  refine (List.mem_erase_of_ne ?_).mpr hpmem
  rintro rfl
  have hchild : c ∈ children mounts p :=
    mem_children.mpr ⟨hcmem, (mem_children.mp hcp).2⟩
  rw [hleaf] at hchild
  cases hchild

/-- What is left is reached from what is left only. -/
theorem Pruned.reached (h : Pruned T mounts) (hp : p ∈ T.mounts)
    (hreach : ReflTransGen (Succ (children T.mounts)) p c) (hc : c ∈ mounts) :
    p ∈ mounts ∧ ReflTransGen (Succ (children mounts)) p c := by
  induction hreach using ReflTransGen.head_induction_on with
  | refl => exact ⟨hc, ReflTransGen.refl⟩
  | head hstep _ ih =>
    obtain ⟨hmem, hreach⟩ := ih (mem_children.mp hstep).1
    have hchild := mem_children.mpr ⟨hmem, (mem_children.mp hstep).2⟩
    exact ⟨h.parent _ hmem _ hp hstep, ReflTransGen.head hchild hreach⟩

theorem mem_behind_iff (h : mounts.Sublist T.mounts) : m ∈ behind rootfs mounts ↔
    ∃ at', mountAt mounts rootfs = some at' ∧ ReflTransGen (Succ (children mounts)) at' m := by
  rw [behind]
  cases hat : mountAt mounts rootfs with
  | none => simp
  | some at' =>
    rw [Option.map_some, Option.getD_some, flatten_eq_visit,
      mem_visit_iff (forest h) (mem_of_mountAt hat).1 le_rfl]
    simp

theorem leaf_last (h : mounts.Sublist T.mounts) (hlast : (behind rootfs mounts).getLast? = some m) :
    Leaf mounts m := by
  rw [behind] at hlast
  cases hat : mountAt mounts rootfs with
  | none =>
    rw [hat] at hlast
    cases hlast
  | some at' =>
    rw [hat, Option.map_some, Option.getD_some, flatten_eq_visit] at hlast
    exact succ_last (forest h) (mem_of_mountAt hat).1 le_rfl hlast

theorem mem_of_mem_behind (h : mounts.Sublist T.mounts) (hm : m ∈ behind rootfs mounts) :
    m ∈ mounts := by
  obtain ⟨at', hat, hreach⟩ := (mem_behind_iff h).mp hm
  exact (forest h).mem_of_reached (mem_of_mountAt hat).1 hreach

end Trees

/-! ### One call -/

section Calls

variable {rootfs : List String} {unmounted : List (List String)} {mounts : List Mount} {m : Mount}

theorem of_attempt (h : unmountFilesystems rootfs unmounted mounts = .attempt m) :
    m ∈ behind rootfs mounts ∧ m.point ∉ unmounted := by
  rw [unmountFilesystems] at h
  split at h
  · cases h
  · split at h
    · cases h
    · next m' hlast =>
      cases h
      have hmem := List.mem_of_getLast? hlast
      rw [List.mem_filter] at hmem
      exact ⟨hmem.1, of_decide_eq_true hmem.2⟩

theorem done_iff : unmountFilesystems rootfs unmounted mounts = .done ↔
    mountAt mounts rootfs = none := by
  rw [unmountFilesystems]
  split
  · next hat => simp [hat]
  · next hat => split <;> simp [hat]

/-- The decisions are those of the handler's clean-up. -/
theorem nextMount_eq (cfg : Config) (w : World) : nextMount cfg w =
    match unmountFilesystems cfg.rootfs w.unmounted w.mounts with
    | .attempt m => some m.point
    | _ => none := by
  rw [nextMount, unmountFilesystems]
  cases hat : mountAt w.mounts cfg.rootfs with
  | none => rfl
  | some at' =>
    have hremaining : remaining w at' =
        ((behind cfg.rootfs w.mounts).filter (fun m => m.point ∉ w.unmounted)).map
          Mount.point := by
      rw [remaining, List.filter_map, behind, hat]
      rfl
    rw [Option.bind_some, hremaining, List.getLast?_map]
    dsimp only
    cases ((behind cfg.rootfs w.mounts).filter (fun m => m.point ∉ w.unmounted)).getLast? with
    | none => rfl
    | some m => rfl

end Calls

/-! ### All calls -/

section Runs

variable {K : Kernel} {rootfs : List String} {mounts : List Mount} {r : Result}

/-- The mounts whose points have not been tried. -/
def untried (unmounted : List (List String)) (mounts : List Mount) : List Mount :=
  mounts.filter (fun m => m.point ∉ unmounted)

theorem untried_umount {unmounted : List (List String)} {m : Mount} (n : ℕ)
    (hm : m ∈ mounts) (hnew : m.point ∉ unmounted) :
    (untried (m.point :: unmounted) (K.umount n mounts m.point)).length <
      (untried unmounted mounts).length := by
  have hsub : (untried (m.point :: unmounted) (K.umount n mounts m.point)).Sublist
      (untried (m.point :: unmounted) mounts) := (K.sublist n mounts m.point).filter _
  have hrest : untried (m.point :: unmounted) mounts =
      (untried unmounted mounts).filter (fun m' => m'.point ≠ m.point) := by
    rw [untried, untried, List.filter_filter]
    refine List.filter_congr fun m' _ => ?_
    simp [not_or]
  refine Nat.lt_of_le_of_lt hsub.length_le ?_
  rw [hrest]
  refine List.length_filter_lt_length_iff_exists.mpr ⟨m, ?_, by simp⟩
  exact List.mem_filter.mpr ⟨hm, decide_eq_true hnew⟩

/-- The calls end, whatever the commands do. -/
theorem calls_end (T : MountTree) (K : Kernel) (rootfs : List String) (fuel : ℕ) :
    ∀ (n : ℕ) (unmounted : List (List String)) (mounts : List Mount),
      mounts.Sublist T.mounts → (untried unmounted mounts).length < fuel →
      ∃ r, calls K rootfs fuel n unmounted mounts = some r := by
  induction fuel with
  | zero =>
    intro n unmounted mounts _ hlt
    exact absurd hlt (Nat.not_lt_zero _)
  | succ fuel ih =>
    intro n unmounted mounts hsub hlt
    rw [calls]
    cases hcall : unmountFilesystems rootfs unmounted mounts with
    | done => exact ⟨_, rfl⟩
    | error => exact ⟨_, rfl⟩
    | attempt m =>
      obtain ⟨hmem, hnew⟩ := of_attempt hcall
      have hless := untried_umount (K := K) n (mem_of_mem_behind hsub hmem) hnew
      obtain ⟨r, hr⟩ := ih (n + 1) (m.point :: unmounted) (K.umount n mounts m.point)
        ((K.sublist n mounts m.point).trans hsub) (by omega)
      dsimp only
      rw [hr]
      exact ⟨_, rfl⟩

theorem unmount_ends (T : MountTree) (K : Kernel) (rootfs : List String) :
    ∃ r, unmount K rootfs T.mounts = some r :=
  calls_end T K rootfs _ 0 [] T.mounts (List.Sublist.refl _)
    (Nat.lt_succ_of_le (List.length_filter_le _ _))

/-- What each umount keeps holds where umounts are tried and where they end. -/
theorem calls_invariant {I : List (List String) → List Mount → Prop}
    (hstep : ∀ n unmounted mounts m, I unmounted mounts →
      unmountFilesystems rootfs unmounted mounts = .attempt m →
      I (m.point :: unmounted) (K.umount n mounts m.point)) (fuel : ℕ) :
    ∀ {n : ℕ} {unmounted : List (List String)} {mounts : List Mount} {r : Result},
      I unmounted mounts → calls K rootfs fuel n unmounted mounts = some r →
      (∃ unmounted', I unmounted' r.mounts ∧
        unmountFilesystems rootfs unmounted' r.mounts = if r.done then .done else .error) ∧
      ∀ x ∈ r.attempts, ∃ unmounted', I unmounted' x.1 ∧
        unmountFilesystems rootfs unmounted' x.1 = .attempt x.2 := by
  induction fuel with
  | zero =>
    intro n unmounted mounts r _ hr
    cases hr
  | succ fuel ih =>
    intro n unmounted mounts r hI hr
    rw [calls] at hr
    cases hcall : unmountFilesystems rootfs unmounted mounts with
    | done =>
      rw [hcall] at hr
      cases hr
      exact ⟨⟨unmounted, hI, hcall⟩, fun x hx => by cases hx⟩
    | error =>
      rw [hcall] at hr
      cases hr
      exact ⟨⟨unmounted, hI, hcall⟩, fun x hx => by cases hx⟩
    | attempt m =>
      rw [hcall] at hr
      obtain ⟨r', hr', rfl⟩ := Option.map_eq_some_iff.mp hr
      obtain ⟨hend, hattempts⟩ := ih (hstep n unmounted mounts m hI hcall) hr'
      refine ⟨hend, fun x hx => ?_⟩
      rcases List.mem_cons.mp hx with rfl | hx
      · exact ⟨unmounted, hI, hcall⟩
      · exact hattempts x hx

end Runs

/-! ### Separate mounts -/

section Separation

variable {T : MountTree} {K : Kernel} {rootfs : List String} {unmounted : List (List String)}
  {mounts : List Mount} {m : Mount}

/-- Only mounts behind the root file system have been taken away, and none left there has been
tried. -/
structure Inv (T : MountTree) (rootfs : List String) (unmounted : List (List String))
    (mounts : List Mount) : Prop where
  pruned : Pruned T mounts
  outside : ∀ m ∈ T.mounts, ¬rootfs <+: m.point → m ∈ mounts
  fresh : ∀ m ∈ mounts, rootfs <+: m.point → m.point ∉ unmounted

theorem Inv.start (T : MountTree) (rootfs : List String) : Inv T rootfs [] T.mounts :=
  ⟨Pruned.refl T, fun _ hm _ => hm, fun _ _ _ => List.not_mem_nil⟩

/-- What is left at and under the root file system is what is left behind it. -/
theorem Inv.mem_behind (hsep : Separate T rootfs) (h : Inv T rootfs unmounted mounts)
    (hm : m ∈ mounts) : rootfs <+: m.point ↔ m ∈ behind rootfs mounts := by
  have hsub := h.pruned.sublist
  rw [hsep.behind m (hsub.subset hm), mem_behind_iff (List.Sublist.refl _), mem_behind_iff hsub]
  constructor
  · rintro ⟨at', hat, hreach⟩
    obtain ⟨hmem, hpoint⟩ := mem_of_mountAt hat
    obtain ⟨hleft, hreach⟩ := h.pruned.reached hmem hreach hm
    cases hat' : mountAt mounts rootfs with
    | none => exact absurd hpoint (mountAt_eq_none_iff.mp hat' at' hleft)
    | some at'' =>
      obtain ⟨hmem', hpoint'⟩ := mem_of_mountAt hat'
      obtain rfl := hsep.points at'' (hsub.subset hmem') at' hmem
        (hpoint' ▸ List.prefix_rfl) (hpoint'.trans hpoint.symm)
      exact ⟨_, rfl, hreach⟩
  · rintro ⟨at', hat, hreach⟩
    obtain ⟨hmem, hpoint⟩ := mem_of_mountAt hat
    have hin := (hsep.behind at' (hsub.subset hmem)).mp (hpoint ▸ List.prefix_rfl)
    obtain ⟨at'', hat'', hreach''⟩ := (mem_behind_iff (List.Sublist.refl _)).mp hin
    exact ⟨at'', hat'', hreach''.trans
      (ReflTransGen.mono (fun _ _ hxy => mem_children_sublist hsub hxy) _ _ hreach)⟩

/-- While the root file system is mounted the last mount behind it is tried. -/
theorem Inv.call (hsep : Separate T rootfs) (h : Inv T rootfs unmounted mounts) :
    (unmountFilesystems rootfs unmounted mounts = .done ∧ ∀ m ∈ mounts, ¬rootfs <+: m.point) ∨
      ∃ m, unmountFilesystems rootfs unmounted mounts = .attempt m ∧ Leaf mounts m := by
  have hsub := h.pruned.sublist
  cases hat : mountAt mounts rootfs with
  | none =>
    refine .inl ⟨done_iff.mpr hat, fun m hm hunder => ?_⟩
    obtain ⟨at', hat', -⟩ := (mem_behind_iff hsub).mp ((h.mem_behind hsep hm).mp hunder)
    rw [hat] at hat'
    cases hat'
  | some at' =>
    right
    have hfilter : (behind rootfs mounts).filter (fun m => m.point ∉ unmounted) =
        behind rootfs mounts := by
      refine List.filter_eq_self.mpr fun m hm => decide_eq_true ?_
      have hleft := mem_of_mem_behind hsub hm
      exact h.fresh m hleft ((h.mem_behind hsep hleft).mpr hm)
    have hself : at' ∈ behind rootfs mounts :=
      (mem_behind_iff hsub).mpr ⟨at', hat, ReflTransGen.refl⟩
    cases hlast : (behind rootfs mounts).getLast? with
    | none =>
      rw [List.getLast?_eq_none_iff.mp hlast] at hself
      cases hself
    | some m =>
      refine ⟨m, ?_, leaf_last hsub hlast⟩
      rw [unmountFilesystems, hat]
      dsimp only
      rw [hfilter, hlast]

theorem Inv.umount (hsep : Separate T rootfs) (hK : K.Willing) (n : ℕ)
    (h : Inv T rootfs unmounted mounts)
    (hcall : unmountFilesystems rootfs unmounted mounts = .attempt m) :
    Inv T rootfs (m.point :: unmounted) (K.umount n mounts m.point) := by
  have hsub := h.pruned.sublist
  have hm := mem_of_mem_behind hsub (of_attempt hcall).1
  have hunder := (h.mem_behind hsep hm).mpr (of_attempt hcall).1
  have hleaf : Leaf mounts m := by
    rcases h.call hsep with ⟨hdone, -⟩ | ⟨m', hcall', hleaf⟩
    · rw [hcall] at hdone
      cases hdone
    · rw [hcall] at hcall'
      cases hcall'
      exact hleaf
  obtain ⟨m', hm', hleaf', hpoint, humount⟩ := hK n mounts m.point ⟨m, hm, hleaf, rfl⟩
  obtain rfl := hsep.points m (hsub.subset hm) m' (hsub.subset hm') hunder hpoint.symm
  rw [humount]
  refine ⟨h.pruned.erase hleaf, fun m' hm' hout => ?_, fun m' hm' hin => ?_⟩
  · refine (List.mem_erase_of_ne ?_).mpr (h.outside m' hm' hout)
    rintro rfl
    exact hout hunder
  · have hother := (T.nodup.sublist hsub).mem_erase_iff.mp hm'
    rw [List.mem_cons, not_or]
    refine ⟨fun heq => hother.1 ?_, h.fresh m' hother.2 hin⟩
    exact hsep.points m' (hsub.subset hother.2) m (hsub.subset hm) hin heq

theorem complete_of_separate (hsep : Separate T rootfs) (hK : K.Willing) :
    ∃ r, unmount K rootfs T.mounts = some r ∧ r.Complete T rootfs := by
  obtain ⟨r, hr⟩ := unmount_ends T K rootfs
  obtain ⟨⟨unmounted, hI, hend⟩, hattempts⟩ := calls_invariant
    (fun n _ _ _ hI hcall => hI.umount hsep hK n hcall) _ (Inv.start T rootfs) hr
  refine ⟨r, hr, ?_⟩
  rcases hI.call hsep with ⟨hdone, hbare⟩ | ⟨m, hattempt, -⟩
  · have hok : r.done = true := by
      rw [hdone] at hend
      cases hok : r.done with
      | true => rfl
      | false =>
        rw [hok] at hend
        cases hend
    refine ⟨hok, hbare, hI.outside, fun x hx => ?_⟩
    obtain ⟨unmounted', hI', hcall⟩ := hattempts x hx
    rcases hI'.call hsep with ⟨hdone', -⟩ | ⟨m, hcall', hleaf⟩
    · rw [hcall] at hdone'
      cases hdone'
    · rw [hcall] at hcall'
      cases hcall'
      exact hleaf
  · rw [hattempt] at hend
    split at hend <;> cases hend

end Separation

/-! ### Mounts on one point -/

section Stacks

variable {T : MountTree} {rootfs : List String} {unmounted : List (List String)}
  {mounts : List Mount} {m : Mount}

/-- Commands that take away the first leaf at their point. -/
def leafKernel : Kernel where
  umount _ mounts point :=
    match mounts.find? (fun m => Leaf mounts m ∧ m.point = point) with
    | none => mounts
    | some m => mounts.erase m
  sublist _ mounts _ := by
    split
    · exact List.Sublist.refl _
    · exact List.erase_sublist

theorem umount_leafKernel (n : ℕ) (mounts : List Mount) (point : List String) :
    (leafKernel.umount n mounts point = mounts ∧
      ∀ m ∈ mounts, Leaf mounts m → m.point ≠ point) ∨
    ∃ m ∈ mounts, Leaf mounts m ∧ m.point = point ∧
      leafKernel.umount n mounts point = mounts.erase m := by
  rw [leafKernel]
  dsimp only
  cases hfind : mounts.find? (fun m => Leaf mounts m ∧ m.point = point) with
  | none =>
    refine .inl ⟨rfl, fun m hm hleaf hpoint => ?_⟩
    have hno := List.find?_eq_none.mp hfind m hm
    exact hno (decide_eq_true ⟨hleaf, hpoint⟩)
  | some m =>
    have hfound : Leaf mounts m ∧ m.point = point :=
      of_decide_eq_true (List.find?_some hfind :)
    exact .inr ⟨m, List.mem_of_find?_eq_some hfind, hfound.1, hfound.2, rfl⟩

theorem leafKernel_willing : leafKernel.Willing := by
  intro n mounts point ⟨m, hm, hleaf, hpoint⟩
  rcases umount_leafKernel n mounts point with ⟨-, hno⟩ | hyes
  · exact absurd hpoint (hno m hm hleaf)
  · exact hyes

/-- What has been taken away was at points of its own, each of a mount reached from one at the
root file system. -/
structure Taken (T : MountTree) (rootfs : List String) (unmounted : List (List String))
    (mounts : List Mount) : Prop where
  pruned : Pruned T mounts
  tried : ∀ m ∈ T.mounts, m ∉ mounts → m.point ∈ unmounted
  points : ∀ m ∈ T.mounts, m ∉ mounts → ∀ m' ∈ T.mounts, m' ∉ mounts →
    m.point = m'.point → m = m'
  reached : ∀ m ∈ T.mounts, m ∉ mounts → ∃ e ∈ T.mounts, e.point = m.point ∧
    ∃ at' ∈ T.mounts, at'.point = rootfs ∧ ReflTransGen (Succ (children T.mounts)) at' e

theorem Taken.start (T : MountTree) (rootfs : List String) : Taken T rootfs [] T.mounts :=
  ⟨Pruned.refl T, fun _ hm hno => absurd hm hno, fun _ hm hno => absurd hm hno,
    fun _ hm hno => absurd hm hno⟩

theorem Taken.umount (n : ℕ) (h : Taken T rootfs unmounted mounts)
    (hcall : unmountFilesystems rootfs unmounted mounts = .attempt m) :
    Taken T rootfs (m.point :: unmounted) (leafKernel.umount n mounts m.point) := by
  obtain ⟨hbehind, hnew⟩ := of_attempt hcall
  have hsub := h.pruned.sublist
  rcases umount_leafKernel n mounts m.point with ⟨hsame, -⟩ | ⟨e, he, hleaf, hpoint, herase⟩
  · rw [hsame]
    exact ⟨h.pruned, fun m' hm' hno => List.mem_cons_of_mem _ (h.tried m' hm' hno), h.points,
      h.reached⟩
  rw [herase]
  -- What is gone now was gone before or is the leaf.
  have hgone : ∀ m' ∈ T.mounts, m' ∉ mounts.erase e → m' ∉ mounts ∨ m' = e := by
    intro m' _ hno
    by_contra hcon
    rw [not_or, not_not] at hcon
    exact hno ((List.mem_erase_of_ne hcon.2).mpr hcon.1)
  have hnot : ∀ m' ∈ T.mounts, m' ∉ mounts → m'.point ≠ e.point := by
    intro m' hm' hno heq
    exact hnew (hpoint ▸ heq ▸ h.tried m' hm' hno)
  refine ⟨h.pruned.erase hleaf, fun m' hm' hno => ?_, fun m₁ hm₁ hno₁ m₂ hm₂ hno₂ heq => ?_,
    fun m' hm' hno => ?_⟩
  · rcases hgone m' hm' hno with hno | rfl
    · exact List.mem_cons_of_mem _ (h.tried m' hm' hno)
    · rw [hpoint]
      exact List.mem_cons_self
  · rcases hgone m₁ hm₁ hno₁ with hout₁ | rfl
    · rcases hgone m₂ hm₂ hno₂ with hout₂ | rfl
      · exact h.points m₁ hm₁ hout₁ m₂ hm₂ hout₂ heq
      · exact absurd heq (hnot m₁ hm₁ hout₁)
    · rcases hgone m₂ hm₂ hno₂ with hout₂ | rfl
      · exact absurd heq.symm (hnot m₂ hm₂ hout₂)
      · rfl
  · rcases hgone m' hm' hno with hno | rfl
    · exact h.reached m' hm' hno
    · obtain ⟨at', hat, hreach⟩ := (mem_behind_iff hsub).mp hbehind
      obtain ⟨hmem, hroot⟩ := mem_of_mountAt hat
      exact ⟨m, hsub.subset (mem_of_mem_behind hsub hbehind), hpoint.symm, at',
        hsub.subset hmem, hroot,
        ReflTransGen.mono (fun _ _ hxy => mem_children_sublist hsub hxy) _ _ hreach⟩

/-- What was mounted below a mount that is gone is gone. -/
theorem Pruned.gone (h : Pruned T mounts) {p c : Mount} (hp : p ∈ T.mounts) (hno : p ∉ mounts)
    (hreach : ReflTransGen (Succ (children T.mounts)) p c) : c ∉ mounts :=
  fun hc => hno (h.reached hp hreach hc).1

theorem separate_of_complete {r : Result} (hr : unmount leafKernel rootfs T.mounts = some r)
    (h : r.Complete T rootfs) : Separate T rootfs := by
  obtain ⟨⟨unmounted, hI, -⟩, -⟩ :=
    calls_invariant (fun n _ _ _ hI hcall => hI.umount n hcall) _ (Taken.start T rootfs) hr
  have hgone : ∀ m ∈ T.mounts, rootfs <+: m.point → m ∉ r.mounts :=
    fun m _ hunder hm => h.bare m hm hunder
  have hpoints : ∀ m ∈ T.mounts, ∀ m' ∈ T.mounts, rootfs <+: m.point →
      m.point = m'.point → m = m' := fun m hm m' hm' hunder heq =>
    hI.points m hm (hgone m hm hunder) m' hm' (hgone m' hm' (heq ▸ hunder)) heq
  refine ⟨hpoints, fun m hm => ?_⟩
  rw [mem_behind_iff (List.Sublist.refl _)]
  constructor
  · intro hunder
    obtain ⟨e, he, heq, at', hat, hroot, hreach⟩ := hI.reached m hm (hgone m hm hunder)
    obtain rfl := hpoints m hm e he hunder heq.symm
    cases hfirst : mountAt T.mounts rootfs with
    | none => exact absurd hroot (mountAt_eq_none_iff.mp hfirst at' hat)
    | some first =>
      obtain ⟨hmem, hpoint⟩ := mem_of_mountAt hfirst
      obtain rfl := hpoints first hmem at' hat (hpoint ▸ List.prefix_rfl)
        (hpoint.trans hroot.symm)
      exact ⟨_, rfl, hreach⟩
  · rintro ⟨at', hat, hreach⟩
    obtain ⟨hmem, hpoint⟩ := mem_of_mountAt hat
    have hno := hI.pruned.gone hmem (hgone at' hmem (hpoint ▸ List.prefix_rfl)) hreach
    by_contra hout
    exact hno (h.outside m hm hout)

end Stacks

/-- A root file system mounted on top of another one, on the host's root. -/
def stacked : MountTree where
  mounts := [⟨1, 1, []⟩, ⟨2, 1, ["rootfs"]⟩, ⟨3, 2, ["rootfs"]⟩]
  unique := by decide
  acyclic := acyclic_of_rank (fun m => 3 - m.id) fun a c h => by
    obtain ⟨hmem, hparent, hother⟩ := mem_children.mp h
    simp only [List.mem_cons, List.not_mem_nil, or_false] at hmem
    rcases hmem with rfl | rfl | rfl
    · exact absurd rfl hother
    · simp [← hparent]
    · simp [← hparent]

end Qvd.LxcUnmount
