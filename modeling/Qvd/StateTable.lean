import Mathlib.Data.List.Infix

/-!
Tables of hierarchical states, in the words of Class::StateMachine::Declarative.
A table lists the states in the order of their declaration, each with its full name and
with what it declares about events. A table says where every event leads; what a machine
built from it is taken to do is stated rule by rule, and the two are shown to agree.
-/
namespace Qvd.StateTable

/-- The name of a target, sought from the declaring state upwards unless it is absolute. -/
structure Target (N : Type*) where
  path : List N
  absolute : Bool := false

/-- A state; the empty name stands for what is declared for any state. -/
structure Entry (N E M : Type*) where
  name : List N
  secondary : Bool := false
  enter : Option M := none
  advance : Option E := none
  on : List (E × E) := []
  ignore : List E := []
  delay : List E := []
  transitions : List (E × Target N) := []

abbrev Table (N E M : Type*) := List (Entry N E M)

/-- What a state declares about one event. -/
inductive Reaction (N E : Type*)
  | goto (target : Target N)
  | redirect (event : E)
  | advance
  | ignore
  | delay

section Lookup

variable {N E M : Type*} [DecidableEq N] [DecidableEq E]

def Entry.reaction (s : Entry N E M) (e : E) : Option (Reaction N E) :=
  match s.transitions.lookup e, s.on.lookup e with
  | some target, _ => some (.goto target)
  | none, some e' => some (.redirect e')
  | none, none =>
    if e ∈ s.ignore then some .ignore
    else if e ∈ s.delay then some .delay
    else if s.advance = some e then some .advance
    else none

namespace Table

variable (t : Table N E M)

def at? (name : List N) : Option (Entry N E M) :=
  t.find? (fun s => s.name = name)

def methodAt (name : List N) : Option M :=
  (at? t name).bind Entry.enter

def substates (name : List N) : List (Entry N E M) :=
  t.filter (fun s => s.name ≠ [] ∧ s.name.dropLast = name)

/-- The states a machine can be in: those without substates. -/
def leaves : List (List N) :=
  (t.map Entry.name).filter (fun name => name ≠ [] ∧ (substates t name).isEmpty)

/-- The innermost declaration about an event, with the state that makes it. -/
def declared (path : List N) (e : E) : Option (List N × Reaction N E) :=
  path.inits.reverse.findSome? (fun owner =>
    ((at? t owner).bind (fun s => s.reaction e)).map (fun r => (owner, r)))

/-- The state a target names: below the declaring state, or below an outer one. -/
def resolve (owner : List N) (target : Target N) : Option (List N) :=
  if target.absolute then some target.path
  else (owner.inits.reverse.map (fun outer => outer ++ target.path)).find?
    (fun name => (at? t name).isSome)

def descend : ℕ → List N → List N
  | 0, name => name
  | n + 1, name =>
    match (substates t name).find? (fun s => !s.secondary) with
    | some s => descend n s.name
    | none => name

/-- Entering a state enters the first of its substates that is not secondary. -/
def arrive (name : List N) : List N :=
  descend t t.length name

def nextSibling (name : List N) : Option (List N) :=
  ((((substates t name.dropLast).dropWhile (fun s => s.name ≠ name)).tail).find?
    (fun s => !s.secondary)).map Entry.name

/-- The state after this one, or after the innermost outer state that has one. -/
def following (path : List N) : Option (List N) :=
  path.inits.reverse.findSome? (nextSibling t)

/-- Where an event leads, with a bound on how often it is redirected. -/
def react : ℕ → List N → E → Option (List N)
  | 0, _, _ => none
  | n + 1, path, e =>
    match declared t path e with
    | some (owner, .goto target) => (resolve t owner target).map (arrive t)
    | some (_, .redirect e') => react n path e'
    | some (_, .advance) => some (((following t path).map (arrive t)).getD path)
    | some (_, .ignore) => some path
    | some (_, .delay) => some path
    | none => some path

/-- The machine a table determines when no event is redirected too often. -/
def next (n : ℕ) (path : List N) (e : E) : List N :=
  (react t n path e).getD path

end Table

end Lookup

section Machines

variable {N E M : Type*} [DecidableEq N] [DecidableEq E]

/-- What is relied on of the machine built from a table, on the states it can be in.
A delayed event changes nothing now: it is one more event later. -/
structure Follows (t : Table N E M) (next : List N → E → List N) : Prop where
  goto : ∀ path e owner target name, path ∈ t.leaves →
    t.declared path e = some (owner, .goto target) → t.resolve owner target = some name →
      next path e = t.arrive name
  redirect : ∀ path e owner e', path ∈ t.leaves →
    t.declared path e = some (owner, .redirect e') → next path e = next path e'
  advance : ∀ path e owner, path ∈ t.leaves → t.declared path e = some (owner, .advance) →
    next path e = ((t.following path).map t.arrive).getD path
  ignore : ∀ path e owner, path ∈ t.leaves → t.declared path e = some (owner, .ignore) →
    next path e = path
  delay : ∀ path e owner, path ∈ t.leaves → t.declared path e = some (owner, .delay) →
    next path e = path
  undeclared : ∀ path e, path ∈ t.leaves → t.declared path e = none → next path e = path

variable {t : Table N E M} {next : List N → E → List N}

theorem Follows.next_of_react (h : Follows t next) (n : ℕ) (path : List N) (e : E)
    (target : List N) (hleaf : path ∈ t.leaves) (hreact : t.react n path e = some target) :
    next path e = target := by
  induction n generalizing e with
  | zero => cases hreact
  | succ n ih =>
    unfold Table.react at hreact
    split at hreact
    · next owner tgt hdecl =>
      obtain ⟨name, hname, hto⟩ := Option.map_eq_some_iff.mp hreact
      rw [← hto]
      exact h.goto path e owner tgt name hleaf hdecl hname
    · next owner e' hdecl =>
      rw [h.redirect path e owner e' hleaf hdecl]
      exact ih e' hreact
    · next owner hdecl =>
      rw [h.advance path e owner hleaf hdecl]
      exact Option.some.inj hreact
    · next owner hdecl =>
      rw [h.ignore path e owner hleaf hdecl]
      exact Option.some.inj hreact
    · next owner hdecl =>
      rw [h.delay path e owner hleaf hdecl]
      exact Option.some.inj hreact
    · next hdecl =>
      rw [h.undeclared path e hleaf hdecl]
      exact Option.some.inj hreact

/-- Every event leads somewhere, after fewer than n redirections. -/
def Table.Total (t : Table N E M) (n : ℕ) : Prop :=
  ∀ path ∈ t.leaves, ∀ e, (t.react n path e).isSome = true

theorem react_mono (n : ℕ) (path : List N) (e : E) (target : List N)
    (h : t.react n path e = some target) : t.react (n + 1) path e = some target := by
  induction n generalizing e with
  | zero => cases h
  | succ n ih =>
    cases hdecl : t.declared path e with
    | none => simpa only [Table.react, hdecl] using h
    | some d =>
      obtain ⟨owner, reaction⟩ := d
      cases reaction with
      | redirect e' =>
        simp only [Table.react, hdecl] at h ⊢
        exact ih e' h
      | _ => simpa only [Table.react, hdecl] using h

theorem Follows.next_eq (h : Follows t next) {n : ℕ} (htotal : t.Total n) (path : List N)
    (e : E) (hleaf : path ∈ t.leaves) : next path e = t.next n path e := by
  obtain ⟨target, htarget⟩ := Option.isSome_iff_exists.mp (htotal path hleaf e)
  rw [h.next_of_react n path e target hleaf htarget, Table.next, htarget]
  rfl

theorem follows_next {n : ℕ} (htotal : t.Total (n + 1)) : Follows t (t.next (n + 1)) where
  goto path e owner target name _ hdecl hname := by
    simp [Table.next, Table.react, hdecl, hname]
  redirect path e owner e' hleaf hdecl := by
    have hreact : t.react (n + 1) path e = t.react n path e' := by
      simp [Table.react, hdecl]
    obtain ⟨target, htarget⟩ := Option.isSome_iff_exists.mp (htotal path hleaf e)
    have hlater := react_mono n path e' target (hreact ▸ htarget)
    rw [Table.next, Table.next, htarget, hlater]
  advance path e owner _ hdecl := by
    simp [Table.next, Table.react, hdecl]
  ignore path e owner _ hdecl := by
    simp [Table.next, Table.react, hdecl]
  delay path e owner _ hdecl := by
    simp [Table.next, Table.react, hdecl]
  undeclared path e _ hdecl := by
    simp [Table.next, Table.react, hdecl]

/-! ### Where a state comes from -/

omit [DecidableEq N] in
theorem Entry.mem_transitions {s : Entry N E M} {e : E} {target : Target N}
    (h : s.reaction e = some (.goto target)) : (e, target) ∈ s.transitions := by
  unfold Entry.reaction at h
  split at h
  · next hlookup =>
    cases h
    obtain ⟨before, after, hsplit, -⟩ := List.lookup_eq_some_iff.mp hlookup
    rw [hsplit]
    exact List.mem_append_right _ List.mem_cons_self
  · cases h
  · split at h
    · cases h
    · split at h
      · cases h
      · split at h <;> cases h

omit [DecidableEq N] in
theorem Entry.mem_on {s : Entry N E M} {e e' : E}
    (h : s.reaction e = some (.redirect e')) : (e, e') ∈ s.on := by
  unfold Entry.reaction at h
  split at h
  · cases h
  · next hlookup =>
    cases h
    obtain ⟨before, after, hsplit, -⟩ := List.lookup_eq_some_iff.mp hlookup
    rw [hsplit]
    exact List.mem_append_right _ List.mem_cons_self
  · split at h
    · cases h
    · split at h
      · cases h
      · split at h <;> cases h

namespace Table

omit [DecidableEq E] in
theorem mem_of_at? {name : List N} {s : Entry N E M} (h : t.at? name = some s) :
    s ∈ t ∧ s.name = name :=
  ⟨List.mem_of_find?_eq_some h, of_decide_eq_true (List.find?_some h :)⟩

theorem owner_of_declared {path owner : List N} {e : E} {r : Reaction N E}
    (h : t.declared path e = some (owner, r)) :
    owner <+: path ∧ ∃ s ∈ t, s.name = owner ∧ s.reaction e = some r := by
  obtain ⟨outer, houter, hfound⟩ := List.exists_of_findSome?_eq_some h
  obtain ⟨r', hr', heq⟩ := Option.map_eq_some_iff.mp hfound
  obtain ⟨s, hs, hreaction⟩ := Option.bind_eq_some_iff.mp hr'
  cases heq
  obtain ⟨hmem, hname⟩ := mem_of_at? hs
  exact ⟨(List.mem_inits _ _).mp (List.mem_reverse.mp houter), s, hmem, hname, hreaction⟩

omit [DecidableEq E] in
/-- What follows a state is not secondary. -/
theorem primary_of_following {path name : List N} (h : t.following path = some name) :
    ∃ s ∈ t, s.secondary = false ∧ s.name ≠ [] ∧ s.name = name := by
  obtain ⟨outer, -, hfound⟩ := List.exists_of_findSome?_eq_some h
  obtain ⟨s, hs, hname⟩ := Option.map_eq_some_iff.mp hfound
  have hmem := List.mem_of_mem_tail (List.mem_of_find?_eq_some hs)
  have hprimary := List.find?_some hs
  have hsub := List.dropWhile_subset _ hmem
  rw [substates, List.mem_filter, decide_eq_true_eq] at hsub
  exact ⟨s, hsub.1, by simpa using hprimary, hsub.2.1, hname⟩

/-- An event leads back to the state, to where an outer state's transition goes, or to a
state that follows. -/
theorem react_cases {n : ℕ} {path target : List N} {e : E}
    (h : t.react n path e = some target) :
    target = path ∨
      (∃ s ∈ t, s.name <+: path ∧ ∃ tr ∈ s.transitions,
        (t.resolve s.name tr.2).map t.arrive = some target) ∨
      ∃ s ∈ t, s.secondary = false ∧ s.name ≠ [] ∧ t.arrive s.name = target := by
  induction n generalizing e with
  | zero => cases h
  | succ n ih =>
    unfold react at h
    split at h
    · next owner tgt hdecl =>
      obtain ⟨howner, s, hs, hname, hreaction⟩ := owner_of_declared hdecl
      subst hname
      exact .inr (.inl ⟨s, hs, howner, _, Entry.mem_transitions hreaction, h⟩)
    · exact ih h
    · cases hfollowing : t.following path with
      | none =>
        rw [hfollowing] at h
        exact .inl (Option.some.inj h).symm
      | some name =>
        obtain ⟨s, hs, hprimary, hname, rfl⟩ := primary_of_following hfollowing
        rw [hfollowing] at h
        exact .inr (.inr ⟨s, hs, hprimary, hname, Option.some.inj h⟩)
    · exact .inl (Option.some.inj h).symm
    · exact .inl (Option.some.inj h).symm
    · exact .inl (Option.some.inj h).symm

omit [DecidableEq E] in
/-- Arriving at a state is arriving at a state without substates that are not secondary, or at
one that is not secondary. -/
theorem descend_cases (n : ℕ) (name : List N) :
    t.descend n name = name ∨ ∃ s ∈ t, s.secondary = false ∧ s.name = t.descend n name := by
  induction n generalizing name with
  | zero => exact .inl rfl
  | succ n ih =>
    cases hfind : (t.substates name).find? (fun s => !s.secondary) with
    | none => exact .inl (by rw [descend, hfind])
    | some s =>
      rw [descend, hfind]
      rcases ih s.name with heq | hprimary
      · refine .inr ⟨s, List.mem_of_mem_filter (List.mem_of_find?_eq_some hfind), ?_, heq.symm⟩
        simpa using List.find?_some hfind
      · exact .inr hprimary

/-- A secondary state is entered only by name, from within the outer state it belongs to. -/
theorem outer_of_react {n : ℕ} {outer path : List N} {last : N} {e : E}
    (hsecondary : ∀ s ∈ t, s.name = outer ++ [last] → s.secondary = true)
    (htargets : ∀ s ∈ t, ∀ tr ∈ s.transitions, tr.2.path <:+ outer ++ [last] →
      tr.2.path = [last] ∧ tr.2.absolute = false)
    (h : t.react n path e = some (outer ++ [last])) :
    path = outer ++ [last] ∨ outer <+: path := by
  have harrive : ∀ name, t.arrive name = outer ++ [last] → name = outer ++ [last] := by
    intro name hname
    rcases descend_cases t.length name with heq | ⟨s, hs, hprimary, heq⟩
    · exact heq.symm.trans hname
    · rw [hsecondary s hs (heq.trans hname)] at hprimary
      cases hprimary
  rcases react_cases h with heq | ⟨s, hs, hpath, tr, htr, hto⟩ | ⟨s, hs, hprimary, -, hto⟩
  · exact .inl heq.symm
  · obtain ⟨name, hname, hto⟩ := Option.map_eq_some_iff.mp hto
    rw [harrive name hto, resolve] at hname
    split at hname
    · next habsolute =>
      have heq : tr.2.path = outer ++ [last] := Option.some.inj hname
      rw [(htargets s hs tr htr (heq ▸ List.suffix_rfl)).2] at habsolute
      cases habsolute
    · have hmem := List.mem_of_find?_eq_some hname
      obtain ⟨outer', houter', heq⟩ := List.mem_map.mp hmem
      have htarget := (htargets s hs tr htr ⟨outer', heq⟩).1
      rw [htarget] at heq
      rw [(List.append_inj' heq rfl).1] at houter'
      exact .inr (((List.mem_inits _ _).mp (List.mem_reverse.mp houter')).trans hpath)
  · rw [hsecondary s hs (harrive _ hto)] at hprimary
    cases hprimary

/-- A state with substates has one that is not secondary, and absolute targets are states. -/
structure WellFormed (t : Table N E M) : Prop where
  primary : ∀ s ∈ t, (t.substates s.name).isEmpty = true ∨
    ((t.substates s.name).find? (fun s => !s.secondary)).isSome = true
  absolute : ∀ s ∈ t, ∀ tr ∈ s.transitions, tr.2.absolute = true →
    (t.at? tr.2.path).isSome = true
  depth : ∀ s ∈ t, s.name.length ≤ t.length
  named : ∀ s ∈ t, ∀ tr ∈ s.transitions, tr.2.path ≠ []

omit [DecidableEq E] in
theorem WellFormed.descend_mem (h : t.WellFormed) (n : ℕ) (s : Entry N E M) (hs : s ∈ t)
    (hname : s.name ≠ []) (hn : t.length < s.name.length + n) :
    t.descend n s.name ∈ t.leaves := by
  induction n generalizing s with
  | zero => exact absurd (h.depth s hs) (by omega)
  | succ n ih =>
    rcases h.primary s hs with hempty | hsome
    · rw [descend, List.isEmpty_iff.mp hempty]
      refine List.mem_filter.mpr ⟨List.mem_map_of_mem hs, ?_⟩
      simpa [hname] using hempty
    · obtain ⟨u, hu⟩ := Option.isSome_iff_exists.mp hsome
      have hsub := List.mem_of_find?_eq_some hu
      rw [substates, List.mem_filter, decide_eq_true_eq] at hsub
      rw [descend, hu]
      refine ih u hsub.1 hsub.2.1 ?_
      have hlength := congrArg List.length hsub.2.2
      have hpos := List.length_pos_of_ne_nil hsub.2.1
      rw [List.length_dropLast] at hlength
      omega

omit [DecidableEq E] in
theorem WellFormed.resolve_mem (h : t.WellFormed) {s : Entry N E M} (hs : s ∈ t)
    {tr : E × Target N} (htr : tr ∈ s.transitions) {name : List N}
    (hname : t.resolve s.name tr.2 = some name) : ∃ u ∈ t, u.name = name ∧ u.name ≠ [] := by
  have hpath := h.named s hs tr htr
  rw [resolve] at hname
  split at hname
  · next habsolute =>
    obtain ⟨u, hu⟩ := Option.isSome_iff_exists.mp (h.absolute s hs tr htr habsolute)
    obtain ⟨hmem, heq⟩ := mem_of_at? hu
    exact ⟨u, hmem, heq.trans (Option.some.inj hname), heq ▸ hpath⟩
  · obtain ⟨outer, -, heq⟩ := List.mem_map.mp (List.mem_of_find?_eq_some hname)
    obtain ⟨u, hu⟩ := Option.isSome_iff_exists.mp (List.find?_some hname :)
    obtain ⟨hmem, hu⟩ := mem_of_at? hu
    refine ⟨u, hmem, hu, ?_⟩
    rw [hu, ← heq]
    exact List.append_ne_nil_of_right_ne_nil outer hpath

/-- The machine of a well-formed table stays in states without substates. -/
theorem WellFormed.next_mem (h : t.WellFormed) (n : ℕ) {path : List N}
    (hpath : path ∈ t.leaves) (e : E) : t.next n path e ∈ t.leaves := by
  have harrive : ∀ s ∈ t, s.name ≠ [] → t.arrive s.name ∈ t.leaves := fun s hs hname =>
    h.descend_mem _ s hs hname (by have := List.length_pos_of_ne_nil hname; omega)
  rw [next]
  cases hreact : t.react n path e with
  | none => exact hpath
  | some target =>
    rcases react_cases hreact with rfl | ⟨s, hs, -, tr, htr, hto⟩ | ⟨s, hs, -, hname, rfl⟩
    · exact hpath
    · obtain ⟨name, hname, rfl⟩ := Option.map_eq_some_iff.mp hto
      obtain ⟨u, hu, rfl, hne⟩ := h.resolve_mem hs htr hname
      exact harrive u hu hne
    · exact harrive s hs hname

/-- Events that are redirected to lower ones lead somewhere. -/
theorem total_of_rank {n : ℕ} (rank : E → ℕ) (hbound : ∀ e, rank e < n)
    (hon : ∀ s ∈ t, ∀ r ∈ s.on, rank r.2 < rank r.1)
    (hresolve : ∀ s ∈ t, ∀ tr ∈ s.transitions, (t.resolve s.name tr.2).isSome = true) :
    t.Total n := by
  intro path _ e
  have hlt := hbound e
  clear hbound
  induction n generalizing e with
  | zero => exact absurd hlt (Nat.not_lt_zero _)
  | succ n ih =>
    unfold react
    split
    · next owner tgt hdecl =>
      obtain ⟨-, s, hs, rfl, hreaction⟩ := owner_of_declared hdecl
      rw [Option.isSome_map]
      exact hresolve s hs _ (Entry.mem_transitions hreaction)
    · next owner e' hdecl =>
      obtain ⟨-, s, hs, -, hreaction⟩ := owner_of_declared hdecl
      have hless : rank e' < rank e := hon s hs (e, e') (Entry.mem_on hreaction)
      exact ih e' (by omega)
    · rfl
    · rfl
    · rfl
    · rfl

end Table

end Machines

end Qvd.StateTable
