import Mathlib.Order.RelClasses
import Mathlib.Order.WellFoundedSet
import Qvd.AcyclicRelation
import Qvd.LineText

/-!
Texts with references: the pattern `\$\{(.*?)\}` splits a text into characters and names, and
an interpolator replaces every name by the text it gets for it. Resolvers look the names up
in a table and interpolate what they find; they run with a bound on the depth.
-/
namespace Qvd.Interpolation

open LineText

/-- A character of a text that stays, or a reference. -/
inductive Piece
  | lit (c : Char)
  | ref (name : Text)
deriving DecidableEq, Repr

/-- The name in front of the first closing brace of the line. -/
def closing : Text → Option Text
  | [] => none
  | c :: rest =>
    if c = '}' then some []
    else if c = '\n' then none
    else (closing rest).map (c :: ·)

/-- The matches of the pattern from left to right; the first argument says how much of the
last match is still to be passed over. -/
def scan : ℕ → Text → List Piece
  | _, [] => []
  | skip + 1, _ :: rest => scan skip rest
  | 0, c :: rest =>
    match c, rest with
    | '$', '{' :: inner =>
      match closing inner with
      | some name => .ref name :: scan (name.length + 2) rest
      | none => .lit '$' :: scan 0 rest
    | _, _ => .lit c :: scan 0 rest

def pieces (s : Text) : List Piece := scan 0 s

def refs (s : Text) : List Text :=
  (pieces s).filterMap (fun
    | .lit _ => none
    | .ref name => some name)

/-- `s/\$\{(.*?)\}/f($1)/ge`, with an f that may die. -/
def substitute (f : Text → Option Text) : List Piece → Option Text
  | [] => some []
  | .lit c :: rest => (substitute f rest).map (c :: ·)
  | .ref name :: rest => (f name).bind (fun v => (substitute f rest).map (v ++ ·))

def interpolate (f : Text → Option Text) (s : Text) : Option Text :=
  substitute f (pieces s)

/-- The texts pieces may turn into when names may turn into the texts the relation says. -/
def Becomes (G : Text → Text → Prop) : List Piece → Text → Prop
  | [], v => v = []
  | .lit c :: rest, v => ∃ w, Becomes G rest w ∧ v = c :: w
  | .ref name :: rest, v => ∃ x w, G name x ∧ Becomes G rest w ∧ v = x ++ w

section Pieces

/-- The text a piece stands for. -/
def Piece.text : Piece → Text
  | .lit c => [c]
  | .ref name => '$' :: '{' :: (name ++ ['}'])

theorem closing_eq {s name : Text} (h : closing s = some name) :
    ∃ rest, s = name ++ '}' :: rest := by
  induction s generalizing name with
  | nil => cases h
  | cons c s ih =>
    simp only [closing] at h
    split at h
    · next hc =>
      obtain rfl := Option.some.inj h
      exact ⟨s, by rw [hc]; rfl⟩
    · split at h
      · cases h
      · obtain ⟨name', hname, rfl⟩ := Option.map_eq_some_iff.mp h
        obtain ⟨rest, rfl⟩ := ih hname
        exact ⟨rest, rfl⟩

theorem scan_text (skip : ℕ) (s : Text) : (scan skip s).flatMap Piece.text = s.drop skip := by
  fun_induction scan skip s with
  | case1 => simp
  | case2 skip c rest ih => exact ih
  | case3 inner name hname ih =>
    obtain ⟨rest, rfl⟩ := closing_eq hname
    rw [List.flatMap_cons, ih]
    simp [Piece.text, List.drop_append]
  | case4 inner hnone ih =>
    rw [List.flatMap_cons, ih]
    rfl
  | case5 c rest hno ih =>
    rw [List.flatMap_cons, ih]
    rfl

/-- Nothing of a text is lost when it is split. -/
theorem pieces_text (s : Text) : (pieces s).flatMap Piece.text = s :=
  scan_text 0 s

theorem mem_refs_iff {s name : Text} : name ∈ refs s ↔ Piece.ref name ∈ pieces s := by
  simp only [refs, List.mem_filterMap]
  constructor
  · rintro ⟨p, hp, hname⟩
    cases p with
    | lit c => cases hname
    | ref name' => exact Option.some.inj hname ▸ hp
  · exact fun h => ⟨.ref name, h, rfl⟩

end Pieces

section Becoming

variable {G H : Text → Text → Prop} {ps : List Piece} {v w : Text}

theorem Becomes.mono (h : Becomes G ps v)
    (hGH : ∀ name x, Piece.ref name ∈ ps → G name x → H name x) : Becomes H ps v := by
  induction ps generalizing v with
  | nil => exact h
  | cons p ps ih =>
    cases p with
    | lit c =>
      obtain ⟨w, hw, rfl⟩ := h
      exact ⟨w, ih hw (fun name x hname => hGH name x (List.mem_cons_of_mem _ hname)), rfl⟩
    | ref name =>
      obtain ⟨x, w, hx, hw, rfl⟩ := h
      exact ⟨x, w, hGH name x List.mem_cons_self hx,
        ih hw (fun name x hname => hGH name x (List.mem_cons_of_mem _ hname)), rfl⟩

/-- Names that turn into one text at most make a text turn into one at most. -/
theorem Becomes.unique (hG : ∀ name x y, G name x → G name y → x = y) (hv : Becomes G ps v)
    (hw : Becomes G ps w) : v = w := by
  induction ps generalizing v w with
  | nil => exact Eq.trans hv (Eq.symm hw)
  | cons p ps ih =>
    cases p with
    | lit c =>
      obtain ⟨v, hv, rfl⟩ := hv
      obtain ⟨w, hw, rfl⟩ := hw
      rw [ih hv hw]
    | ref name =>
      obtain ⟨x, v, hx, hv, rfl⟩ := hv
      obtain ⟨y, w, hy, hw, rfl⟩ := hw
      rw [hG name x y hx hy, ih hv hw]

theorem becomes_exists (h : ∀ name, Piece.ref name ∈ ps → ∃ x, G name x) :
    ∃ v, Becomes G ps v := by
  induction ps with
  | nil => exact ⟨[], rfl⟩
  | cons p ps ih =>
    obtain ⟨w, hw⟩ := ih (fun name hname => h name (List.mem_cons_of_mem _ hname))
    cases p with
    | lit c => exact ⟨c :: w, w, hw, rfl⟩
    | ref name =>
      obtain ⟨x, hx⟩ := h name List.mem_cons_self
      exact ⟨x ++ w, x, w, hx, hw, rfl⟩

theorem Becomes.exists_of_ref (h : Becomes G ps v) {name : Text} (hname : Piece.ref name ∈ ps) :
    ∃ x, G name x := by
  induction ps generalizing v with
  | nil => cases hname
  | cons p ps ih =>
    cases p with
    | lit c =>
      obtain ⟨w, hw, -⟩ := h
      exact ih hw ((List.mem_cons.mp hname).resolve_left (by simp))
    | ref name' =>
      obtain ⟨x, w, hx, hw, -⟩ := h
      rcases List.mem_cons.mp hname with heq | hrest
      · exact ⟨x, (Piece.ref.inj heq) ▸ hx⟩
      · exact ih hw hrest

/-- A text without references stays as it is. -/
theorem becomes_self {s : Text} (h : refs s = []) : Becomes G (pieces s) s := by
  have hlits : ∀ ps : List Piece, (∀ name, Piece.ref name ∉ ps) →
      Becomes G ps (ps.flatMap Piece.text) := by
    intro ps
    induction ps with
    | nil => exact fun _ => rfl
    | cons p ps ih =>
      intro hps
      cases p with
      | lit c => exact ⟨_, ih (fun name hname => hps name (List.mem_cons_of_mem _ hname)), rfl⟩
      | ref name => exact absurd List.mem_cons_self (hps name)
  have hself := hlits (pieces s) (fun name hname => by
    rw [← mem_refs_iff, h] at hname
    cases hname)
  rwa [pieces_text] at hself

/-- How the lengths differ when one name changes its text. -/
theorem becomes_length {name x y : Text} (hG : ∀ z, G name z → z = x) (hH : ∀ z, H name z → z = y)
    (hother : ∀ n z z', n ≠ name → G n z → H n z' → z = z') (hv : Becomes G ps v)
    (hw : Becomes H ps w) : ∃ m, v.length + m * y.length = w.length + m * x.length := by
  induction ps generalizing v w with
  | nil =>
    obtain rfl : v = [] := hv
    obtain rfl : w = [] := hw
    exact ⟨0, by simp⟩
  | cons p ps ih =>
    cases p with
    | lit c =>
      obtain ⟨v, hv, rfl⟩ := hv
      obtain ⟨w, hw, rfl⟩ := hw
      obtain ⟨m, hm⟩ := ih hv hw
      exact ⟨m, by simp only [List.length_cons]; omega⟩
    | ref n =>
      obtain ⟨z, v, hz, hv, rfl⟩ := hv
      obtain ⟨z', w, hz', hw, rfl⟩ := hw
      obtain ⟨m, hm⟩ := ih hv hw
      by_cases hn : n = name
      · subst hn
        refine ⟨m + 1, ?_⟩
        rw [hG z hz, hH z' hz', List.length_append, List.length_append, Nat.succ_mul,
          Nat.succ_mul]
        omega
      · obtain rfl := hother n z z' hn hz hz'
        exact ⟨m, by rw [List.length_append, List.length_append]; omega⟩

/-- When one name that occurs changes its text, the whole text changes. -/
theorem eq_of_becomes {name x y : Text} (hG : ∀ z, G name z → z = x) (hH : ∀ z, H name z → z = y)
    (hother : ∀ n z z', n ≠ name → G n z → H n z' → z = z') (hv : Becomes G ps v)
    (hw : Becomes H ps v) (hname : Piece.ref name ∈ ps) : x = y := by
  induction ps generalizing v with
  | nil => cases hname
  | cons p ps ih =>
    cases p with
    | lit c =>
      obtain ⟨v, hv, rfl⟩ := hv
      obtain ⟨w, hw, heq⟩ := hw
      obtain rfl := (List.cons.inj heq).2
      exact ih hv hw ((List.mem_cons.mp hname).resolve_left (by simp))
    | ref n =>
      obtain ⟨z, v, hz, hv, rfl⟩ := hv
      obtain ⟨z', w, hz', hw, heq⟩ := hw
      by_cases hn : n = name
      · subst hn
        obtain rfl := hG z hz
        obtain rfl := hH z' hz'
        obtain ⟨m, hm⟩ := becomes_length hG hH hother hv hw
        have hsum := congrArg List.length heq
        rw [List.length_append, List.length_append] at hsum
        have hlength : z.length = z'.length := by
          apply Nat.eq_of_mul_eq_mul_left (Nat.succ_pos m)
          rw [Nat.succ_mul, Nat.succ_mul]
          omega
        exact (List.append_inj heq hlength).1
      · obtain rfl := hother n z z' hn hz hz'
        obtain rfl := List.append_cancel_left heq
        exact ih hv hw ((List.mem_cons.mp hname).resolve_left (fun h => hn (Piece.ref.inj h).symm))

end Becoming

section Fuel

variable {f : ℕ → Text → Option Text} {ps : List Piece} {v : Text}

theorem substitute_iff (g : Text → Option Text) :
    substitute g ps = some v ↔ Becomes (fun name x => g name = some x) ps v := by
  induction ps generalizing v with
  | nil => exact (Option.some.injEq _ _).to_iff.trans eq_comm
  | cons p ps ih =>
    cases p with
    | lit c =>
      simp only [substitute, Option.map_eq_some_iff, ih, Becomes]
      exact exists_congr fun w => and_congr_right fun _ => eq_comm
    | ref name =>
      simp only [substitute, Option.bind_eq_some_iff, Option.map_eq_some_iff, ih, Becomes]
      constructor
      · rintro ⟨x, hx, w, hw, rfl⟩
        exact ⟨x, w, hx, hw, rfl⟩
      · rintro ⟨x, w, hx, hw, rfl⟩
        exact ⟨x, hx, w, hw, rfl⟩

theorem substitute_mono {g g' : Text → Option Text}
    (hg : ∀ name x, g name = some x → g' name = some x) (h : substitute g ps = some v) :
    substitute g' ps = some v := by
  rw [substitute_iff] at h ⊢
  exact h.mono (fun name x _ hx => hg name x hx)

/-- A function that keeps its values when the bound grows, with any bound. -/
def Gives (f : ℕ → Text → Option Text) (k v : Text) : Prop :=
  ∃ n, f n k = some v

def Monotone (f : ℕ → Text → Option Text) : Prop :=
  ∀ n k v, f n k = some v → f (n + 1) k = some v

theorem Monotone.le (hf : Monotone f) {n m : ℕ} (h : n ≤ m) {k v : Text}
    (hv : f n k = some v) : f m k = some v := by
  induction h with
  | refl => exact hv
  | step _ ih => exact hf _ _ _ ih

theorem Gives.unique (hf : Monotone f) {k w : Text} (hv : Gives f k v) (hw : Gives f k w) :
    v = w := by
  obtain ⟨n, hn⟩ := hv
  obtain ⟨m, hm⟩ := hw
  have hn' := hf.le (Nat.le_max_left n m) hn
  rw [hf.le (Nat.le_max_right n m) hm] at hn'
  exact (Option.some.inj hn').symm

/-- Interpolating with some bound that is large enough for all the names. -/
theorem becomes_gives_iff (hf : Monotone f) :
    Becomes (Gives f) ps v ↔ ∃ n, substitute (f n) ps = some v := by
  constructor
  · intro h
    induction ps generalizing v with
    | nil => exact ⟨0, congrArg some (Eq.symm h)⟩
    | cons p ps ih =>
      cases p with
      | lit c =>
        obtain ⟨w, hw, rfl⟩ := h
        obtain ⟨n, hn⟩ := ih hw
        exact ⟨n, by rw [substitute, hn]; rfl⟩
      | ref name =>
        obtain ⟨x, w, ⟨m, hm⟩, hw, rfl⟩ := h
        obtain ⟨n, hn⟩ := ih hw
        refine ⟨max m n, ?_⟩
        rw [substitute, hf.le (Nat.le_max_left m n) hm, Option.bind_some,
          substitute_mono (fun _ _ hx => hf.le (Nat.le_max_right m n) hx) hn]
        rfl
  · rintro ⟨n, hn⟩
    exact ((substitute_iff _).mp hn).mono (fun name x _ hx => ⟨n, hx⟩)

end Fuel

section Resolving

/-- Names that stand for something without being looked up. -/
def orElse (escape f : Text → Option Text) (name : Text) : Option Text :=
  (escape name).orElse (fun _ => f name)

/-- Looks a key up and interpolates what it finds, to a depth. -/
def resolve (raw escape : Text → Option Text) : ℕ → Text → Option Text
  | 0, _ => none
  | n + 1, k => (raw k).bind (interpolate (orElse escape (resolve raw escape n)))

variable {raw escape : Text → Option Text}

/-- What a name in a text stands for, to any depth. -/
def Means (raw escape : Text → Option Text) (name v : Text) : Prop :=
  escape name = some v ∨ (escape name = none ∧ Gives (resolve raw escape) name v)

theorem orElse_eq_some_iff {f : Text → Option Text} {name v : Text} :
    orElse escape f name = some v ↔
      escape name = some v ∨ (escape name = none ∧ f name = some v) := by
  unfold orElse
  cases escape name <;> simp

theorem monotone_orElse {f : ℕ → Text → Option Text} (hf : Monotone f) :
    Monotone (fun n => orElse escape (f n)) := by
  intro n name v h
  rw [orElse_eq_some_iff] at h ⊢
  exact h.imp_right (fun ⟨hnone, hv⟩ => ⟨hnone, hf n name v hv⟩)

theorem monotone_resolve : Monotone (resolve raw escape) := by
  intro n
  induction n with
  | zero =>
    intro k v h
    cases h
  | succ n ih =>
    intro k v h
    obtain ⟨t, ht, hv⟩ := Option.bind_eq_some_iff.mp h
    refine Option.bind_eq_some_iff.mpr ⟨t, ht, substitute_mono (fun name x hx => ?_) hv⟩
    rw [orElse_eq_some_iff] at hx ⊢
    exact hx.imp_right (fun ⟨hnone, hx⟩ => ⟨hnone, ih name x hx⟩)

theorem gives_orElse_iff {name v : Text} :
    Gives (fun n => orElse escape (resolve raw escape n)) name v ↔ Means raw escape name v := by
  simp only [Gives, orElse_eq_some_iff, Means]
  constructor
  · rintro ⟨n, hv | ⟨hnone, hv⟩⟩
    · exact Or.inl hv
    · exact Or.inr ⟨hnone, n, hv⟩
  · rintro (hv | ⟨hnone, n, hv⟩)
    · exact ⟨0, Or.inl hv⟩
    · exact ⟨n, Or.inr ⟨hnone, hv⟩⟩

/-- The spec of a resolver: what it finds, interpolated with what the names mean. -/
theorem gives_resolve_iff {k v : Text} : Gives (resolve raw escape) k v ↔
    ∃ t, raw k = some t ∧ Becomes (Means raw escape) (pieces t) v := by
  have hmeans : ∀ t, Becomes (Means raw escape) (pieces t) v ↔
      ∃ n, substitute (orElse escape (resolve raw escape n)) (pieces t) = some v := by
    intro t
    rw [← becomes_gives_iff (monotone_orElse monotone_resolve)]
    constructor
    · exact fun h => h.mono (fun _ _ _ hx => gives_orElse_iff.mpr hx)
    · exact fun h => h.mono (fun _ _ _ hx => gives_orElse_iff.mp hx)
  constructor
  · rintro ⟨n, hn⟩
    cases n with
    | zero => cases hn
    | succ n =>
      obtain ⟨t, ht, hv⟩ := Option.bind_eq_some_iff.mp hn
      exact ⟨t, ht, (hmeans t).mpr ⟨n, hv⟩⟩
  · rintro ⟨t, ht, hv⟩
    obtain ⟨n, hn⟩ := (hmeans t).mp hv
    exact ⟨n + 1, Option.bind_eq_some_iff.mpr ⟨t, ht, hn⟩⟩

theorem gives_unique {k v w : Text} (hv : Gives (resolve raw escape) k v)
    (hw : Gives (resolve raw escape) k w) : v = w :=
  hv.unique monotone_resolve hw

/-- A key's text refers to a name that is looked up. -/
def Refers (raw escape : Text → Option Text) (k name : Text) : Prop :=
  ∃ t, raw k = some t ∧ name ∈ refs t ∧ escape name = none

/-- With references that end and names that are found, every key that is found has a value. -/
theorem gives_exists (hwf : WellFounded (fun name k => Refers raw escape k name))
    (hfound : ∀ k name, Refers raw escape k name → raw name ≠ none) (k : Text)
    (hk : raw k ≠ none) : ∃ v, Gives (resolve raw escape) k v := by
  induction k using hwf.induction with
  | _ k ih =>
    obtain ⟨t, ht⟩ := Option.ne_none_iff_exists'.mp hk
    have hmeans : ∀ name, Piece.ref name ∈ pieces t → ∃ x, Means raw escape name x := by
      intro name hname
      cases hesc : escape name with
      | some x => exact ⟨x, Or.inl hesc⟩
      | none =>
        have href : Refers raw escape k name := ⟨t, ht, mem_refs_iff.mpr hname, hesc⟩
        obtain ⟨x, hx⟩ := ih name href (hfound k name href)
        exact ⟨x, Or.inr ⟨hesc, hx⟩⟩
    obtain ⟨v, hv⟩ := becomes_exists hmeans
    exact ⟨v, gives_resolve_iff.mpr ⟨t, ht, hv⟩⟩

end Resolving

section Finite

open Relation AcyclicRelation

/-- A relation without cycles ends everywhere when only finitely many points have successors. -/
theorem wellFounded_of_acyclic {α : Type*} {r : α → α → Prop} (hr : Acyclic r) {s : Set α}
    (hs : s.Finite) (hsource : ∀ x y, r x y → x ∈ s) : WellFounded (fun y x => r x y) := by
  have hirrefl : Std.Irrefl (fun y x => TransGen r x y) := ⟨hr⟩
  have htrans : IsTrans α (fun y x => TransGen r x y) := ⟨fun _ _ _ hyx hzy => hzy.trans hyx⟩
  have horder : IsStrictOrder α (fun y x => TransGen r x y) := { }
  have hwf := Set.wellFoundedOn_iff.mp (hs.wellFoundedOn (r := fun y x => TransGen r x y))
  refine ⟨fun x => ?_⟩
  induction x using hwf.induction with
  | _ x ih =>
    refine Acc.intro x fun y hxy => ?_
    by_cases hy : y ∈ s
    · exact ih y ⟨TransGen.single hxy, hy, hsource x y hxy⟩
    · exact Acc.intro y fun z hyz => absurd (hsource y z hyz) hy

end Finite

end Qvd.Interpolation
