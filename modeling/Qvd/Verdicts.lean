import Mathlib

/-!
Nested conjunctions and disjunctions whose members may be judged wrongly: when the whole is.
-/
namespace Qvd.Verdicts

/-- The verdict on a level: `all` if every member has it. So `true` is a conjunction, and
`false` a disjunction. -/
def verdict (all : Bool) (members : List Bool) : Bool :=
  if ∀ b ∈ members, b = all then all else !all

/-- Some members, each with its right verdict, are judged wrongly: a level is if one is and the
right verdicts all agree with `all`, or if just those are that do not. -/
def Misjudged (all : Bool) (members : List (Bool × Prop)) : Prop :=
  if ∀ m ∈ members, m.1 = all then ∃ m ∈ members, m.2 else ∀ m ∈ members, m.2 ↔ m.1 ≠ all

/-- The verdicts given differ from the right ones for the members judged wrongly. -/
def Given (verdicts : List Bool) (members : List (Bool × Prop)) : Prop :=
  List.Forall₂ (fun given m => given = m.1 ↔ ¬m.2) verdicts members

variable {all : Bool} {verdicts : List Bool} {members : List (Bool × Prop)}

theorem verdict_nil (all : Bool) : verdict all [] = all :=
  if_pos fun _ h => absurd h List.not_mem_nil

theorem verdict_cons (all b : Bool) (rest : List Bool) :
    verdict all (b :: rest) = if b = all then verdict all rest else !all := by
  unfold verdict
  by_cases hb : b = all
  · rw [if_pos hb]
    exact if_congr (by simp [hb]) rfl rfl
  · rw [if_neg hb, if_neg]
    exact fun h => hb (h b List.mem_cons_self)

theorem verdict_eq_iff_all : verdict all verdicts = all ↔ ∀ b ∈ verdicts, b = all := by
  unfold verdict
  split_ifs with h
  · exact iff_of_true rfl h
  · exact iff_of_false (by cases all <;> decide) h

theorem given_all_iff (h : Given verdicts members) :
    (∀ b ∈ verdicts, b = all) ↔ ∀ m ∈ members, m.1 = all ↔ ¬m.2 := by
  induction h with
  | nil => simp
  | @cons given m verdicts members hfirst _ ih =>
    rw [List.forall_mem_cons, List.forall_mem_cons, ih]
    refine and_congr_left' ?_
    rw [← hfirst]
    obtain ⟨right, wrong⟩ := m
    cases given <;> cases right <;> cases all <;> simp

theorem verdict_eq_iff (h : Given verdicts members) :
    verdict all verdicts = verdict all (members.map (·.1)) ↔ ¬Misjudged all members := by
  have hright : verdict all (members.map (·.1)) = all ↔ ∀ m ∈ members, m.1 = all := by
    rw [verdict_eq_iff_all, List.forall_mem_map]
  have hgiven : verdict all verdicts = all ↔ ∀ m ∈ members, m.1 = all ↔ ¬m.2 :=
    verdict_eq_iff_all.trans (given_all_iff h)
  have hsame : verdict all verdicts = verdict all (members.map (·.1)) ↔
      (verdict all verdicts = all ↔ verdict all (members.map (·.1)) = all) := by
    cases verdict all verdicts <;> cases verdict all (members.map (·.1)) <;> cases all <;> decide
  rw [hsame, hright, hgiven]
  unfold Misjudged
  split_ifs with hall
  · rw [iff_true_right hall, not_exists]
    refine forall_congr' fun m => ?_
    rw [not_and]
    exact forall_congr' fun hmem => by rw [iff_true_left (hall m hmem)]
  · rw [iff_false_right hall, not_iff_not]
    refine forall₂_congr fun m _ => ?_
    tauto

theorem not_misjudged_of_forall (h : ∀ m ∈ members, ¬m.2) : ¬Misjudged all members := by
  unfold Misjudged
  split_ifs with hall
  · rintro ⟨m, hmem, hm⟩
    exact h m hmem hm
  · exact fun hiff => hall fun m hmem => not_not.mp fun hne => h m hmem ((hiff m hmem).mpr hne)

end Qvd.Verdicts
