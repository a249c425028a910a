import Mathlib.Data.List.Nodup
import Mathlib.Data.List.Perm.Subperm
import Qvd.AcyclicRelation

/-!
Breadth-first visits of a finite forest. A visit with room for all nodes takes each node that
is reached from its root once, and none before the node it is a successor of.
-/
namespace Qvd.BreadthFirst

open Relation AcyclicRelation

variable {α : Type*} (succ : α → List α)

/-- The nodes visited from a queue, with a bound on their number. -/
def visit : ℕ → List α → List α
  | 0, _ => []
  | _ + 1, [] => []
  | n + 1, a :: queue => a :: visit n (queue ++ succ a)

def Succ (a x : α) : Prop := x ∈ succ a

/-- No node is a successor twice, or of two nodes, or reaches itself. -/
structure Forest (nodes : List α) : Prop where
  closed : ∀ a x, x ∈ succ a → x ∈ nodes
  nodup : ∀ a, (succ a).Nodup
  unique : ∀ a ∈ nodes, ∀ b ∈ nodes, ∀ x, x ∈ succ a → x ∈ succ b → a = b
  acyclic : Acyclic (Succ succ)

/-- The nodes visited and those in the queue, somewhere on a visit. -/
structure Visiting (root : α) (done queue : List α) : Prop where
  nodup : (done ++ queue).Nodup
  root_mem : root ∈ done ++ queue
  reached : ∀ x ∈ done ++ queue, ReflTransGen (Succ succ) root x
  origin : ∀ x ∈ done ++ queue, x = root ∨ ∃ a ∈ done, x ∈ succ a
  closed : ∀ a ∈ done, ∀ x ∈ succ a, x ∈ done ++ queue
  later : done.Pairwise fun x y => x ∉ succ y

section Visits

variable {succ} {nodes : List α} {root : α} {done queue : List α}

theorem Forest.mem_of_reached (h : Forest succ nodes) (hroot : root ∈ nodes) {x : α}
    (hx : ReflTransGen (Succ succ) root x) : x ∈ nodes := by
  cases hx with
  | refl => exact hroot
  | tail _ hx => exact h.closed _ _ hx

theorem Visiting.start (succ : α → List α) (root : α) : Visiting succ root [] [root] where
  nodup := List.nodup_singleton root
  root_mem := List.mem_singleton_self root
  reached x hx := by
    rw [List.mem_singleton.mp hx]
  origin x hx := .inl (List.mem_singleton.mp hx)
  closed a ha := by cases ha
  later := List.Pairwise.nil

/-- The successors of the node at the head of the queue have not been seen. -/
theorem Visiting.fresh (hf : Forest succ nodes) (hroot : root ∈ nodes) {a : α}
    (h : Visiting succ root done (a :: queue)) {x : α} (hx : x ∈ succ a) :
    x ∉ done ++ a :: queue := by
  intro hmem
  have hreached := h.reached a (by simp)
  rcases h.origin x hmem with rfl | ⟨b, hb, hxb⟩
  · exact hf.acyclic x (TransGen.tail' hreached hx)
  · have hnodes := hf.mem_of_reached hroot (h.reached b (List.mem_append_left _ hb))
    obtain rfl := hf.unique a (hf.mem_of_reached hroot hreached) b hnodes x hx hxb
    exact (List.nodup_append.mp h.nodup).2.2 a hb a List.mem_cons_self rfl

theorem Visiting.next (hf : Forest succ nodes) (hroot : root ∈ nodes) {a : α}
    (h : Visiting succ root done (a :: queue)) :
    Visiting succ root (done ++ [a]) (queue ++ succ a) := by
  have hsplit : (done ++ [a]) ++ (queue ++ succ a) = (done ++ a :: queue) ++ succ a := by simp
  have hfresh := fun x => h.fresh (x := x) hf hroot
  constructor
  · rw [hsplit, List.nodup_append]
    exact ⟨h.nodup, hf.nodup a, fun x hx y hy heq => hfresh y hy (heq ▸ hx)⟩
  · rw [hsplit]
    exact List.mem_append_left _ h.root_mem
  · rw [hsplit]
    intro x hx
    rcases List.mem_append.mp hx with hx | hx
    · exact h.reached x hx
    · exact (h.reached a (by simp)).tail hx
  · rw [hsplit]
    intro x hx
    rcases List.mem_append.mp hx with hx | hx
    · exact (h.origin x hx).imp_right fun ⟨b, hb, hxb⟩ =>
        ⟨b, List.mem_append_left _ hb, hxb⟩
    · exact .inr ⟨a, by simp, hx⟩
  · rw [hsplit]
    intro b hb x hx
    rcases List.mem_append.mp hb with hb | hb
    · exact List.mem_append_left _ (h.closed b hb x hx)
    · rw [List.mem_singleton.mp hb] at hx
      exact List.mem_append_right _ hx
  · rw [List.pairwise_append]
    refine ⟨h.later, List.pairwise_singleton _ _, fun x hx y hy hmem => ?_⟩
    rw [List.mem_singleton.mp hy] at hmem
    exact hfresh x hmem (List.mem_append_left _ hx)

/-- With room for all nodes a visit ends with an empty queue. -/
theorem Visiting.finish (hf : Forest succ nodes) (hroot : root ∈ nodes) (n : ℕ) :
    ∀ {done queue : List α}, Visiting succ root done queue →
      nodes.length ≤ done.length + n → Visiting succ root (done ++ visit succ n queue) [] := by
  have hlength : ∀ {done queue : List α}, Visiting succ root done queue →
      (done ++ queue).length ≤ nodes.length := fun h =>
    (List.subperm_of_subset h.nodup fun x hx =>
      hf.mem_of_reached hroot (h.reached x hx)).length_le
  induction n with
  | zero =>
    intro done queue h hn
    have hle := hlength h
    rw [List.length_append] at hle
    obtain rfl : queue = [] := List.eq_nil_of_length_eq_zero (by omega)
    rwa [visit, List.append_nil]
  | succ n ih =>
    intro done queue h hn
    cases queue with
    | nil => rwa [visit, List.append_nil]
    | cons a queue =>
      have hnext := ih (h.next hf hroot) (by simpa [Nat.add_assoc, Nat.add_comm 1] using hn)
      rwa [List.append_assoc, List.singleton_append] at hnext

end Visits

section Results

variable {succ} {nodes : List α} {root : α} {n : ℕ}

theorem visiting_visit (hf : Forest succ nodes) (hroot : root ∈ nodes)
    (hn : nodes.length ≤ n) : Visiting succ root (visit succ n [root]) [] :=
  Visiting.finish hf hroot n (Visiting.start succ root) (by simpa using hn)

theorem mem_visit_iff (hf : Forest succ nodes) (hroot : root ∈ nodes)
    (hn : nodes.length ≤ n) (x : α) :
    x ∈ visit succ n [root] ↔ ReflTransGen (Succ succ) root x := by
  have h := visiting_visit hf hroot hn
  constructor
  · intro hx
    exact h.reached x (by simpa using hx)
  · intro hx
    induction hx with
    | refl => simpa using h.root_mem
    | tail _ hx ih => simpa using h.closed _ ih _ hx

/-- The last node visited has no successors. -/
theorem succ_last (hf : Forest succ nodes) (hroot : root ∈ nodes) (hn : nodes.length ≤ n)
    {a : α} (ha : (visit succ n [root]).getLast? = some a) : succ a = [] := by
  have h := visiting_visit hf hroot hn
  obtain ⟨before, hvisit⟩ := List.getLast?_eq_some_iff.mp ha
  rw [hvisit] at h
  refine List.eq_nil_iff_forall_not_mem.mpr fun x hx => ?_
  have hmem := h.closed a (by simp) x hx
  rw [List.append_nil] at hmem
  rcases List.mem_append.mp hmem with hbefore | hlast
  · exact (List.pairwise_append.mp h.later).2.2 x hbefore a (by simp) hx
  · rw [List.mem_singleton.mp hlast] at hx
    exact hf.acyclic a (TransGen.single hx)

end Results

end Qvd.BreadthFirst
