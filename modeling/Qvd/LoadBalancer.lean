import Mathlib
import Qvd.Runs
import Qvd.VmRuntimeRow

/-!
The default load balancer, and the programs that place machines by it. Each of them asks for a
host and assigns the machine later, and in between others may have placed theirs. As long as
machines are only placed, none of them would have been much better off on another host.
-/
namespace Qvd.LoadBalancer

open Runs VmRuntimeRow

/-! ### The choice of a host -/

/-- A row of hosts with its row of host_runtimes. -/
structure Host where
  id : HostId
  backend : Bool
  blocked : Bool
  state : HostState
  usableRam : ℚ
  usableCpu : ℚ
  ram_nonneg : 0 ≤ usableRam
  cpu_nonneg : 0 ≤ usableCpu
deriving DecidableEq

/-- The weights of the configuration. -/
structure Weights where
  ram : ℚ := 1000
  cpu : ℚ := 1000
  random : ℚ := 100
  ram_nonneg : 0 ≤ ram := by norm_num
  cpu_nonneg : 0 ≤ cpu := by norm_num
  random_nonneg : 0 ≤ random := by norm_num

section Choice

variable (weights : Weights)

/-- What a host has to offer to all of its machines together. -/
def Weights.worth (h : Host) : ℚ := weights.ram * h.usableRam + weights.cpu * h.usableCpu

/-- The bound of `rand($weight_random)`; an argument of 0 is taken for 1. -/
def Weights.spread : ℚ := if weights.random = 0 then 1 else weights.random

/-- `$cap`: what a machine would get, and a draw of `rand`. -/
def capacity (vms : HostId → ℕ) (draw : Host → ℚ) (h : Host) : ℚ :=
  weights.worth h / (vms h.id + 1) + draw h

/-- The best host of a loop over the rows; a later one has to be better. -/
def bestHost (cap : Host → ℚ) : Option Host → List Host → Option Host
  | best, [] => best
  | none, h :: hosts => bestHost cap (some h) hosts
  | some best, h :: hosts => bestHost cap (some (if cap best < cap h then h else best)) hosts

/-- The hosts of the search. -/
def eligible (hosts : List Host) : List Host :=
  hosts.filter fun h => h.backend && !h.blocked && h.state = .running

/-- `get_free_host`; `none` where it croaks. -/
def getFreeHost (hosts : List Host) (vms : HostId → ℕ) (draw : Host → ℚ) : Option Host :=
  bestHost (capacity weights vms draw) none (eligible hosts)

theorem worth_nonneg (h : Host) : 0 ≤ weights.worth h :=
  add_nonneg (mul_nonneg weights.ram_nonneg h.ram_nonneg)
    (mul_nonneg weights.cpu_nonneg h.cpu_nonneg)

theorem spread_pos : 0 < weights.spread := by
  unfold Weights.spread
  split
  · exact one_pos
  · next hne => exact lt_of_le_of_ne weights.random_nonneg (Ne.symm hne)

variable {weights} {cap : Host → ℚ} {best : Host}

/-- The best host is one of those seen, and at least as good as each of them. -/
theorem bestHost_spec {first : Option Host} {hosts : List Host}
    (h : bestHost cap first hosts = some best) :
    (first = some best ∨ best ∈ hosts) ∧ (∀ b, first = some b → cap b ≤ cap best) ∧
      ∀ b ∈ hosts, cap b ≤ cap best := by
  fun_induction bestHost cap first hosts with
  | case1 first =>
    subst h
    exact ⟨.inl rfl, fun b hb => (Option.some.inj hb) ▸ le_rfl, nofun⟩
  | case2 host hosts ih =>
    obtain ⟨hmem, hfirst, hall⟩ := ih h
    refine ⟨.inr ?_, nofun, List.forall_mem_cons.mpr ⟨hfirst host rfl, hall⟩⟩
    exact hmem.elim (fun heq => Option.some.inj heq ▸ List.mem_cons_self) (List.mem_cons_of_mem _)
  | case3 current host hosts ih =>
    obtain ⟨hmem, hfirst, hall⟩ := ih h
    have hbetter := hfirst _ rfl
    have hboth : cap current ≤ cap best ∧ cap host ≤ cap best := by
      split at hbetter
      · next hlt => exact ⟨hlt.le.trans hbetter, hbetter⟩
      · next hnot => exact ⟨hbetter, (not_lt.mp hnot).trans hbetter⟩
    refine ⟨?_, fun b hb => Option.some.inj hb ▸ hboth.1, List.forall_mem_cons.mpr ⟨hboth.2, hall⟩⟩
    rcases hmem with heq | hmem
    · split at heq
      · exact .inr (Option.some.inj heq ▸ List.mem_cons_self)
      · exact .inl heq
    · exact .inr (List.mem_cons_of_mem _ hmem)

end Choice

/-! ### Placing machines -/

/-- A decision, with the hosts of the machines that its program has seen, and how many had been
assigned by then. -/
structure Decision where
  host : Host
  seen : List HostId
  since : ℕ

/-- The hosts of the machines there are, those of the machines that have stopped in the run, those
that have been assigned in it, and the decisions that are not carried out yet. -/
structure World (P : Type*) where
  placed : List HostId
  left : List HostId
  given : List Host
  pending : P → Option Decision

/-- The hosts and their load-balancing data, which stay as they are. -/
structure Site where
  weights : Weights
  hosts : List Host
  ids : ∀ a ∈ hosts, ∀ b ∈ hosts, a.id = b.id → a = b

inductive Label (P : Type*) where
  | decide (p : P) (draw : Host → ℚ)
  | assign (p : P)
  | giveUp (p : P)
  | leave (id : HostId)

section Placing

variable {P : Type*} [DecidableEq P] (site : Site)

inductive Step : World P → Label P → World P → Prop
  | decide {w : World P} {draw : Host → ℚ} {host : Host} (p : P)
      (hdraw : ∀ h, 0 ≤ draw h ∧ draw h < site.weights.spread)
      (hhost : getFreeHost site.weights site.hosts (w.placed.count ·) draw = some host) :
      Step w (.decide p draw)
        { w with pending := Function.update w.pending p (some ⟨host, w.placed, w.given.length⟩) }
  | assign {w : World P} {p : P} {d : Decision} (hd : w.pending p = some d) :
      Step w (.assign p)
        { w with
          placed := d.host.id :: w.placed
          given := d.host :: w.given
          pending := Function.update w.pending p none }
  | giveUp (w : World P) (p : P) :
      Step w (.giveUp p) { w with pending := Function.update w.pending p none }
  | leave {w : World P} {id : HostId} (hid : id ∈ w.placed) :
      Step w (.leave id) { w with placed := w.placed.erase id, left := id :: w.left }

/-- Any number of programs, from any placement of the machines there are. -/
def placing (P : Type*) [DecidableEq P] : System (World P) (Label P) where
  init w := w.left = [] ∧ w.given = [] ∧ ∀ p, w.pending p = none
  step := Step site

/-- No more than so many machines have been assigned between a decision and its own assignment. -/
def Fresh (m : ℕ) (w : World P) : Label P → Prop
  | .assign p => ∀ d, w.pending p = some d → w.given.length ≤ d.since + m
  | _ => True

/-- What the host `j` would have to offer to one more machine, its machines that have stopped
counted with the others, is less than what the machines of `i` have, the latest `m` left out, up to
the random part. -/
def Balanced (m : ℕ) (w : World P) (i j : Host) : Prop :=
  m < w.placed.count i.id →
    site.weights.worth j / (w.placed.count j.id + w.left.count j.id + 1) <
      site.weights.worth i / (w.placed.count i.id - m) + site.weights.spread

/-- A decision is the best for what it has seen, of which little has changed. -/
structure DecisionOk (w : World P) (d : Decision) : Prop where
  allowed : d.host ∈ eligible site.hosts
  best : ∀ j ∈ eligible site.hosts,
    site.weights.worth j / (d.seen.count j.id + 1) <
      site.weights.worth d.host / (d.seen.count d.host.id + 1) + site.weights.spread
  kept : ∀ id, d.seen.count id ≤ w.placed.count id + w.left.count id
  grown : ∀ id, w.placed.count id + d.since ≤ d.seen.count id + w.given.length

structure Inv (m : ℕ) (w : World P) : Prop where
  given : ∀ i ∈ w.given, i ∈ eligible site.hosts
  pending : ∀ p d, w.pending p = some d → DecisionOk site w d
  balanced : ∀ i ∈ w.given, ∀ j ∈ eligible site.hosts, Balanced site m w i j

variable {site} {m : ℕ} {w w' : World P} {l : Label P} {i j : Host}

omit [DecidableEq P] in
/-- The host of a decision when it is made. -/
theorem best_of_getFreeHost {draw : Host → ℚ} {host : Host}
    (hdraw : ∀ h, 0 ≤ draw h ∧ draw h < site.weights.spread)
    (hhost : getFreeHost site.weights site.hosts (w.placed.count ·) draw = some host) :
    DecisionOk site w ⟨host, w.placed, w.given.length⟩ := by
  obtain ⟨hmem, -, hall⟩ := bestHost_spec hhost
  refine ⟨hmem.resolve_left nofun, fun j hj => ?_, fun id => Nat.le_add_right _ _, fun id => le_rfl⟩
  have hle := hall j hj
  unfold capacity at hle
  have hj := (hdraw j).1
  have hhost := (hdraw host).2
  linarith

omit [DecidableEq P] in
/-- A machine more on the one host or a machine less on the other keep the balance. -/
theorem Balanced.mono (h : Balanced site m w i j)
    (hj : w.placed.count j.id + w.left.count j.id ≤ w'.placed.count j.id + w'.left.count j.id)
    (hi : w'.placed.count i.id ≤ w.placed.count i.id) : Balanced site m w' i j := by
  intro hm
  have hsmall : (m : ℚ) < w'.placed.count i.id := by exact_mod_cast hm
  have hi : (w'.placed.count i.id : ℚ) ≤ w.placed.count i.id := by exact_mod_cast hi
  have hj : (w.placed.count j.id : ℚ) + w.left.count j.id ≤
      w'.placed.count j.id + w'.left.count j.id := by exact_mod_cast hj
  have hworth := worth_nonneg site.weights
  calc site.weights.worth j / (w'.placed.count j.id + w'.left.count j.id + 1)
      ≤ site.weights.worth j / (w.placed.count j.id + w.left.count j.id + 1) :=
        div_le_div_of_nonneg_left (hworth j) (by positivity) (by linarith)
    _ < site.weights.worth i / (w.placed.count i.id - m) + site.weights.spread :=
        h (lt_of_lt_of_le hm (by exact_mod_cast hi))
    _ ≤ site.weights.worth i / (w'.placed.count i.id - m) + site.weights.spread :=
        add_le_add_left (div_le_div_of_nonneg_left (hworth i) (by linarith) (by linarith)) _

omit [DecidableEq P] in
/-- The host that a fresh decision gives its machine to. -/
theorem DecisionOk.balanced {d : Decision} (hd : DecisionOk site w d)
    (hfresh : w.given.length ≤ d.since + m)
    (hplaced : w'.placed = d.host.id :: w.placed) (hleft : w'.left = w.left)
    (hj : j ∈ eligible site.hosts) : Balanced site m w' d.host j := by
  intro hm
  have hkept := hd.kept j.id
  have hgrown := hd.grown d.host.id
  have hi : w'.placed.count d.host.id ≤ d.seen.count d.host.id + 1 + m := by
    rw [hplaced, List.count_cons_self]
    omega
  have hsum : d.seen.count j.id ≤ w'.placed.count j.id + w'.left.count j.id := by
    have hcons := List.count_le_count_cons (a := j.id) (b := d.host.id) (l := w.placed)
    rw [hleft, hplaced]
    omega
  have hsmall : (m : ℚ) < w'.placed.count d.host.id := by exact_mod_cast hm
  have hi : (w'.placed.count d.host.id : ℚ) ≤ d.seen.count d.host.id + 1 + m := by
    exact_mod_cast hi
  have hsum : (d.seen.count j.id : ℚ) ≤ w'.placed.count j.id + w'.left.count j.id := by
    exact_mod_cast hsum
  have hworth := worth_nonneg site.weights
  calc site.weights.worth j / (w'.placed.count j.id + w'.left.count j.id + 1)
      ≤ site.weights.worth j / (d.seen.count j.id + 1) :=
        div_le_div_of_nonneg_left (hworth j) (by positivity) (by linarith)
    _ < site.weights.worth d.host / (d.seen.count d.host.id + 1) + site.weights.spread :=
        hd.best j hj
    _ ≤ site.weights.worth d.host / (w'.placed.count d.host.id - m) + site.weights.spread :=
        add_le_add_left (div_le_div_of_nonneg_left (hworth _) (by linarith) (by linarith)) _

omit [DecidableEq P] in
/-- A decision stands when machines are assigned and when machines stop. -/
theorem DecisionOk.later {d : Decision} (hd : DecisionOk site w d)
    (hkept : ∀ id, w.placed.count id + w.left.count id ≤
      w'.placed.count id + w'.left.count id)
    (hgrown : ∀ id, w'.placed.count id + w.given.length ≤
      w.placed.count id + w'.given.length) : DecisionOk site w' d where
  allowed := hd.allowed
  best := hd.best
  kept id := (hd.kept id).trans (hkept id)
  grown id := by
    have hold := hd.grown id
    have hnew := hgrown id
    omega

theorem pending_update {p q : P} {d : Option Decision} {d' : Decision}
    (h : Function.update w.pending p d q = some d') : w.pending q = some d' ∨ d = some d' := by
  by_cases hq : q = p
  · subst hq
    rw [Function.update_self] at h
    exact .inr h
  · rw [Function.update_of_ne hq] at h
    exact .inl h

omit [DecidableEq P] in
/-- The hosts of two machines that are not the same have not the same id. -/
theorem id_ne (hi : i ∈ eligible site.hosts) (hj : j ∈ eligible site.hosts) (h : i ≠ j) :
    j.id ≠ i.id := fun heq =>
  h (site.ids j (List.mem_of_mem_filter hj) i (List.mem_of_mem_filter hi) heq).symm

omit [DecidableEq P] in
/-- A step that neither assigns a machine nor makes a decision. -/
theorem Inv.quiet (hinv : Inv site m w) (hgiven : w'.given = w.given)
    (hpending : ∀ p d, w'.pending p = some d → w.pending p = some d)
    (hkept : ∀ id, w.placed.count id + w.left.count id =
      w'.placed.count id + w'.left.count id)
    (hless : ∀ id, w'.placed.count id ≤ w.placed.count id) : Inv site m w' where
  given i hi := hinv.given i (hgiven ▸ hi)
  pending p d hd := (hinv.pending p d (hpending p d hd)).later (fun id => (hkept id).le)
    fun id => hgiven ▸ Nat.add_le_add_right (hless id) _
  balanced i hi j hj :=
    (hinv.balanced i (hgiven ▸ hi) j hj).mono (hkept j.id).le (hless i.id)

theorem Inv.step (hinv : Inv site m w) (hfresh : Fresh m w l) (hstep : Step site w l w') :
    Inv site m w' := by
  cases hstep with
  | @decide draw host p hdraw hhost =>
    refine ⟨hinv.given, fun q d' h => ?_, hinv.balanced⟩
    have hok : DecisionOk site w d' := by
      rcases pending_update h with hold | hnew
      · exact hinv.pending q d' hold
      · exact Option.some.inj hnew ▸ best_of_getFreeHost hdraw hhost
    exact hok.later (fun _ => le_rfl) fun _ => le_rfl
  | @assign p d hd =>
    have hok := hinv.pending p d hd
    have hlater {d' : Decision} (hd' : DecisionOk site w d') : DecisionOk site
        { w with
          placed := d.host.id :: w.placed
          given := d.host :: w.given
          pending := Function.update w.pending p none } d' := by
      refine hd'.later (fun id => ?_) fun id => ?_
      · exact Nat.add_le_add_right (List.count_le_count_cons) _
      · simp only [List.count_cons, List.length_cons]
        split <;> omega
    refine ⟨?_, fun q d' h => ?_, fun i hi j hj => ?_⟩
    · exact List.forall_mem_cons.mpr ⟨hok.allowed, hinv.given⟩
    · exact hlater ((pending_update h).elim (hinv.pending q d') nofun)
    · by_cases heq : i = d.host
      · subst heq
        exact hok.balanced (hfresh d hd) rfl rfl hj
      · have hi := (List.mem_cons.mp hi).resolve_left heq
        refine (hinv.balanced i hi j hj).mono ?_ ?_
        · exact Nat.add_le_add_right List.count_le_count_cons _
        · exact (List.count_cons_of_ne (id_ne (hinv.given i hi) hok.allowed heq)).le
  | giveUp p =>
    exact hinv.quiet rfl (fun q d h => (pending_update h).resolve_right nofun) (fun _ => rfl)
      fun _ => le_rfl
  | @leave id hid =>
    refine hinv.quiet rfl (fun _ _ => fun h => h) (fun other => ?_) fun other => ?_
    · have hpos := List.count_pos_iff.mpr hid
      simp only [List.count_erase, List.count_cons]
      by_cases heq : id = other
      · subst heq
        simp only [BEq.rfl, if_true]
        omega
      · simp only [beq_iff_eq, heq, if_false]
        omega
    · exact (List.erase_sublist).count_le other

/-- Two hosts, the first with twice the memory of the second. -/
def hostPair : Bool → Host
  | true => ⟨1, true, false, .running, 2, 1, by decide, by decide⟩
  | false => ⟨2, true, false, .running, 1, 1, by decide, by decide⟩

def pairSite : Site where
  weights := {}
  hosts := [hostPair true, hostPair false]
  ids := by decide

/-- Two programs that decide at the same time. -/
def pairWorld (placed : List HostId) (given : List Host) (first second : Bool) : World Bool where
  placed := placed
  left := []
  given := given
  pending p := if (if p then first else second) then some ⟨hostPair true, [], 0⟩ else none

theorem pair_decide (p first second : Bool) :
    Step pairSite (pairWorld [] [] first second) (.decide p fun _ => 0)
      (pairWorld [] [] (first || p) (second || !p)) := by
  have hfree : getFreeHost pairSite.weights pairSite.hosts (([] : List HostId).count ·)
      (fun _ => 0) = some (hostPair true) := by decide +kernel
  have hdraw : ∀ h : Host, (0 : ℚ) ≤ 0 ∧ (0 : ℚ) < pairSite.weights.spread :=
    fun _ => ⟨le_rfl, spread_pos _⟩
  have heq : pairWorld [] [] (first || p) (second || !p) =
      { pairWorld [] [] first second with
        pending := Function.update (pairWorld [] [] first second).pending p
          (some ⟨hostPair true, [], 0⟩) } := by
    refine congrArg (World.mk [] [] []) (funext fun q => ?_)
    cases p <;> cases q <;> simp [pairWorld, Function.update]
  rw [heq]
  exact Step.decide p hdraw hfree

theorem pair_assign (p : Bool) (placed : List HostId) (given : List Host) {first second : Bool}
    (hp : (if p then first else second) = true) :
    Step pairSite (pairWorld placed given first second) (.assign p)
      (pairWorld (1 :: placed) (hostPair true :: given) (first && !p) (second && p)) := by
  have heq : pairWorld (1 :: placed) (hostPair true :: given) (first && !p) (second && p) =
      { pairWorld placed given first second with
        placed := (hostPair true).id :: placed
        given := hostPair true :: given
        pending := Function.update (pairWorld placed given first second).pending p none } := by
    refine congrArg (World.mk _ [] _) (funext fun q => ?_)
    cases p <;> cases q <;> simp [pairWorld, Function.update]
  have hpending : (pairWorld placed given first second).pending p =
      some ⟨hostPair true, [], 0⟩ := if_pos hp
  rw [heq]
  exact Step.assign hpending

theorem pair_run : (placing pairSite Bool).Run
    [(pairWorld [1] [hostPair true] false true, .assign false),
      (pairWorld [] [] true true, .assign true),
      (pairWorld [] [] true false, .decide false fun _ => 0),
      (pairWorld [] [] false false, .decide true fun _ => 0)]
    (pairWorld [1, 1] [hostPair true, hostPair true] false false) :=
  .extend (.extend (.extend (.extend (.start ⟨rfl, rfl, fun p => by cases p <;> rfl⟩)
    (pair_decide true false false)) (pair_decide false true false)) (pair_assign true [] [] rfl))
    (pair_assign false [1] [hostPair true] rfl)

end Placing

end Qvd.LoadBalancer
