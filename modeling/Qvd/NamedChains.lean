import Mathlib.Data.List.AList

/-!
Chains of rules under names, as packet filters keep them. A rule decides, or it jumps to another
chain; a chain that comes to its end decides by its policy or goes back. The chains are changed by
single commands, which are refused where they would leave a jump without its chain.
-/
namespace Qvd.NamedChains

inductive Verdict
  | accept
  | drop
deriving DecidableEq, Repr

inductive Target (N : Type*)
  | decide (verdict : Verdict)
  | jump (name : N)
deriving DecidableEq, Repr

/-- `what` is what the rule asks for. -/
structure Rule (N M : Type*) where
  what : M
  target : Target N
deriving DecidableEq, Repr

/-- Without a policy the end of the chain goes back to where it was jumped to. -/
structure Chain (N M : Type*) where
  policy : Option Verdict
  rules : List (Rule N M)
deriving DecidableEq, Repr

abbrev Table (N M : Type*) := AList fun _ : N => Chain N M

variable {N M : Type*} [DecidableEq N]

/-! ### Verdicts -/

section Verdicts

variable (holds : M → Bool) (inner : N → Option Verdict)

/-- What one rule makes of a packet, given what the chains do that it can jump to. -/
def Rule.verdict (rule : Rule N M) : Option Verdict :=
  if holds rule.what then
    match rule.target with
    | .decide verdict => some verdict
    | .jump name => inner name
  else none

def Chain.verdict (chain : Chain N M) : Option Verdict :=
  (chain.rules.findSome? (Rule.verdict holds inner)).or chain.policy

/-- The verdict of a chain over at most so many jumps in each other. -/
def verdict (t : Table N M) : ℕ → N → Option Verdict
  | 0, _ => none
  | depth + 1, name => (t.lookup name).bind (Chain.verdict holds (verdict t depth))

def Chain.jumps (chain : Chain N M) (name : N) : List (Rule N M) :=
  chain.rules.filter (·.target = .jump name)

variable {holds inner} {chain : Chain N M} {rule : Rule N M} {name : N}

omit [DecidableEq N] in
theorem Rule.verdict_of_not (h : holds rule.what = false) :
    rule.verdict holds inner = none := by
  rw [Rule.verdict, h]
  rfl

/-- Items that find nothing can be left out. -/
theorem findSome?_filter {α β : Type*} {f : α → Option β} {p : α → Bool} {l : List α}
    (h : ∀ a ∈ l, p a = false → f a = none) : (l.filter p).findSome? f = l.findSome? f := by
  induction l with
  | nil => rfl
  | cons a l ih =>
    have htail := ih fun b hb => h b (List.mem_cons_of_mem _ hb)
    cases hp : p a with
    | true => rw [List.filter_cons_of_pos hp, List.findSome?_cons, List.findSome?_cons, htail]
    | false =>
      have hnone := h a (List.mem_cons_self ..) hp
      rw [List.filter_cons_of_neg (by simp [hp]), htail, List.findSome?_cons, hnone]

/-- Where a single rule jumps to a chain that always decides, and no other rule applies, that
chain decides. -/
theorem Chain.verdict_of_jumps {v : Verdict} (hjumps : chain.jumps name = [rule])
    (hrule : holds rule.what = true)
    (hothers : ∀ r ∈ chain.rules, r.target ≠ .jump name → holds r.what = false)
    (hinner : inner name = some v) : chain.verdict holds inner = some v := by
  have hmem : rule ∈ chain.jumps name := hjumps ▸ List.mem_singleton_self rule
  have htarget : rule.target = .jump name := by simpa using (List.mem_filter.mp hmem).2
  have hnone : ∀ r ∈ chain.rules, decide (r.target = .jump name) = false →
      r.verdict holds inner = none := fun r hr h =>
    Rule.verdict_of_not (hothers r hr (of_decide_eq_false h))
  have hfind : chain.rules.findSome? (Rule.verdict holds inner) = some v := by
    rw [← findSome?_filter hnone]
    change (chain.jumps name).findSome? _ = _
    rw [hjumps, List.findSome?_cons, Rule.verdict, if_pos hrule, htarget]
    dsimp only
    rw [hinner]
  rw [Chain.verdict, hfind]
  rfl

end Verdicts

/-! ### Commands -/

section Commands

inductive Command (N M : Type*)
  | create (name : N) (policy : Option Verdict)
  | append (name : N) (rule : Rule N M)
  | delete (name : N) (number : ℕ)
  | flush (name : N)
  | remove (name : N)
deriving DecidableEq, Repr

/-- The chain a command is about. -/
def Command.name : Command N M → N
  | .create name _ => name
  | .append name _ => name
  | .delete name _ => name
  | .flush name => name
  | .remove name => name

/-- What a command makes of its chain. -/
def Command.effect : Command N M → Option (Chain N M) → Option (Chain N M)
  | .create _ policy, _ => some ⟨policy, []⟩
  | .append _ rule, chain => chain.map fun c => { c with rules := c.rules ++ [rule] }
  | .delete _ number, chain => chain.map fun c => { c with rules := c.rules.eraseIdx (number - 1) }
  | .flush _, chain => chain.map fun c => { c with rules := [] }
  | .remove _, _ => none

/-- Some rule jumps to the chain. -/
def referenced (t : Table N M) (name : N) : Bool :=
  t.entries.any fun e => !(e.2.jumps name).isEmpty

/-- Whether a rule's target is there. -/
def Rule.resolved (t : Table N M) (rule : Rule N M) : Bool :=
  match rule.target with
  | .decide _ => true
  | .jump name => (t.lookup name).isSome

/-- Rules are numbered from one. -/
def Command.allowed (t : Table N M) : Command N M → Bool
  | .create name _ => (t.lookup name).isNone
  | .append name rule => (t.lookup name).isSome && rule.resolved t
  | .delete name number =>
    (t.lookup name).any fun chain => 0 < number && number ≤ chain.rules.length
  | .flush name => (t.lookup name).isSome
  | .remove name => (t.lookup name).isSome && !referenced t name

def put (t : Table N M) (name : N) : Option (Chain N M) → Table N M
  | some chain => t.insert name chain
  | none => t.erase name

/-- A command, unless it is refused. -/
def exec (c : Command N M) (t : Table N M) : Option (Table N M) :=
  if c.allowed t then some (put t c.name (c.effect (t.lookup c.name))) else none

variable {t t' : Table N M} {c : Command N M} {name : N}

theorem lookup_put (chain : Option (Chain N M)) : (put t name chain).lookup name = chain := by
  cases chain with
  | none => exact AList.lookup_erase ..
  | some chain => exact AList.lookup_insert _

theorem lookup_put_ne {other : N} (h : other ≠ name) (chain : Option (Chain N M)) :
    (put t name chain).lookup other = t.lookup other := by
  cases chain with
  | none => exact AList.lookup_erase_ne h
  | some chain => exact AList.lookup_insert_ne h

theorem allowed_of_exec (h : exec c t = some t') : c.allowed t = true := by
  unfold exec at h
  split at h
  · assumption
  · cases h

theorem exec_lookup (h : exec c t = some t') :
    t'.lookup c.name = c.effect (t.lookup c.name) := by
  have hput := h
  rw [exec, if_pos (allowed_of_exec h)] at hput
  cases hput
  exact lookup_put _

theorem exec_lookup_ne (h : exec c t = some t') (hne : name ≠ c.name) :
    t'.lookup name = t.lookup name := by
  have hput := h
  rw [exec, if_pos (allowed_of_exec h)] at hput
  cases hput
  exact lookup_put_ne hne _

theorem exec_create {policy : Option Verdict} (h : exec (.create name policy) t = some t') :
    t.lookup name = none ∧ t'.lookup name = some ⟨policy, []⟩ :=
  ⟨by simpa [Command.allowed] using allowed_of_exec h, exec_lookup h⟩

theorem exec_append {rule : Rule N M} (h : exec (.append name rule) t = some t') :
    ∃ chain, t.lookup name = some chain ∧
      t'.lookup name = some { chain with rules := chain.rules ++ [rule] } := by
  have hallowed := allowed_of_exec h
  rw [Command.allowed, Bool.and_eq_true] at hallowed
  obtain ⟨chain, hchain⟩ := Option.isSome_iff_exists.mp hallowed.1
  have hlookup : t'.lookup name = Command.effect (.append name rule) (t.lookup name) :=
    exec_lookup h
  rw [hchain] at hlookup
  exact ⟨chain, hchain, hlookup⟩

theorem exec_delete {number : ℕ} (h : exec (.delete name number) t = some t') :
    ∃ chain, t.lookup name = some chain ∧
      t'.lookup name = some { chain with rules := chain.rules.eraseIdx (number - 1) } := by
  have hallowed := allowed_of_exec h
  rw [Command.allowed] at hallowed
  obtain ⟨chain, hchain, -⟩ := (Option.any_eq_true ..).mp hallowed
  have hlookup : t'.lookup name = Command.effect (.delete name number) (t.lookup name) :=
    exec_lookup h
  rw [hchain] at hlookup
  exact ⟨chain, hchain, hlookup⟩

/-- Only its creation brings a chain into the table. -/
theorem lookup_none_of_exec (h : exec c t = some t') (hc : ∀ policy, c ≠ .create name policy)
    (hnone : t.lookup name = none) : t'.lookup name = none := by
  by_cases hname : name = c.name
  · subst hname
    rw [exec_lookup h, hnone]
    cases c with
    | create n policy => exact absurd rfl (hc policy)
    | _ => rfl
  · rw [exec_lookup_ne h hname, hnone]

end Commands

/-! ### No jump without its chain -/

section Linked

/-- A chain that is not there is not jumped to. -/
def Linked (t : Table N M) : Prop :=
  ∀ target, t.lookup target = none → ∀ name chain, t.lookup name = some chain →
    chain.jumps target = []

variable {t t' : Table N M} {c : Command N M} {name target : N} {chain : Chain N M}

theorem jumps_of_not_referenced (h : referenced t target = false)
    (hchain : t.lookup name = some chain) : chain.jumps target = [] := by
  rw [referenced, List.any_eq_false] at h
  simpa using h ⟨name, chain⟩ (AList.mem_lookup_iff.mp hchain)

theorem jumps_append {rule : Rule N M} : ({ chain with rules := chain.rules ++ [rule] } :
    Chain N M).jumps target = chain.jumps target ++ if rule.target = .jump target then [rule]
      else [] := by
  rw [Chain.jumps, List.filter_append, Chain.jumps]
  congr 1
  by_cases h : rule.target = .jump target <;> simp [h]

/-- A chain that is gone was not there, or it was removed. -/
theorem eq_none_or_remove (h : exec c t = some t') (hnone : t'.lookup target = none) :
    t.lookup target = none ∨ c = .remove target := by
  by_cases htarget : target = c.name
  · subst htarget
    rw [exec_lookup h] at hnone
    cases c with
    | create n policy => cases hnone
    | remove n => exact .inr rfl
    | _ => exact .inl (Option.map_eq_none_iff.mp hnone)
  · exact .inl (exec_lookup_ne h htarget ▸ hnone)

/-- After a command no rule jumps to a chain that was not there before it. -/
theorem jumps_of_exec (h : exec c t = some t') (hlinked : Linked t)
    (hnone : t.lookup target = none) (hchain : t'.lookup name = some chain) :
    chain.jumps target = [] := by
  by_cases hname : name = c.name
  · subst hname
    have hallowed := allowed_of_exec h
    rw [exec_lookup h] at hchain
    cases c with
    | create n policy =>
      cases hchain
      rfl
    | append n rule =>
      obtain ⟨old, hold, rfl⟩ := Option.map_eq_some_iff.mp hchain
      have htarget : rule.target ≠ .jump target := by
        intro heq
        simp [Command.allowed, Rule.resolved, heq, hnone] at hallowed
      rw [jumps_append, hlinked target hnone _ old hold, if_neg htarget, List.append_nil]
    | delete n number =>
      obtain ⟨old, hold, rfl⟩ := Option.map_eq_some_iff.mp hchain
      have hsub : List.Sublist _ (old.jumps target) :=
        (List.eraseIdx_sublist old.rules (number - 1)).filter _
      rw [hlinked target hnone _ old hold] at hsub
      exact List.eq_nil_of_sublist_nil hsub
    | flush n =>
      obtain ⟨old, hold, rfl⟩ := Option.map_eq_some_iff.mp hchain
      rfl
    | remove n => cases hchain
  · rw [exec_lookup_ne h hname] at hchain
    exact hlinked target hnone name chain hchain

/-- No command leaves a jump without its chain. -/
theorem exec_linked (h : exec c t = some t') (hlinked : Linked t) : Linked t' := by
  intro target hnone name chain hchain
  rcases eq_none_or_remove h hnone with hbefore | rfl
  · exact jumps_of_exec h hlinked hbefore hchain
  · have hallowed := allowed_of_exec h
    rw [Command.allowed, Bool.and_eq_true, Bool.not_eq_true'] at hallowed
    refine jumps_of_not_referenced hallowed.2 (?_ : t.lookup name = some chain)
    have hne : name ≠ target := by
      rintro rfl
      rw [hnone] at hchain
      cases hchain
    exact exec_lookup_ne h hne ▸ hchain

end Linked

end Qvd.NamedChains
