import Qvd.FixedDigits
import Qvd.NamedChains
import Qvd.NetworkRanges
import Qvd.Runs
import Qvd.UriText

/-!
The filter on the bridge of a node: the two chains in which each virtual machine has the rules
against a false MAC or IP address, and the jumps to them. The HKD sets the rules of a machine
before it starts it and removes them when it is gone; it can die between any two commands, any
command can be refused, and other programs keep chains and rules of their own.
-/
namespace Qvd.BridgeFilter

open FixedDigits LineText NamedChains NetworkRanges Runs UriText

/-! ### Frames -/

/-- The port is where a UDP datagram goes to. -/
inductive Payload
  | ipv4 (src : ℕ) (udpPort : Option ℕ)
  | other
deriving DecidableEq, Repr

/-- The source address is written as the addresses of the machines are. -/
structure Frame where
  inInterface : Text
  src : Text
  payload : Payload
deriving DecidableEq, Repr

/-- What a rule asks for; what the rules of the other programs ask for stays open. -/
inductive Match (F : Type*)
  | srcNot (mac : Text)
  | ipSourceNot (ip : Text)
  | udp (source : Option Text) (port : ℕ)
  | inInterface (name : Text)
  | other (what : F)
deriving DecidableEq, Repr

def Match.holds {F : Type*} (others : F → Frame → Bool) (f : Frame) : Match F → Bool
  | .srcNot mac => f.src != mac
  | .ipSourceNot ip => match f.payload with | .ipv4 src _ => src != netAton ip | .other => false
  | .udp source port =>
    match f.payload with
    | .ipv4 src (some p) => source.all (fun ip => src == netAton ip) && p == port
    | _ => false
  | .inInterface name => f.inInterface == name
  | .other what => others what f

/-! ### The rules of a machine -/

structure Config where
  enable : Bool
  macPrefix : Text
  useDhcp : Bool

structure Machine where
  id : ℕ
  ip : Text
  iface : Text

/-- The chains of the bridge that the rules are for. -/
inductive Side
  | input
  | forward
deriving DecidableEq, Repr

def Side.text : Side → Text
  | .input => "INPUT".toList
  | .forward => "FORWARD".toList

/-- The name of a chain of a machine, such as `QVD_7_INPUT`. -/
def chainName (vm : ℕ) (side : Side) : Text :=
  "QVD_".toList ++ (Nat.toDigits 10 vm ++ '_' :: side.text)

/-- `sprintf '%02x'` -/
def hexPart (part : Text) : Text := (Nat.toDigits 16 (number part)).leftpad 2 '0'

/-- `_ip_to_mac`: the first part of the address is left out. -/
def ipToMac (macPrefix ip : Text) : Text :=
  [':'].intercalate (macPrefix :: ((splitFields '.' ip).drop 1).map hexPart)

section Rules

variable {F : Type*} (cfg : Config) (m : Machine)

def Machine.mac : Text := ipToMac cfg.macPrefix m.ip

abbrev Cmd (F : Type*) := Command Text (Match F)

/-- `_fw_rules` -/
def fwRules : List (Cmd F) :=
  let input := chainName m.id .input
  let forward := chainName m.id .forward
  let dhcpAccept : Verdict := if cfg.useDhcp then .accept else .drop
  [.create input (some .accept),
    .create forward (some .accept),
    .append forward ⟨.srcNot (m.mac cfg), .decide .drop⟩,
    .append input ⟨.srcNot (m.mac cfg), .decide .drop⟩,
    .append forward ⟨.ipSourceNot m.ip, .decide .drop⟩,
    .append input ⟨.udp (some "0.0.0.0".toList) 67, .decide dhcpAccept⟩,
    .append forward ⟨.udp none 67, .decide .drop⟩,
    .append input ⟨.ipSourceNot m.ip, .decide .drop⟩,
    .append Side.input.text ⟨.inInterface m.iface, .jump input⟩,
    .append Side.forward.text ⟨.inInterface m.iface, .jump forward⟩]

/-- Without `internal.vm.network.firewall.enable` nothing is set. -/
def setCommands : List (Cmd F) := if cfg.enable then fwRules cfg m else []

/-- What the HKD still has to do in a method: a command that must succeed, one whose failure is
only a warning, the listing of a chain for the rules that jump to the machine's own, or the
look whether a chain is gone. -/
inductive Task (F : Type*)
  | need (c : Cmd F)
  | attempt (c : Cmd F)
  | listing (side : Side)
  | check (side : Side)

/-- `_set_fw_rules` -/
def setTasks : List (Task F) := (setCommands cfg m).map .need

/-- `_remove_fw_rules` -/
def removeTasks (vm : ℕ) : List (Task F) :=
  if cfg.enable then
    [Side.input, Side.forward].flatMap fun side =>
      [.listing side, .attempt (.flush (chainName vm side)),
        .attempt (.remove (chainName vm side)), .check side]
  else []

end Rules

/-! ### The host -/

section Host

variable {F : Type*}

/-- The rules of a chain of the bridge that jump to a chain. -/
def jumpsIn (t : Table Text (Match F)) (side : Side) (name : Text) : List (Rule Text (Match F)) :=
  ((t.lookup side.text).map (Chain.jumps · name)).getD []

/-- The numbers of the listed rules that jump to a chain. -/
def numbers (t : Table Text (Match F)) (side : Side) (name : Text) : List ℕ :=
  ((t.lookup side.text).map fun chain =>
    (chain.rules.zipIdx 1).filterMap fun e =>
      if e.1.target = .jump name then some e.2 else none).getD []

/-- What a method is for. -/
inductive Goal
  | set (m : Machine)
  | remove (vm : ℕ)

def Goal.vm : Goal → ℕ
  | .set m => m.id
  | .remove vm => vm

structure Job (F : Type*) where
  goal : Goal
  left : List (Task F)

/-- A machine is guarded from the end of its `_set_fw_rules` to the start of its
`_remove_fw_rules`. -/
structure World (F : Type*) where
  table : Table Text (Match F)
  job : Option (Job F)
  guarded : ℕ → Option Machine

def Goal.after (guarded : ℕ → Option Machine) : Goal → ℕ → Option Machine
  | .set m => Function.update guarded m.id (some m)
  | .remove _ => guarded

/-- The other programs leave the chains of the machines and the jumps to them alone. -/
structure Leaves (t t' : Table Text (Match F)) : Prop where
  chains : ∀ vm side, t'.lookup (chainName vm side) = t.lookup (chainName vm side)
  jumps : ∀ side vm s, jumpsIn t' side (chainName vm s) = jumpsIn t side (chainName vm s)
  builtin : ∀ side : Side, t'.lookup side.text ≠ none
  linked : Linked t'

/-- A table without anything of the HKD. -/
structure Fresh (t : Table Text (Match F)) : Prop where
  chains : ∀ vm side, t.lookup (chainName vm side) = none
  builtin : ∀ side : Side, t.lookup side.text ≠ none
  linked : Linked t

inductive Label
  | begin
  | command
  | refuse
  | list
  | look
  | done
  | die
  | others
  | reboot
deriving DecidableEq, Repr

variable (cfg : Config)

/-- The HKD runs one method at a time and waits for each command. The other programs can come
between any two, but not between a listing and the deletions by its numbers. -/
inductive Step : World F → Label → World F → Prop
  | set (m : Machine) (t : Table Text (Match F)) (g : ℕ → Option Machine) :
      Step ⟨t, none, g⟩ .begin ⟨t, some ⟨.set m, setTasks cfg m⟩, g⟩
  | remove (vm : ℕ) (t : Table Text (Match F)) (g : ℕ → Option Machine) :
      Step ⟨t, none, g⟩ .begin
        ⟨t, some ⟨.remove vm, removeTasks cfg vm⟩, Function.update g vm none⟩
  | need {c : Cmd F} {t t' : Table Text (Match F)} (h : exec c t = some t') (goal : Goal)
      (left : List (Task F)) (g : ℕ → Option Machine) :
      Step ⟨t, some ⟨goal, .need c :: left⟩, g⟩ .command ⟨t', some ⟨goal, left⟩, g⟩
  | fail (c : Cmd F) (goal : Goal) (left : List (Task F)) (t : Table Text (Match F))
      (g : ℕ → Option Machine) :
      Step ⟨t, some ⟨goal, .need c :: left⟩, g⟩ .refuse ⟨t, none, g⟩
  | attempt {c : Cmd F} {t t' : Table Text (Match F)} (h : exec c t = some t') (goal : Goal)
      (left : List (Task F)) (g : ℕ → Option Machine) :
      Step ⟨t, some ⟨goal, .attempt c :: left⟩, g⟩ .command ⟨t', some ⟨goal, left⟩, g⟩
  | warn (c : Cmd F) (goal : Goal) (left : List (Task F)) (t : Table Text (Match F))
      (g : ℕ → Option Machine) :
      Step ⟨t, some ⟨goal, .attempt c :: left⟩, g⟩ .refuse ⟨t, some ⟨goal, left⟩, g⟩
  | list (side : Side) (goal : Goal) (left : List (Task F)) (t : Table Text (Match F))
      (g : ℕ → Option Machine) :
      Step ⟨t, some ⟨goal, .listing side :: left⟩, g⟩ .list
        ⟨t, some ⟨goal, (numbers t side (chainName goal.vm side)).map
          (fun n => .attempt (.delete side.text n)) ++ left⟩, g⟩
  | gone {side : Side} {goal : Goal} {t : Table Text (Match F)}
      (h : t.lookup (chainName goal.vm side) = none) (left : List (Task F))
      (g : ℕ → Option Machine) :
      Step ⟨t, some ⟨goal, .check side :: left⟩, g⟩ .look ⟨t, some ⟨goal, left⟩, g⟩
  | stands {side : Side} {goal : Goal} {t : Table Text (Match F)}
      (h : t.lookup (chainName goal.vm side) ≠ none) (left : List (Task F))
      (g : ℕ → Option Machine) :
      Step ⟨t, some ⟨goal, .check side :: left⟩, g⟩ .look ⟨t, none, g⟩
  | done (goal : Goal) (t : Table Text (Match F)) (g : ℕ → Option Machine) :
      Step ⟨t, some ⟨goal, []⟩, g⟩ .done ⟨t, none, goal.after g⟩
  | die (w : World F) : Step w .die ⟨w.table, none, w.guarded⟩
  | others {t t' : Table Text (Match F)} (h : Leaves t t') {job : Option (Job F)}
      (hjob : ∀ goal name n left, job ≠ some ⟨goal, .attempt (.delete name n) :: left⟩)
      (g : ℕ → Option Machine) : Step ⟨t, job, g⟩ .others ⟨t', job, g⟩
  | reboot {t : Table Text (Match F)} (h : Fresh t) (w : World F) :
      Step w .reboot ⟨t, none, fun _ => none⟩

/-- The lives of the HKD of a host. -/
def lives : System (World F) Label where
  init w := Fresh w.table ∧ w.job = none ∧ ∀ vm, w.guarded vm = none
  step := Step cfg

end Host

/-! ### Names -/

section Names

theorem chainName_inj {i j : ℕ} {s s' : Side} (h : chainName i s = chainName j s') :
    i = j ∧ s = s' := by
  have hrest := List.append_cancel_left h
  have hdigits : ∀ n, '_' ∉ Nat.toDigits 10 n := fun _ => Nat.underscore_not_in_toDigits
  have hsplit : ∀ n (s : Side), (Nat.toDigits 10 n ++ '_' :: s.text).splitOn '_' =
      Nat.toDigits 10 n :: s.text.splitOn '_' := fun n s =>
    List.splitOn_append_cons_self_of_not_mem (hdigits n) ..
  have hparts := congrArg (List.splitOn '_') hrest
  rw [hsplit, hsplit] at hparts
  obtain ⟨hid, hside⟩ := List.cons.inj hparts
  refine ⟨?_, ?_⟩
  · rw [← Nat.ofDigitChars_ten_toDigits (n := i), hid, Nat.ofDigitChars_ten_toDigits]
  · cases s <;> cases s' <;> first | rfl | exact absurd hside (by decide)

theorem chainName_ne_text (vm : ℕ) (side s : Side) : chainName vm side ≠ s.text := by
  intro h
  have hhead := congrArg List.head? h
  cases s <;> exact absurd hhead (by simp [chainName, Side.text])

theorem Side.text_inj {s s' : Side} (h : s.text = s'.text) : s = s' := by
  cases s <;> cases s' <;> first | rfl | exact absurd h (by decide)

@[simp] theorem chainName_eq_iff {i j : ℕ} {s s' : Side} :
    chainName i s = chainName j s' ↔ i = j ∧ s = s' :=
  ⟨chainName_inj, fun ⟨hi, hs⟩ => hi ▸ hs ▸ rfl⟩

@[simp] theorem chainName_eq_text_iff {vm : ℕ} {side s : Side} :
    chainName vm side = s.text ↔ False := iff_false_intro (chainName_ne_text vm side s)

@[simp] theorem text_eq_chainName_iff {vm : ℕ} {side s : Side} :
    s.text = chainName vm side ↔ False := iff_false_intro (chainName_ne_text vm side s).symm

@[simp] theorem Side.text_eq_iff {s s' : Side} : s.text = s'.text ↔ s = s' :=
  ⟨Side.text_inj, congrArg _⟩

end Names

/-! ### What the commands build -/

section Building

variable {F : Type*} {cfg : Config} {m : Machine} {t t' : Table Text (Match F)}
  {cmds before rest : List (Cmd F)} {c : Cmd F} {name : Text} {side : Side}

/-- The chain that commands leave under a name. -/
def chainOf (cmds : List (Cmd F)) (name : Text) : Option (Chain Text (Match F)) :=
  cmds.foldl (fun chain c => if c.name = name then c.effect chain else chain) none

/-- The jump to a chain that a command adds to a chain of the bridge. -/
def added (side : Side) (name : Text) : Cmd F → Option (Rule Text (Match F))
  | .append n rule => if n = side.text ∧ rule.target = .jump name then some rule else none
  | _ => none

/-- What commands have built of the chains they create stands. -/
def Standing (cmds : List (Cmd F)) (t : Table Text (Match F)) : Prop :=
  ∀ name policy, .create name policy ∈ cmds → t.lookup name = chainOf cmds name ∧
    ∀ side, jumpsIn t side name = cmds.filterMap (added side name)

theorem standing_nil : Standing ([] : List (Cmd F)) t := fun _ _ h => absurd h List.not_mem_nil

theorem Standing.frame (h : Standing cmds t)
    (hsame : ∀ name policy, .create name policy ∈ cmds → t'.lookup name = t.lookup name ∧
      ∀ side, jumpsIn t' side name = jumpsIn t side name) : Standing cmds t' := by
  intro name policy hmem
  obtain ⟨hchain, hjumps⟩ := h name policy hmem
  obtain ⟨hchain', hjumps'⟩ := hsame name policy hmem
  exact ⟨hchain'.trans hchain, fun side => (hjumps' side).trans (hjumps side)⟩

theorem chainOf_append : chainOf (cmds ++ [c]) name =
    if c.name = name then c.effect (chainOf cmds name) else chainOf cmds name := by
  rw [chainOf, List.foldl_append]
  rfl

theorem jumpsIn_congr (h : t'.lookup side.text = t.lookup side.text) :
    jumpsIn t' side name = jumpsIn t side name := by
  rw [jumpsIn, h]
  rfl

/-- A command on another chain, or one that creates a chain, changes no jumps. -/
theorem jumpsIn_exec_ne (h : exec c t = some t') (hne : side.text ≠ c.name) :
    jumpsIn t' side name = jumpsIn t side name := jumpsIn_congr (exec_lookup_ne h hne)

theorem jumpsIn_exec_append {n : Text} {rule : Rule Text (Match F)}
    (h : exec (.append n rule) t = some t') :
    jumpsIn t' side name = jumpsIn t side name ++ (added side name (.append n rule)).toList := by
  by_cases hn : n = side.text
  · subst hn
    obtain ⟨chain, hchain, hnew⟩ := exec_append h
    rw [jumpsIn, jumpsIn, hchain, hnew]
    show Chain.jumps _ name = chain.jumps name ++ _
    rw [jumps_append, added]
    by_cases htarget : rule.target = .jump name <;> simp [htarget]
  · rw [jumpsIn_exec_ne h (Ne.symm hn), added, if_neg fun hboth => hn hboth.1]
    exact (List.append_nil _).symm

/-- A chain that is not there is not jumped to. -/
theorem jumpsIn_of_linked (hlinked : Linked t) (hnone : t.lookup name = none) :
    jumpsIn t side name = [] := by
  unfold jumpsIn
  cases hchain : t.lookup side.text with
  | none => rfl
  | some chain => exact hlinked name hnone side.text chain hchain

/-- One more command. -/
theorem Standing.extend (h : Standing before t) (hlinked : Linked t)
    (hbuiltin : ∀ side : Side, t.lookup side.text ≠ none)
    (hexec : exec c t = some t')
    (hc : (∃ n policy, c = .create n policy ∧ ∀ side, before.filterMap (added side n) = []) ∨
      ∃ n rule, c = .append n rule) : Standing (before ++ [c]) t' := by
  intro name policy hmem
  rcases hc with ⟨n, policy', rfl, hnone⟩ | ⟨n, rule, rfl⟩
  · obtain ⟨hfresh, hnew⟩ := exec_create hexec
    have hside : ∀ side : Side, side.text ≠ n := fun side heq => hbuiltin side (heq ▸ hfresh)
    have hjumps : ∀ side, (before ++ [Command.create n policy']).filterMap (added side name) =
        before.filterMap (added side name) := fun side => by
      rw [List.filterMap_append]
      exact List.append_nil _
    rw [chainOf_append]
    by_cases hname : n = name
    · subst hname
      refine ⟨hnew.trans (if_pos rfl).symm, fun side => ?_⟩
      rw [jumpsIn_exec_ne hexec (hside side), hjumps, hnone, jumpsIn_of_linked hlinked hfresh]
    · have hbefore : .create name policy ∈ before := by
        rcases List.mem_append.mp hmem with hbefore | hlast
        · exact hbefore
        · cases List.mem_singleton.mp hlast
          exact absurd rfl hname
      obtain ⟨hchain, hold⟩ := h name policy hbefore
      refine ⟨?_, fun side => ?_⟩
      · rw [exec_lookup_ne hexec (Ne.symm hname), hchain]
        exact (if_neg hname).symm
      · rw [jumpsIn_exec_ne hexec (hside side), hjumps, hold]
  · have hbefore : .create name policy ∈ before := by
      rcases List.mem_append.mp hmem with hbefore | hlast
      · exact hbefore
      · cases List.mem_singleton.mp hlast
    obtain ⟨hchain, hold⟩ := h name policy hbefore
    refine ⟨?_, fun side => ?_⟩
    · rw [chainOf_append, ← hchain]
      split
      · rename_i hname
        subst hname
        exact exec_lookup hexec
      · rename_i hname
        exact exec_lookup_ne hexec (Ne.symm hname)
    · rw [jumpsIn_exec_append hexec, hold, List.filterMap_append]
      cases hadded : added side name (.append n rule) <;> simp [hadded]

/-- The chain of a machine. -/
def ownChain (cfg : Config) (m : Machine) : Side → Chain Text (Match F)
  | .input => ⟨some .accept, [⟨.srcNot (m.mac cfg), .decide .drop⟩,
      ⟨.udp (some "0.0.0.0".toList) 67, .decide (if cfg.useDhcp then .accept else .drop)⟩,
      ⟨.ipSourceNot m.ip, .decide .drop⟩]⟩
  | .forward => ⟨some .accept, [⟨.srcNot (m.mac cfg), .decide .drop⟩,
      ⟨.ipSourceNot m.ip, .decide .drop⟩, ⟨.udp none 67, .decide .drop⟩]⟩

/-- The jump to the chain of a machine. -/
def ownJump (m : Machine) (side : Side) : Rule Text (Match F) :=
  ⟨.inInterface m.iface, .jump (chainName m.id side)⟩

theorem chainOf_fwRules (side : Side) :
    chainOf (F := F) (fwRules cfg m) (chainName m.id side) = some (ownChain cfg m side) := by
  cases side <;> simp [chainOf, fwRules, Command.name, Command.effect, ownChain]

theorem added_fwRules (side s : Side) :
    (fwRules cfg m).filterMap (added (F := F) side (chainName m.id s)) =
      if side = s then [ownJump m side] else [] := by
  cases side <;> cases s <;> simp [fwRules, List.filterMap_cons, added, ownJump]

theorem setCommands_of_mem (h : c ∈ setCommands cfg m) :
    cfg.enable = true ∧ c ∈ fwRules cfg m := by
  unfold setCommands at h
  split at h
  · exact ⟨‹_›, h⟩
  · cases h

/-- What a command of a machine's can be. -/
inductive Setting (m : Machine) : Cmd F → Prop
  | create (side : Side) : Setting m (.create (chainName m.id side) (some .accept))
  | own (side : Side) (what : Match F) (v : Verdict) :
      Setting m (.append (chainName m.id side) ⟨what, .decide v⟩)
  | jump (side : Side) : Setting m (.append side.text (ownJump m side))

theorem setting_of_mem (h : c ∈ fwRules cfg m) : Setting m c := by
  simp only [fwRules, List.mem_cons, List.not_mem_nil, or_false] at h
  rcases h with rfl | rfl | rfl | rfl | rfl | rfl | rfl | rfl | rfl | rfl
  · exact .create .input
  · exact .create .forward
  · exact .own ..
  · exact .own ..
  · exact .own ..
  · exact .own ..
  · exact .own ..
  · exact .own ..
  · exact .jump .input
  · exact .jump .forward

theorem name_of_create {policy : Option Verdict}
    (h : (.create name policy : Cmd F) ∈ setCommands cfg m) :
    ∃ side, name = chainName m.id side := by
  cases setting_of_mem (F := F) (setCommands_of_mem h).2 with
  | create side => exact ⟨side, rfl⟩

theorem create_mem (henable : cfg.enable = true) (side : Side) :
    (.create (chainName m.id side) (some .accept) : Cmd F) ∈ setCommands cfg m := by
  rw [setCommands, if_pos henable]
  cases side <;> simp [fwRules]

/-- The chains are created first. -/
theorem setCommands_split (h : setCommands cfg m = before ++ c :: rest) :
    (∃ side, c = .create (chainName m.id side) (some .accept) ∧
      ∀ side name, before.filterMap (added side name) = []) ∨
    ((∃ n rule, c = .append n rule) ∧
      ∀ side, .create (chainName m.id side) (some .accept) ∈ before) := by
  have hmem : c ∈ setCommands cfg m := by
    rw [h]
    exact List.mem_append_right _ (List.mem_cons_self ..)
  rw [setCommands, if_pos (setCommands_of_mem hmem).1, fwRules] at h
  match before with
  | [] =>
    cases (List.cons.inj h).1
    exact .inl ⟨.input, rfl, fun _ _ => rfl⟩
  | [a] =>
    obtain ⟨rfl, hrest⟩ := List.cons.inj h
    cases (List.cons.inj hrest).1
    exact .inl ⟨.forward, rfl, fun _ _ => rfl⟩
  | a :: b :: before =>
    obtain ⟨rfl, htail⟩ := List.cons.inj h
    obtain ⟨rfl, hlast⟩ := List.cons.inj htail
    have hlater : c ∈ before ++ c :: rest := List.mem_append_right _ (List.mem_cons_self ..)
    rw [← (show _ = before ++ c :: rest from hlast)] at hlater
    refine .inr ⟨?_, fun side => ?_⟩
    · simp only [List.mem_cons, List.not_mem_nil, or_false] at hlater
      rcases hlater with rfl | rfl | rfl | rfl | rfl | rfl | rfl | rfl <;> exact ⟨_, _, rfl⟩
    · cases side <;> simp

end Building

/-! ### What a method leaves alone -/

section Sparing

variable {F : Type*} {t t' : Table Text (Match F)} {c : Cmd F} {vm other n : ℕ} {name : Text}
  {side s : Side} {chain : Chain Text (Match F)}

/-- A chain without its jumps to the chains of a machine. -/
def without (vm : ℕ) (chain : Chain Text (Match F)) : Chain Text (Match F) :=
  { chain with rules := chain.rules.filter fun rule =>
      rule.target ≠ .jump (chainName vm .input) ∧ rule.target ≠ .jump (chainName vm .forward) }

/-- Only a machine's own chains and the jumps to them differ. -/
structure Spares (vm : ℕ) (t t' : Table Text (Match F)) : Prop where
  chains : ∀ name, (∀ side, name ≠ chainName vm side) → (∀ side : Side, name ≠ side.text) →
    t'.lookup name = t.lookup name
  bridge : ∀ side : Side,
    (t'.lookup side.text).map (without vm) = (t.lookup side.text).map (without vm)

theorem without_rule {rule : Rule Text (Match F)} (h : rule.target = .jump (chainName vm s)) :
    (rule.target ≠ .jump (chainName vm .input) ∧ rule.target ≠ .jump (chainName vm .forward)) ↔
      False := by
  cases s <;> simp [h]

theorem jumps_without (hne : other ≠ vm) :
    (without vm chain).jumps (chainName other s) = chain.jumps (chainName other s) := by
  rw [Chain.jumps, without, List.filter_filter, Chain.jumps]
  refine List.filter_congr fun rule _ => ?_
  by_cases htarget : rule.target = .jump (chainName other s) <;> simp [htarget, hne]

theorem Spares.lookup (h : Spares vm t t') (hne : other ≠ vm) :
    t'.lookup (chainName other s) = t.lookup (chainName other s) :=
  h.chains _ (fun _ heq => hne (chainName_inj heq).1) (chainName_ne_text other s)

theorem Spares.jumps (h : Spares vm t t') (hne : other ≠ vm) :
    jumpsIn t' side (chainName other s) = jumpsIn t side (chainName other s) := by
  have hjumps : ∀ t : Table Text (Match F), jumpsIn t side (chainName other s) =
      (((t.lookup side.text).map (without vm)).map
        (Chain.jumps · (chainName other s))).getD [] := by
    intro t
    rw [jumpsIn, Option.map_map]
    congr 2
    funext chain
    exact (jumps_without hne).symm
  rw [hjumps, hjumps, h.bridge]

theorem spares_of_name (h : exec c t = some t') (hname : c.name = chainName vm s) :
    Spares vm t t' where
  chains name hne _ := exec_lookup_ne h (hname ▸ hne s)
  bridge side := by rw [exec_lookup_ne h (hname ▸ Ne.symm (chainName_ne_text vm s side))]

theorem spares_of_bridge (h : exec c t = some t') (hname : c.name = side.text)
    (hsame : (t'.lookup side.text).map (without vm) = (t.lookup side.text).map (without vm)) :
    Spares vm t t' where
  chains name _ hne := exec_lookup_ne h (hname ▸ hne side)
  bridge s := by
    by_cases hs : s = side
    · exact hs ▸ hsame
    · rw [exec_lookup_ne h (hname ▸ fun heq => hs (Side.text_inj heq))]

theorem spares_of_jump {rule : Rule Text (Match F)} (htarget : rule.target = .jump (chainName vm s))
    (h : exec (.append side.text rule) t = some t') : Spares vm t t' := by
  refine spares_of_bridge h rfl ?_
  obtain ⟨chain, hchain, hnew⟩ := exec_append h
  rw [hchain, hnew]
  simp [without, List.filter_append, without_rule htarget]

/-- The rule under a number jumps to a chain. -/
def Points (t : Table Text (Match F)) (side : Side) (n : ℕ) (name : Text) : Prop :=
  ∀ chain, t.lookup side.text = some chain →
    ∃ rule, chain.rules[n - 1]? = some rule ∧ rule.target = .jump name

theorem filter_eraseIdx {α : Type*} {p : α → Bool} {l : List α} {i : ℕ} {a : α}
    (h : l[i]? = some a) (hp : p a = false) : (l.eraseIdx i).filter p = l.filter p := by
  obtain ⟨hi, rfl⟩ := List.getElem?_eq_some_iff.mp h
  conv_rhs => rw [← List.take_append_drop i l, List.drop_eq_getElem_cons hi]
  rw [List.eraseIdx_eq_take_drop_succ, List.filter_append, List.filter_append,
    List.filter_cons_of_neg (by simp [hp])]

theorem spares_of_delete (h : exec (.delete side.text n) t = some t')
    (hpoints : Points t side n (chainName vm s)) : Spares vm t t' := by
  refine spares_of_bridge h rfl ?_
  obtain ⟨chain, hchain, hnew⟩ := exec_delete h
  obtain ⟨rule, hrule, htarget⟩ := hpoints chain hchain
  rw [hchain, hnew]
  simp only [Option.map_some, without]
  rw [filter_eraseIdx hrule (by simp [without_rule htarget])]

/-- The jumps to a chain are listed. -/
theorem mem_numbers (h : n ∈ numbers t side name) : Points t side n name := by
  intro chain hchain
  rw [numbers, hchain] at h
  obtain ⟨⟨rule, number⟩, hmem, hn⟩ := List.mem_filterMap.mp h
  split at hn
  · rename_i htarget
    cases hn
    obtain ⟨-, -, hrule⟩ := List.mem_zipIdx hmem
    exact ⟨rule, (List.getElem?_eq_some_iff.mpr ⟨_, hrule.symm⟩), htarget⟩
  · cases hn

theorem length_numbers : (numbers t side name).length = (jumpsIn t side name).length := by
  unfold numbers jumpsIn
  cases t.lookup side.text with
  | none => rfl
  | some chain =>
    show (List.filterMap _ (chain.rules.zipIdx 1)).length = (chain.rules.filter _).length
    generalize chain.rules = rules
    generalize 1 = start
    induction rules generalizing start with
    | nil => rfl
    | cons rule rules ih =>
      rw [List.zipIdx_cons, List.filterMap_cons, List.filter_cons]
      by_cases htarget : rule.target = .jump name <;> simp [htarget, ih]

end Sparing

/-! ### The invariant -/

section Invariant

variable {F : Type*} {cfg : Config} {t t' : Table Text (Match F)} {g : ℕ → Option Machine}
  {c : Cmd F} {vm n : ℕ} {m : Machine} {side s : Side} {before rest : List (Cmd F)}
  {left : List (Task F)} {w w' : World F} {label : Label} {past : List (World F × Label)}

/-- The rules of the guarded machines stand. -/
def Guards (cfg : Config) (t : Table Text (Match F)) (g : ℕ → Option Machine) : Prop :=
  ∀ vm m, g vm = some m → m.id = vm ∧ Standing (setCommands cfg m) t

/-- No chain of a machine has more than one jump to it. -/
structure Sound (t : Table Text (Match F)) : Prop where
  builtin : ∀ side : Side, t.lookup side.text ≠ none
  linked : Linked t
  single : ∀ vm side, (jumpsIn t side (chainName vm side)).length ≤ 1

/-- The chains a removal has looked for and not found. -/
def Gone (cfg : Config) (t : Table Text (Match F)) (vm : ℕ) (left : List (Task F)) : Prop :=
  cfg.enable = true → ∀ side, .check side ∉ left → t.lookup (chainName vm side) = none

/-- How far a method is: of the commands of `_set_fw_rules` a front part has been run; in
`_remove_fw_rules` the number of a rule is used at once. -/
inductive JobOk (cfg : Config) (t : Table Text (Match F)) (g : ℕ → Option Machine) : Job F → Prop
  | set {m : Machine} {before rest : List (Cmd F)} {left : List (Task F)}
      (h : setCommands cfg m = before ++ rest) (hleft : left = rest.map .need)
      (hstanding : Standing before t) (hfree : before ≠ [] → g m.id = none) :
      JobOk cfg t g ⟨.set m, left⟩
  | remove {vm : ℕ} {left : List (Task F)} (hfree : g vm = none) (hgone : Gone cfg t vm left)
      (htasks : ∀ task ∈ left, task ∈ removeTasks cfg vm) : JobOk cfg t g ⟨.remove vm, left⟩
  | delete {vm : ℕ} {left : List (Task F)} {side : Side} {n : ℕ} (hfree : g vm = none)
      (hgone : Gone cfg t vm left) (htasks : ∀ task ∈ left, task ∈ removeTasks cfg vm)
      (hpoints : Points t side n (chainName vm side)) :
      JobOk cfg t g ⟨.remove vm, .attempt (.delete side.text n) :: left⟩

structure Inv (cfg : Config) (w : World F) : Prop where
  sound : Sound w.table
  guards : Guards cfg w.table w.guarded
  job : ∀ job, w.job = some job → JobOk cfg w.table w.guarded job

theorem spares_of_setting (hc : Setting m c) (h : exec c t = some t') : Spares m.id t t' := by
  cases hc with
  | create side => exact spares_of_name h rfl
  | own side what v => exact spares_of_name h rfl
  | jump side => exact spares_of_jump rfl h

theorem Guards.frame (h : Guards cfg t g) (hspares : Spares vm t t') (hfree : g vm = none) :
    Guards cfg t' g := by
  intro other m hguard
  obtain ⟨hid, hstanding⟩ := h other m hguard
  have hne : m.id ≠ vm := by
    rintro rfl
    rw [hid, hguard] at hfree
    cases hfree
  refine ⟨hid, hstanding.frame fun name policy hmem => ?_⟩
  obtain ⟨side, rfl⟩ := name_of_create hmem
  exact ⟨hspares.lookup hne, fun _ => hspares.jumps hne⟩

theorem Sound.frame (h : Sound t) (hspares : Spares vm t t') (hexec : exec c t = some t')
    (hsingle : ∀ side, (jumpsIn t' side (chainName vm side)).length ≤ 1) : Sound t' where
  builtin side hnone := by
    have hbridge := hspares.bridge side
    rw [hnone] at hbridge
    exact h.builtin side (Option.map_eq_none_iff.mp hbridge.symm)
  linked := exec_linked hexec h.linked
  single other side := by
    by_cases hne : other = vm
    · exact hne ▸ hsingle side
    · rw [hspares.jumps hne]
      exact h.single other side

/-- A guarded machine has its chains. -/
theorem Guards.stands (h : Guards cfg t g) (henable : cfg.enable = true) (hguard : g vm = some m)
    (side : Side) : t.lookup (chainName vm side) = some (ownChain cfg m side) := by
  obtain ⟨rfl, hstanding⟩ := h vm m hguard
  rw [(hstanding _ _ (create_mem henable side)).1, setCommands, if_pos henable, chainOf_fwRules]

/-- The next command of `_set_fw_rules`. -/
theorem set_next (sound : Sound t) (guards : Guards cfg t g)
    (h : setCommands cfg m = before ++ c :: rest) (hstanding : Standing before t)
    (hfree : before ≠ [] → g m.id = none) (hexec : exec c t = some t') :
    Spares m.id t t' ∧ Sound t' ∧ g m.id = none ∧ Standing (before ++ [c]) t' := by
  have hmem : c ∈ setCommands cfg m := by
    rw [h]
    exact List.mem_append_right _ (List.mem_cons_self ..)
  obtain ⟨henable, hrule⟩ := setCommands_of_mem hmem
  have hspares := spares_of_setting (setting_of_mem hrule) hexec
  have hfront : before ++ [c] <+: fwRules cfg m := by
    refine ⟨rest, ?_⟩
    rw [List.append_assoc, List.singleton_append, ← h, setCommands, if_pos henable]
  have hcount : ∀ side, ((before ++ [c]).filterMap
      (added side (chainName m.id side))).length ≤ 1 := fun side => by
    have hle := (hfront.sublist.filterMap (added side (chainName m.id side))).length_le
    rwa [added_fwRules, if_pos rfl] at hle
  rcases setCommands_split h with ⟨side, rfl, hnone⟩ | ⟨⟨name, rule, rfl⟩, hcreated⟩
  · have hnext := hstanding.extend sound.linked sound.builtin hexec
      (.inl ⟨_, _, rfl, fun s => hnone s _⟩)
    refine ⟨hspares, sound.frame hspares hexec fun s => ?_, ?_, hnext⟩
    · rw [jumpsIn_exec_ne hexec (chainName_ne_text m.id side s).symm]
      exact sound.single m.id s
    · by_contra hguard
      obtain ⟨other, hother⟩ := Option.ne_none_iff_exists'.mp hguard
      have hstands := guards.stands henable hother side
      rw [(exec_create hexec).1] at hstands
      cases hstands
  · have hnext := hstanding.extend sound.linked sound.builtin hexec (.inr ⟨_, _, rfl⟩)
    refine ⟨hspares, sound.frame hspares hexec fun s => ?_, hfree ?_, hnext⟩
    · rw [(hnext _ _ (List.mem_append_left _ (hcreated s))).2 s]
      exact hcount s
    · exact List.ne_nil_of_mem (hcreated .input)

theorem attempt_of_mem (h : .attempt c ∈ removeTasks (F := F) cfg vm) :
    ∃ side, c = .flush (chainName vm side) ∨ c = .remove (chainName vm side) := by
  unfold removeTasks at h
  split at h
  · obtain ⟨side, -, hmem⟩ := List.mem_flatMap.mp h
    simp only [List.mem_cons, List.not_mem_nil, or_false, reduceCtorEq, false_or,
      Task.attempt.injEq] at hmem
    exact ⟨side, hmem⟩
  · cases h

theorem need_not_mem : .need c ∉ removeTasks (F := F) cfg vm := by
  unfold removeTasks
  split <;> simp

theorem Gone.command (h : Gone cfg t vm left) (hexec : exec c t = some t')
    (hc : ∀ name policy, c ≠ .create name policy) : Gone cfg t' vm left :=
  fun henable side hmem => lookup_none_of_exec hexec (hc _) (h henable side hmem)

/-- A flush or the removal of a chain of the machine. -/
theorem remove_next (sound : Sound t)
    (hc : c = .flush (chainName vm side) ∨ c = .remove (chainName vm side))
    (hexec : exec c t = some t') : Spares vm t t' ∧ Sound t' := by
  have hname : c.name = chainName vm side := by rcases hc with rfl | rfl <;> rfl
  have hspares := spares_of_name hexec hname
  refine ⟨hspares, sound.frame hspares hexec fun s => ?_⟩
  rw [jumpsIn_exec_ne hexec (hname ▸ (chainName_ne_text vm side s).symm)]
  exact sound.single vm s

/-- The deletion of a listed rule. -/
theorem delete_next (sound : Sound t) (hpoints : Points t side n (chainName vm side))
    (hexec : exec (.delete side.text n) t = some t') : Spares vm t t' ∧ Sound t' := by
  have hspares := spares_of_delete hexec hpoints
  refine ⟨hspares, sound.frame hspares hexec fun s => ?_⟩
  have hle : (jumpsIn t' s (chainName vm s)).length ≤ (jumpsIn t s (chainName vm s)).length := by
    by_cases hs : s = side
    · subst hs
      obtain ⟨chain, hchain, hnew⟩ := exec_delete hexec
      rw [jumpsIn, jumpsIn, hchain, hnew]
      exact ((List.eraseIdx_sublist chain.rules (n - 1)).filter _).length_le
    · rw [jumpsIn_exec_ne hexec fun heq => hs (Side.text_inj heq)]
  exact hle.trans (sound.single vm s)

theorem Gone.tail {task : Task F} (h : Gone cfg t vm (task :: left))
    (htask : ∀ side, task = .check side → t.lookup (chainName vm side) = none) :
    Gone cfg t vm left := by
  intro henable side hmem
  by_cases heq : task = .check side
  · exact htask side heq
  · refine h henable side fun hcons => ?_
    rcases List.mem_cons.mp hcons with hhead | htail
    · exact heq hhead.symm
    · exact hmem htail

theorem Fresh.inv (h : Fresh t) : Inv cfg (⟨t, none, fun _ => none⟩ : World F) where
  sound := ⟨h.builtin, h.linked, fun vm side => by
    rw [jumpsIn_of_linked h.linked (h.chains vm side)]
    exact Nat.zero_le 1⟩
  guards _ _ h := by cases h
  job _ h := by cases h

theorem check_mem (henable : cfg.enable = true) (side : Side) :
    .check side ∈ removeTasks (F := F) cfg vm := by
  rw [removeTasks, if_pos henable]
  cases side <;> simp

/-- While rules are set, commands that must succeed are all that is left. -/
theorem ne_map_need {task : Task F} (h : ∀ c, task ≠ .need c) : task :: left ≠ rest.map .need := by
  intro heq
  have hmem : task ∈ rest.map .need := heq ▸ List.mem_cons_self ..
  obtain ⟨c, -, hc⟩ := List.mem_map.mp hmem
  exact h c hc.symm

/-- Only the machine whose entry is set anew has to be looked at. -/
theorem Guards.update {entry : Option Machine} (h : Guards cfg t g)
    (hentry : ∀ m, entry = some m → m.id = vm ∧ Standing (setCommands cfg m) t) :
    Guards cfg t (Function.update g vm entry) := by
  intro other m hguard
  by_cases hne : other = vm
  · rw [hne, Function.update_self] at hguard
    rw [hne]
    exact hentry m hguard
  · rw [Function.update_of_ne hne] at hguard
    exact h other m hguard

theorem Guards.leaves (h : Guards cfg t g) (hleaves : Leaves t t') : Guards cfg t' g := by
  intro other m hguard
  obtain ⟨hid, hstanding⟩ := h other m hguard
  refine ⟨hid, hstanding.frame fun name policy hmem => ?_⟩
  obtain ⟨side, rfl⟩ := name_of_create hmem
  exact ⟨hleaves.chains m.id side, fun s => hleaves.jumps s m.id side⟩

/-- The other programs do not disturb a method. -/
theorem JobOk.leaves {job : Job F} (h : JobOk cfg t g job) (hleaves : Leaves t t')
    (hjob : ∀ goal name n left, job ≠ ⟨goal, .attempt (.delete name n) :: left⟩) :
    JobOk cfg t' g job := by
  cases h with
  | @set m before rest left hcommands hleft hstanding hfree =>
    refine .set hcommands hleft (hstanding.frame fun name policy hmem => ?_) hfree
    have hmem' : (.create name policy : Cmd F) ∈ setCommands cfg m := by
      rw [hcommands]
      exact List.mem_append_left _ hmem
    obtain ⟨side, rfl⟩ := name_of_create hmem'
    exact ⟨hleaves.chains m.id side, fun s => hleaves.jumps s m.id side⟩
  | remove hfree hgone htasks =>
    exact .remove hfree (fun henable side hmem =>
      (hleaves.chains _ side).trans (hgone henable side hmem)) htasks
  | delete => exact absurd rfl (hjob _ _ _ _)

theorem Step.inv (h : Inv cfg w) (hstep : Step cfg w label w') : Inv cfg w' := by
  obtain ⟨sound, guards, hjob⟩ := h
  cases hstep with
  | set m t g =>
    refine ⟨sound, guards, fun job hj => ?_⟩
    cases hj
    exact .set (List.nil_append _).symm rfl standing_nil fun hne => absurd rfl hne
  | remove vm t g =>
    refine ⟨sound, guards.update nofun, fun job hj => ?_⟩
    cases hj
    exact .remove (Function.update_self ..)
      (fun henable side hmem => absurd (check_mem henable side) hmem) fun _ hmem => hmem
  | @need c t t' hexec goal left g =>
    cases hjob _ rfl with
    | @set m before rest _ hcommands hleft hstanding hfree =>
      cases rest with
      | nil => cases hleft
      | cons c' rest =>
        obtain ⟨hc, htail⟩ := List.cons.inj hleft
        cases hc
        obtain ⟨hspares, hsound, hnone, hnext⟩ :=
          set_next sound guards hcommands hstanding hfree hexec
        refine ⟨hsound, guards.frame hspares hnone, fun job hj => ?_⟩
        cases hj
        exact .set (hcommands.trans (List.append_cons ..)) htail hnext fun _ => hnone
    | remove hfree hgone htasks => exact absurd (htasks _ (List.mem_cons_self ..)) need_not_mem
  | @attempt c t t' hexec goal left g =>
    cases hjob _ rfl with
    | set _ hleft => exact absurd hleft (ne_map_need nofun)
    | remove hfree hgone htasks =>
      obtain ⟨side, hc⟩ := attempt_of_mem (htasks _ (List.mem_cons_self ..))
      obtain ⟨hspares, hsound⟩ := remove_next sound hc hexec
      refine ⟨hsound, guards.frame hspares hfree, fun job hj => ?_⟩
      cases hj
      refine .remove hfree ((hgone.tail nofun).command hexec ?_)
        (List.forall_mem_of_forall_mem_cons htasks)
      rintro name policy rfl
      rcases hc with hc | hc <;> cases hc
    | delete hfree hgone htasks hpoints =>
      obtain ⟨hspares, hsound⟩ := delete_next sound hpoints hexec
      refine ⟨hsound, guards.frame hspares hfree, fun job hj => ?_⟩
      cases hj
      exact .remove hfree (hgone.command hexec nofun) htasks
  | warn c goal left t g =>
    refine ⟨sound, guards, fun job hj => ?_⟩
    cases hj
    cases hjob _ rfl with
    | set _ hleft => exact absurd hleft (ne_map_need nofun)
    | remove hfree hgone htasks =>
      exact .remove hfree (hgone.tail nofun) (List.forall_mem_of_forall_mem_cons htasks)
    | delete hfree hgone htasks hpoints => exact .remove hfree hgone htasks
  | list side goal left t g =>
    refine ⟨sound, guards, fun job hj => ?_⟩
    cases hj
    cases hjob _ rfl with
    | set _ hleft => exact absurd hleft (ne_map_need nofun)
    | @remove vm _ hfree hgone htasks =>
      have htail : ∀ task ∈ left, task ∈ removeTasks cfg vm :=
        List.forall_mem_of_forall_mem_cons htasks
      have hlength : (numbers t side (chainName vm side)).length ≤ 1 :=
        length_numbers.trans_le (sound.single vm side)
      change JobOk cfg t g ⟨.remove vm, (numbers t side (chainName vm side)).map _ ++ left⟩
      cases hnumbers : numbers t side (chainName vm side) with
      | nil => exact .remove hfree (hgone.tail nofun) htail
      | cons n others =>
        rw [hnumbers, List.length_cons] at hlength
        cases List.length_eq_zero_iff.mp (Nat.le_zero.mp (Nat.le_of_succ_le_succ hlength))
        exact .delete hfree (hgone.tail nofun) htail
          (mem_numbers (hnumbers ▸ List.mem_singleton_self n))
  | @gone side goal t hnone left g =>
    refine ⟨sound, guards, fun job hj => ?_⟩
    cases hj
    cases hjob _ rfl with
    | set _ hleft => exact absurd hleft (ne_map_need nofun)
    | remove hfree hgone htasks =>
      refine .remove hfree (hgone.tail fun s hs => ?_)
        (List.forall_mem_of_forall_mem_cons htasks)
      cases hs
      exact hnone
  | done goal t g =>
    cases hjob _ rfl with
    | @set m before rest _ hcommands hleft hstanding hfree =>
      cases List.map_eq_nil_iff.mp hleft.symm
      rw [List.append_nil] at hcommands
      refine ⟨sound, guards.update fun m' hm => ?_, nofun⟩
      cases hm
      exact ⟨rfl, hcommands ▸ hstanding⟩
    | remove => exact ⟨sound, guards, nofun⟩
  | others hleaves hne g =>
    refine ⟨⟨hleaves.builtin, hleaves.linked, fun vm side => ?_⟩, guards.leaves hleaves,
      fun job hj => (hjob job hj).leaves hleaves fun goal name n left heq => ?_⟩
    · rw [hleaves.jumps]
      exact sound.single vm side
    · exact hne goal name n left (hj.trans (congrArg some heq))
  | reboot hfresh => exact hfresh.inv
  | fail => exact ⟨sound, guards, nofun⟩
  | stands => exact ⟨sound, guards, nofun⟩
  | die => exact ⟨sound, guards, nofun⟩

theorem inv_of_run (run : (lives cfg).Run past w) : Inv cfg w := by
  refine (run.always (I := Inv cfg) ?_ fun _ _ _ h hstep => Step.inv h hstep).1
  rintro ⟨t, job, g⟩ ⟨hfresh, hjob, hguarded⟩
  cases hjob
  cases (funext hguarded : g = fun _ => none)
  exact hfresh.inv

end Invariant

/-! ### The MAC addresses -/

section Addresses

variable {a b n : ℕ} {macPrefix : Text}

theorem number_toDigits (n : ℕ) : number (Nat.toDigits 10 n) = n := by
  have hall : (Nat.toDigits 10 n).takeWhile Char.isDigit = Nat.toDigits 10 n :=
    List.takeWhile_eq_self_iff.mpr fun _ hmem =>
      Nat.isDigit_of_mem_toDigits (by decide) (by decide) hmem
  rw [number, hall, Nat.ofDigitChars_ten_toDigits]

/-- A byte in two digits. -/
theorem hexPart_toDigits (hn : n < 256) :
    hexPart (Nat.toDigits 10 n) = [(n / 16).digitChar, (n % 16).digitChar] := by
  rw [hexPart, number_toDigits, leftpad_toDigits (by decide) (by decide) hn]
  simp only [fixedDigits, List.nil_append, List.singleton_append]
  rw [Nat.mod_eq_of_lt (Nat.div_lt_of_lt_mul hn)]

theorem hexPart_inj {m : ℕ} (hm : m < 256) (hn : n < 256)
    (h : hexPart (Nat.toDigits 10 m) = hexPart (Nat.toDigits 10 n)) : m = n := by
  rw [hexPart_toDigits hm, hexPart_toDigits hn] at h
  obtain ⟨hhigh, hlow⟩ := List.cons.inj h
  have hhigh' := congrArg FixedDigits.hexValue hhigh
  have hlow' := congrArg FixedDigits.hexValue (List.cons.inj hlow).1
  rw [hexValue_digitChar _ (by omega), hexValue_digitChar _ (by omega)] at hhigh' hlow'
  omega

theorem ipToMac_netNtoa (ha : a < 2 ^ 32) : ipToMac macPrefix (netNtoa a) =
    macPrefix ++ ':' :: (hexPart (Nat.toDigits 10 (a / 2 ^ 16 % 256)) ++
      ':' :: (hexPart (Nat.toDigits 10 (a / 2 ^ 8 % 256)) ++
        ':' :: hexPart (Nat.toDigits 10 (a % 256)))) := by
  have hlast : ([Nat.toDigits 10 (a / 2 ^ 24), Nat.toDigits 10 (a / 2 ^ 16 % 256),
      Nat.toDigits 10 (a / 2 ^ 8 % 256), Nat.toDigits 10 (a % 256)]).rdropWhile List.isEmpty =
      [Nat.toDigits 10 (a / 2 ^ 24), Nat.toDigits 10 (a / 2 ^ 16 % 256),
        Nat.toDigits 10 (a / 2 ^ 8 % 256), Nat.toDigits 10 (a % 256)] :=
    List.rdropWhile_eq_self_iff.mpr fun _ => by simp [Nat.toDigits_ne_nil]
  rw [ipToMac, netNtoa_ofNat ha, splitFields, splitOn_dotted, hlast]
  simp [List.intercalate]

/-- Addresses that differ behind the first part have different MAC addresses. -/
theorem ipToMac_inj (ha : a < 2 ^ 32) (hb : b < 2 ^ 32)
    (h : ipToMac macPrefix (netNtoa a) = ipToMac macPrefix (netNtoa b)) :
    a % 2 ^ 24 = b % 2 ^ 24 := by
  rw [ipToMac_netNtoa ha, ipToMac_netNtoa hb] at h
  have hrest := (List.cons.inj (List.append_cancel_left h)).2
  have hlength : ∀ k l : ℕ, (hexPart (Nat.toDigits 10 (k % 256))).length =
      (hexPart (Nat.toDigits 10 (l % 256))).length := fun k l => by
    rw [hexPart_toDigits (Nat.mod_lt _ (by decide)), hexPart_toDigits (Nat.mod_lt _ (by decide))]
    rfl
  obtain ⟨hsecond, hrest⟩ := List.append_inj hrest (hlength _ _)
  obtain ⟨hthird, hrest⟩ := List.append_inj (List.cons.inj hrest).2 (hlength _ _)
  have h2 := hexPart_inj (Nat.mod_lt _ (by decide)) (Nat.mod_lt _ (by decide)) hsecond
  have h3 := hexPart_inj (Nat.mod_lt _ (by decide)) (Nat.mod_lt _ (by decide)) hthird
  have h4 := hexPart_inj (Nat.mod_lt _ (by decide)) (Nat.mod_lt _ (by decide))
    (List.cons.inj hrest).2
  omega

end Addresses

/-! ### What the rules are for -/

section Purpose

variable {F : Type*} {cfg : Config} {m : Machine} {others : F → Frame → Bool} {f : Frame}
  {t : Table Text (Match F)} {g : ℕ → Option Machine} {vm : ℕ} {side : Side} {w w' : World F}
  {label : Label} {past : List (World F × Label)}

/-- What a machine may send: frames from its own MAC address, and in them IPv4 packets from its own
IP address. To the host it may also ask for an address where DHCP is in use; to the other hosts of
the bridge it may not send to a DHCP server. -/
def MaySend (cfg : Config) (m : Machine) (side : Side) (f : Frame) : Prop :=
  f.src = m.mac cfg ∧
    match f.payload with
    | .other => True
    | .ipv4 src port =>
      match side with
      | .input => if src = 0 ∧ port = some 67 then cfg.useDhcp = true else src = netAton m.ip
      | .forward => src = netAton m.ip ∧ port ≠ some 67

/-- The verdicts on the frames from a machine's interface that no other rule is about. Two chains
deep is enough. -/
def Enforced (cfg : Config) (others : F → Frame → Bool) (t : Table Text (Match F))
    (m : Machine) : Prop :=
  ∀ (side : Side) (f : Frame) (depth : ℕ), 2 ≤ depth → f.inInterface = m.iface →
    (∀ chain, t.lookup side.text = some chain → ∀ rule ∈ chain.rules,
      rule.target ≠ .jump (chainName m.id side) → rule.what.holds others f = false) →
    (verdict (Match.holds others f) t depth side.text = some .accept ↔ MaySend cfg m side f) ∧
    (verdict (Match.holds others f) t depth side.text = some .drop ↔ ¬ MaySend cfg m side f)

/-- The HKD changes only what belongs to the machine of its method, and a removal that succeeds
leaves no chain of the machine. -/
structure Lawful (cfg : Config) (w : World F) (label : Label) (w' : World F) : Prop where
  spares : label = .others ∨ label = .reboot ∨ w'.table = w.table ∨
    ∃ job, w.job = some job ∧ Spares job.goal.vm w.table w'.table
  removed : ∀ vm, label = .done → cfg.enable = true → w.job = some ⟨.remove vm, []⟩ →
    ∀ side, w'.table.lookup (chainName vm side) = none

theorem ownChain_verdict (inner : Text → Option Verdict) :
    ((ownChain cfg m side).verdict (Match.holds others f) inner = some .accept ↔
      MaySend cfg m side f) ∧
    ((ownChain cfg m side).verdict (Match.holds others f) inner = some .drop ↔
      ¬ MaySend cfg m side f) := by
  have hzero : netAton "0.0.0.0".toList = 0 := by decide
  by_cases hsrc : f.src = m.mac cfg
  · cases hpayload : f.payload with
    | other =>
      cases side <;> simp [Chain.verdict, ownChain, Rule.verdict, Match.holds, MaySend, hsrc,
        hpayload]
    | ipv4 src port =>
      cases side <;> cases port <;> simp [Chain.verdict, ownChain, Rule.verdict, Match.holds,
        MaySend, hsrc, hpayload, List.findSome?_cons] <;> grind
  · cases side <;> simp [Chain.verdict, ownChain, Rule.verdict, Match.holds, MaySend, hsrc]

/-- A frame from the interface of a guarded machine is decided by the machine's chain. -/
theorem enforced_of_guards (sound : Sound t) (guards : Guards cfg t g)
    (henable : cfg.enable = true) (hguard : g vm = some m) : Enforced cfg others t m := by
  intro side f depth hdepth hin hothers
  obtain ⟨depth, rfl⟩ := Nat.exists_eq_add_of_le' hdepth
  have hown := guards.stands henable hguard side
  obtain ⟨rfl, hstanding⟩ := guards vm m hguard
  have hjumps := (hstanding _ _ (create_mem henable side)).2 side
  rw [setCommands, if_pos henable, added_fwRules, if_pos rfl] at hjumps
  obtain ⟨chain, hchain⟩ := Option.ne_none_iff_exists'.mp (sound.builtin side)
  rw [jumpsIn, hchain] at hjumps
  have hdecided : ∃ v, (ownChain cfg m side).verdict (Match.holds others f)
      (verdict (Match.holds others f) t depth) = some v := by
    have hpolicy : (ownChain (F := F) cfg m side).policy = some .accept := by cases side <;> rfl
    rw [Chain.verdict, hpolicy]
    cases List.findSome? _ _ with
    | none => exact ⟨.accept, rfl⟩
    | some v => exact ⟨v, rfl⟩
  obtain ⟨v, hv⟩ := hdecided
  have hinner : verdict (Match.holds others f) t (depth + 1) (chainName m.id side) = some v := by
    rw [verdict, hown]
    exact hv
  have hverdict : verdict (Match.holds others f) t (depth + 2) side.text = some v := by
    rw [verdict, hchain]
    exact Chain.verdict_of_jumps hjumps (by simp [ownJump, Match.holds, hin])
      (hothers chain hchain) hinner
  rw [hverdict, ← hv]
  exact ownChain_verdict _

theorem Step.lawful (h : Inv cfg w) (hstep : Step cfg w label w') : Lawful cfg w label w' := by
  obtain ⟨sound, guards, hjob⟩ := h
  cases hstep with
  | @need c t t' hexec goal left g =>
    refine ⟨.inr (.inr (.inr ⟨_, rfl, ?_⟩)), nofun⟩
    cases hjob _ rfl with
    | @set m before rest _ hcommands hleft hstanding hfree =>
      cases rest with
      | nil => cases hleft
      | cons c' rest =>
        cases (List.cons.inj hleft).1
        exact (set_next sound guards hcommands hstanding hfree hexec).1
    | remove hfree hgone htasks => exact absurd (htasks _ (List.mem_cons_self ..)) need_not_mem
  | @attempt c t t' hexec goal left g =>
    refine ⟨.inr (.inr (.inr ⟨_, rfl, ?_⟩)), nofun⟩
    cases hjob _ rfl with
    | set _ hleft => exact absurd hleft (ne_map_need nofun)
    | remove hfree hgone htasks =>
      obtain ⟨side, hc⟩ := attempt_of_mem (htasks _ (List.mem_cons_self ..))
      exact (remove_next sound hc hexec).1
    | delete hfree hgone htasks hpoints => exact (delete_next sound hpoints hexec).1
  | done goal t g =>
    refine ⟨.inr (.inr (.inl rfl)), fun vm _ henable hremove side => ?_⟩
    cases hremove
    cases hjob _ rfl with
    | remove hfree hgone htasks => exact hgone henable side List.not_mem_nil
  | others => exact ⟨.inl rfl, nofun⟩
  | reboot => exact ⟨.inr (.inl rfl), nofun⟩
  | _ => exact ⟨.inr (.inr (.inl rfl)), nofun⟩

/-- A frame with the MAC address or the IP address of another machine. -/
def Poses (cfg : Config) (m : Machine) (f : Frame) : Prop :=
  f.src = m.mac cfg ∨ ∃ port, f.payload = .ipv4 (netAton m.ip) port

/-- No frame of a guarded machine that no other rule is about passes for one of a machine whose
address differs behind the first part. -/
theorem no_impersonation (others : F → Frame → Bool) (run : (lives cfg).Run past w)
    (henable : cfg.enable = true) (hguard : w.guarded vm = some m) {m' : Machine} {a b : ℕ}
    (ha : a < 2 ^ 32) (hb : b < 2 ^ 32) (hip : m.ip = netNtoa a) (hip' : m'.ip = netNtoa b)
    (hdiffer : a % 2 ^ 24 ≠ b % 2 ^ 24) (hb0 : b ≠ 0) {f : Frame}
    (hin : f.inInterface = m.iface) (hposes : Poses cfg m' f) {side : Side} {depth : ℕ}
    (hdepth : 2 ≤ depth)
    (hothers : ∀ chain, w.table.lookup side.text = some chain → ∀ rule ∈ chain.rules,
      rule.target ≠ .jump (chainName m.id side) → rule.what.holds others f = false) :
    verdict (Match.holds others f) w.table depth side.text = some .drop := by
  have hinv := inv_of_run run
  have henforced : Enforced cfg others w.table m :=
    enforced_of_guards hinv.sound hinv.guards henable hguard
  refine (henforced side f depth hdepth hin hothers).2.mpr fun ⟨hsrc, hpayload⟩ => hdiffer ?_
  rcases hposes with hmac | ⟨port, hport⟩
  · have hsame : m.mac cfg = m'.mac cfg := hsrc.symm.trans hmac
    rw [Machine.mac, Machine.mac, hip, hip'] at hsame
    exact ipToMac_inj ha hb hsame
  · rw [hport, hip, hip', netAton_netNtoa ha, netAton_netNtoa hb] at hpayload
    cases side with
    | forward => rw [hpayload.1]
    | input =>
      dsimp only at hpayload
      rw [if_neg fun hzero => hb0 hzero.1] at hpayload
      rw [hpayload]

end Purpose

/-! ### A machine with its rules set -/

section Setting

variable {F : Type*} {cfg : Config} {m : Machine} {t t' : Table Text (Match F)}
  {g : ℕ → Option Machine} {cmds : List (Cmd F)} {past : List (World F × Label)}

/-- The commands of `_set_fw_rules` run to the end if none of them is refused. -/
theorem set_reached (run : (lives cfg).Run past ⟨t, some ⟨.set m, cmds.map .need⟩, g⟩)
    (h : cmds.foldlM (fun t c => exec c t) t = some t') :
    ∃ past', (lives cfg).Run past' ⟨t', some ⟨.set m, []⟩, g⟩ := by
  induction cmds generalizing t past with
  | nil =>
    cases h
    exact ⟨past, run⟩
  | cons c cmds ih =>
    obtain ⟨next, hexec, hrest⟩ := Option.bind_eq_some_iff.mp h
    exact ih (.extend run (.need hexec (.set m) (cmds.map .need) g)) hrest

/-- A host before anything is set. -/
def hostTable : Table Text (Match Empty) :=
  ((∅ : Table Text (Match Empty)).insert Side.input.text ⟨some .accept, []⟩).insert
    Side.forward.text ⟨some .accept, []⟩

theorem lookup_hostTable {name : Text} {chain : Chain Text (Match Empty)}
    (h : hostTable.lookup name = some chain) : chain = ⟨some .accept, []⟩ := by
  unfold hostTable at h
  by_cases hforward : name = Side.forward.text
  · rw [hforward, AList.lookup_insert] at h
    exact (Option.some.inj h).symm
  · rw [AList.lookup_insert_ne hforward] at h
    by_cases hinput : name = Side.input.text
    · rw [hinput, AList.lookup_insert] at h
      exact (Option.some.inj h).symm
    · rw [AList.lookup_insert_ne hinput, AList.lookup_empty] at h
      cases h

theorem hostTable_fresh : Fresh hostTable where
  chains vm side := by
    rw [hostTable, AList.lookup_insert_ne (chainName_ne_text vm side .forward),
      AList.lookup_insert_ne (chainName_ne_text vm side .input), AList.lookup_empty]
  builtin side := by cases side <;> decide
  linked target _ name chain hchain := by
    rw [lookup_hostTable hchain]
    rfl

def nodeConfig : Config := ⟨true, "54:52:00".toList, true⟩

def seven : Machine := ⟨7, "10.0.0.7".toList, "vnet7".toList⟩

/-- A frame that carries the MAC address of another machine. -/
def spoofed : Frame := ⟨"vnet7".toList, "54:52:00:00:00:08".toList, .other⟩

def guardedTable : Table Text (Match Empty) :=
  ((setCommands nodeConfig seven).foldlM (fun t c => exec c t) hostTable).getD hostTable

/-- The host with the rules of machine 7. -/
def guardedWorld : World Empty :=
  ⟨guardedTable, none, Function.update (fun _ => none) 7 (some seven)⟩

theorem guardedWorld_seven : guardedWorld.guarded 7 = some seven := by simp [guardedWorld]

theorem guardedWorld_reached : ∃ past, (lives nodeConfig).Run past guardedWorld := by
  have hsome : ((setCommands nodeConfig seven).foldlM (fun t c => exec c t) hostTable).isSome =
      true := by decide +kernel
  have hbuilt : (setCommands nodeConfig seven).foldlM (fun t c => exec c t) hostTable =
      some guardedTable := by
    obtain ⟨t, ht⟩ := Option.isSome_iff_exists.mp hsome
    rw [guardedTable, ht]
    rfl
  have hstart : (lives nodeConfig).Run [] (⟨hostTable, none, fun _ => none⟩ : World Empty) :=
    .start ⟨hostTable_fresh, rfl, fun _ => rfl⟩
  obtain ⟨past, run⟩ := set_reached (.extend hstart (.set seven hostTable _)) hbuilt
  exact ⟨_, .extend run (.done (.set seven) guardedTable _)⟩

/-- In the chains of the bridge only the jumps to the chains of machine 7 stand. -/
theorem guarded_rules (side : Side) : guardedTable.lookup side.text =
    some ⟨some .accept, [ownJump seven side]⟩ := by
  cases side <;> decide +kernel

theorem guarded_others {side : Side} {f : Frame} (chain : Chain Text (Match Empty))
    (hchain : guardedTable.lookup side.text = some chain) (rule : Rule Text (Match Empty))
    (hrule : rule ∈ chain.rules) (htarget : rule.target ≠ .jump (chainName seven.id side)) :
    rule.what.holds (fun what : Empty => nomatch what) f = false := by
  cases (guarded_rules side).symm.trans hchain
  cases List.mem_singleton.mp hrule
  exact absurd rfl htarget

def eight : Machine := ⟨8, "10.0.0.8".toList, "vnet8".toList⟩

/-- An IPv4 packet to the host with the address of another machine. -/
def forged : Frame :=
  ⟨"vnet7".toList, "54:52:00:00:00:07".toList, .ipv4 (netAton "10.0.0.8".toList) (some 53)⟩

theorem forged_dropped :
    verdict (Match.holds (fun what : Empty => nomatch what) forged) guardedTable 2
      Side.input.text = some .drop := by
  obtain ⟨past, run⟩ := guardedWorld_reached
  have hseven : seven.ip = netNtoa 167772167 := by decide
  have height : eight.ip = netNtoa 167772168 := by decide
  exact no_impersonation (fun what : Empty => nomatch what) run rfl guardedWorld_seven
    (by decide) (by decide) hseven height (by decide) (by decide) rfl (.inr ⟨some 53, rfl⟩) le_rfl
    guarded_others

end Setting

end Qvd.BridgeFilter
