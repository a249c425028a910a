import Qvd.FreeAddresses
import Qvd.NetworkRanges
import Qvd.OwnedItems
import Qvd.Runs

/-!
The firewall of a node: the rules that the HKD puts into the tables of the host when it starts and
takes out of them when it stops, over all its lives, while other programs keep rules of their own
in the same tables; and what becomes of the packets of the virtual machines meanwhile.
-/
namespace Qvd.Firewall

open LineText NetworkRanges OwnedItems Runs

/-! ### Rules and packets -/

inductive Chain
  | input
  | forward
  | postrouting
deriving DecidableEq, Repr

inductive Target
  | accept
  | drop
  | masquerade
deriving DecidableEq, Repr

/-- What a rule asks for besides addresses. -/
inductive Match
  | any
  | tcp
  | tcpSyn
  | tcpPort (port : ℕ)
  | udpPorts (ports : List ℕ)
  | echoRequest
  | outInterface (name : Text)
deriving DecidableEq, Repr

structure Rule where
  chain : Chain
  srcRange : Text
  dstRange : Option Text
  what : Match
  target : Target
deriving DecidableEq, Repr

/-- A TCP packet with `syn` opens a connection. -/
inductive Payload
  | tcp (syn : Bool) (port : ℕ)
  | udp (port : ℕ)
  | icmp (echoRequest : Bool)
  | other
deriving DecidableEq, Repr

structure Packet where
  src : ℕ
  dst : ℕ
  payload : Payload
  outInterface : Text
deriving DecidableEq, Repr

/-- The addresses of a range written as its two ends. -/
def inRange (range : Text) (a : ℕ) : Bool :=
  match range.splitOn '-' with
  | [low, high] => netAton low ≤ a && a ≤ netAton high
  | _ => false

def Match.holds (p : Packet) : Match → Bool
  | .any => true
  | .tcp => match p.payload with | .tcp _ _ => true | _ => false
  | .tcpSyn => match p.payload with | .tcp syn _ => syn | _ => false
  | .tcpPort port => match p.payload with | .tcp _ dport => dport == port | _ => false
  | .udpPorts ports => match p.payload with | .udp dport => ports.contains dport | _ => false
  | .echoRequest => match p.payload with | .icmp echo => echo | _ => false
  | .outInterface name => p.outInterface == name

def Rule.holds (r : Rule) (p : Packet) : Bool :=
  inRange r.srcRange p.src && r.dstRange.all (inRange · p.dst) && r.what.holds p

/-! ### The rules of the HKD -/

/-- The settings of a node whose address has passed its check. -/
structure Config where
  network : Network
  address : Text
  checked : checkAddress network.cfg true true address = true
  enable : Bool
  allowLoginFromVm : Bool
  protectHost : Bool
  protectVms : Bool
  l7rPort : ℕ
  natIface : Text

section Rules

variable (cfg : Config)

def vms : Text := netvms cfg.network.cfg

def nodes : Text := netnodes cfg.network.cfg

/-- `_fw_rules` -/
def fwRules : List Rule :=
  (if cfg.allowLoginFromVm then
    [⟨.input, vms cfg, some (nodes cfg), .tcpPort cfg.l7rPort, .accept⟩,
      ⟨.input, vms cfg, some (nodes cfg), .echoRequest, .accept⟩] else []) ++
  (if cfg.protectHost then
    [⟨.forward, vms cfg, some (nodes cfg), .tcpSyn, .drop⟩,
      ⟨.input, vms cfg, none, .tcpSyn, .drop⟩] else []) ++
  [⟨.forward, vms cfg, some (nodes cfg), .tcp, .accept⟩, ⟨.input, vms cfg, none, .tcp, .accept⟩,
    ⟨.input, vms cfg, none, .udpPorts [67, 53], .accept⟩,
    ⟨.input, vms cfg, none, .tcpPort 53, .accept⟩] ++
  (if cfg.protectHost then
    [⟨.forward, vms cfg, some (nodes cfg), .any, .drop⟩, ⟨.input, vms cfg, none, .any, .drop⟩]
    else []) ++
  (if cfg.protectVms then [⟨.forward, vms cfg, some (vms cfg), .any, .drop⟩] else []) ++
  (if cfg.natIface = [] then []
    else [⟨.postrouting, vms cfg, none, .outInterface cfg.natIface, .masquerade⟩])

/-- Without `internal.vm.network.firewall.enable` both methods skip all of the rules. -/
def ownRules : List Rule := if cfg.enable then fwRules cfg else []

end Rules

/-! ### The tables of the host -/

/-- How the rules of the other programs apply. -/
structure Others (F : Type*) where
  holds : F → Chain → Packet → Bool
  target : F → Target

section Tables

variable {F : Type*} (others : Others F)

/-- The rules of all chains; a chain's are in their order. -/
abbrev Table (F : Type*) := List (Rule ⊕ F)

def applies (chain : Chain) (p : Packet) : Rule ⊕ F → Bool
  | .inl r => r.chain == chain && r.holds p
  | .inr f => others.holds f chain p

def targetOf : Rule ⊕ F → Target
  | .inl r => r.target
  | .inr f => others.target f

/-- The target of the first rule that applies; without any the chain's policy decides. -/
def verdict (table : Table F) (chain : Chain) (p : Packet) : Option Target :=
  (table.find? (applies others chain p)).map (targetOf others)

def own (F : Type*) (cfg : Config) : Table F := (ownRules cfg).map .inl

end Tables

/-! ### The lives of the HKD -/

/-- Where the HKD is in a life. `serving` lasts from the end of `_set_fw_rules` to the stop. -/
inductive Phase
  | down
  | starting
  | removingOld (left : ℕ)
  | setting (done : ℕ)
  | serving
  | stopping
  | removing (left : ℕ)
  | stopped
deriving DecidableEq, Repr

structure World (F : Type*) where
  phase : Phase
  table : Table F

inductive Label
  | boot
  | begin
  | delete
  | add
  | proceed
  | fail
  | exit
  | others
  | reboot
deriving DecidableEq, Repr

section Steps

variable {F : Type*} [DecidableEq F] (cfg : Config)

/-- `iptables -D` takes the first rule like its argument out, and `iptables -A` puts a rule behind
the others. The HKD goes through its rules one command at a time; it can die between any two, and
the other programs do not touch its rules. -/
inductive Step : World F → Label → World F → Prop
  | boot (t : Table F) : Step ⟨.down, t⟩ .boot ⟨.starting, t⟩
  | begin (t : Table F) :
      Step ⟨.starting, t⟩ .begin ⟨.removingOld (own F cfg).length, t⟩
  | deleteOld {n : ℕ} {r : Rule ⊕ F} (hr : (own F cfg)[n]? = some r) (t : Table F) :
      Step ⟨.removingOld (n + 1), t⟩ .delete ⟨.removingOld n, removeFirst t r⟩
  | cleared (t : Table F) : Step ⟨.removingOld 0, t⟩ .proceed ⟨.setting 0, t⟩
  | add {n : ℕ} {r : Rule ⊕ F} (hr : (own F cfg)[n]? = some r) (t : Table F) :
      Step ⟨.setting n, t⟩ .add ⟨.setting (n + 1), t ++ [r]⟩
  | set (t : Table F) : Step ⟨.setting (own F cfg).length, t⟩ .proceed ⟨.serving, t⟩
  | fail {phase : Phase} (h : phase = .starting ∨ ∃ n, phase = .setting n) (t : Table F) :
      Step ⟨phase, t⟩ .fail ⟨.stopping, t⟩
  | stop (t : Table F) : Step ⟨.serving, t⟩ .proceed ⟨.stopping, t⟩
  | remove (t : Table F) :
      Step ⟨.stopping, t⟩ .begin ⟨.removing (own F cfg).length, t⟩
  | delete {n : ℕ} {r : Rule ⊕ F} (hr : (own F cfg)[n]? = some r) (t : Table F) :
      Step ⟨.removing (n + 1), t⟩ .delete ⟨.removing n, removeFirst t r⟩
  | removed (t : Table F) : Step ⟨.removing 0, t⟩ .proceed ⟨.stopped, t⟩
  | exit (phase : Phase) (t : Table F) : Step ⟨phase, t⟩ .exit ⟨.down, t⟩
  | others {t t' : Table F} (h : standing (own F cfg) t' = standing (own F cfg) t)
      (phase : Phase) : Step ⟨phase, t⟩ .others ⟨phase, t'⟩
  | reboot {t' : Table F} (h : standing (own F cfg) t' = []) (w : World F) :
      Step w .reboot ⟨.down, t'⟩

/-- The lives of the HKD of a host that has none of its rules at first. -/
def lives : System (World F) Label where
  init w := w.phase = .down ∧ standing (own F cfg) w.table = []
  step := Step cfg

end Steps

/-! ### What the firewall is for -/

section Purpose

variable (cfg : Config)

def FromVm (p : Packet) : Prop := (vmRange cfg.network.cfg).Has p.src

def ToVm (p : Packet) : Prop := (vmRange cfg.network.cfg).Has p.dst

def ToNode (p : Packet) : Prop := (nodeRange cfg.network.cfg).Has p.dst

/-- What a virtual machine may send to its host: answers on connections that the host has opened,
DHCP and DNS over UDP, and, if login from machines is allowed, pings and connections to the L7R.
Other connections only if the host is not protected. -/
def Admitted (p : Packet) : Prop :=
  match p.payload with
  | .tcp true port =>
    cfg.protectHost = false ∨ cfg.allowLoginFromVm = true ∧ ToNode cfg p ∧ port = cfg.l7rPort
  | .tcp false _ => True
  | .udp port => port = 67 ∨ port = 53
  | .icmp true => cfg.allowLoginFromVm = true ∧ ToNode cfg p
  | .icmp false => False
  | .other => False

/-- What a virtual machine may send to the other nodes. -/
def Relayed (p : Packet) : Prop :=
  match p.payload with
  | .tcp syn _ => cfg.protectHost = true → syn = false
  | _ => False

/-- The verdicts in the three chains on the packets that no rule of another program decides. -/
structure Enforced {F : Type*} [DecidableEq F] (others : Others F) (table : Table F) : Prop where
  toHost : ∀ p, (∀ e ∈ foreign (own F cfg) table, applies others .input p e = false) →
    (verdict others table .input p = some .accept ↔ FromVm cfg p ∧ Admitted cfg p) ∧
    (verdict others table .input p = some .drop ↔
      FromVm cfg p ∧ cfg.protectHost = true ∧ ¬ Admitted cfg p)
  through : ∀ p, (∀ e ∈ foreign (own F cfg) table, applies others .forward p e = false) →
    (verdict others table .forward p = some .accept ↔
      FromVm cfg p ∧ ToNode cfg p ∧ Relayed cfg p) ∧
    (verdict others table .forward p = some .drop ↔ FromVm cfg p ∧
      (ToNode cfg p ∧ cfg.protectHost = true ∧ ¬ Relayed cfg p ∨
        ToVm cfg p ∧ cfg.protectVms = true))
  out : ∀ p, (∀ e ∈ foreign (own F cfg) table, applies others .postrouting p e = false) →
    (verdict others table .postrouting p = some .masquerade ↔
      FromVm cfg p ∧ cfg.natIface ≠ [] ∧ p.outInterface = cfg.natIface)

end Purpose

/-! ### The ranges as texts -/

section Ranges

theorem dash_not_mem (n : ℤ) : '-' ∉ netNtoa n := by
  have hdigits : ∀ k, '-' ∉ Nat.toDigits 10 k := fun k hmem =>
    absurd (Nat.isDigit_of_mem_toDigits (by decide) (by decide) hmem) (by decide)
  simp [netNtoa, dotted, hdigits]

theorem inRange_text {low high a : ℕ} (hlow : low < 2 ^ 32) (hhigh : high < 2 ^ 32) :
    inRange (Range.text (low, high)) a = true ↔ low ≤ a ∧ a ≤ high := by
  have hsplit : (Range.text (low, high)).splitOn '-' = [netNtoa low, netNtoa high] := by
    rw [Range.text, List.splitOn_append_cons_self_of_not_mem (dash_not_mem low),
      List.splitOn_eq_singleton (dash_not_mem high)]
  rw [inRange, hsplit]
  dsimp only
  rw [netAton_netNtoa hlow, netAton_netNtoa hhigh]
  simp

variable (cfg : Config)

theorem Config.between : networkN cfg.network.cfg < netAton cfg.address ∧
    netAton cfg.address < netstartN cfg.network.cfg := of_checkAddress cfg.checked

theorem nettopN_lt : nettopN cfg.network.cfg < 2 ^ 32 :=
  FreeAddresses.topOf_lt cfg.network.netstartN_lt (netmaskN cfg.network.cfg)

theorem inRange_vms {a : ℕ} : inRange (vms cfg) a = true ↔ (vmRange cfg.network.cfg).Has a := by
  have hbelow := cfg.network.below
  have htop := nettopN_lt cfg
  have hends : vmRange cfg.network.cfg =
      ((netstartN cfg.network.cfg : ℤ), ((nettopN cfg.network.cfg - 1 : ℕ) : ℤ)) := by
    rw [vmRange, Nat.cast_sub (by omega), Nat.cast_one]
  rw [vms, netvms, hends, inRange_text cfg.network.netstartN_lt (by omega)]
  simp only [Range.Has, Int.ofNat_le]

theorem inRange_nodes {a : ℕ} :
    inRange (nodes cfg) a = true ↔ (nodeRange cfg.network.cfg).Has a := by
  have hbetween := cfg.between
  have hstart := cfg.network.netstartN_lt
  have hends : nodeRange cfg.network.cfg = (((networkN cfg.network.cfg + 1 : ℕ) : ℤ),
      ((netstartN cfg.network.cfg - 1 : ℕ) : ℤ)) := by
    rw [nodeRange, Nat.cast_add, Nat.cast_sub (by omega), Nat.cast_one]
  rw [nodes, netnodes, hends, inRange_text (by omega) (by omega)]
  simp only [Range.Has, Int.ofNat_le]

/-- No address is a node's and a machine's. -/
theorem not_node_of_vm {a : ℕ} (h : (vmRange cfg.network.cfg).Has a) :
    ¬ (nodeRange cfg.network.cfg).Has a := fun hnode =>
  (partitioned_of_between cfg.network cfg.between).disjoint a hnode h

theorem vms_ne_nodes : vms cfg ≠ nodes cfg := by
  intro heq
  have hhost := (partitioned_of_between cfg.network cfg.between).host
  refine not_node_of_vm cfg ?_ hhost
  rw [← inRange_vms, heq, inRange_nodes]
  exact hhost

end Ranges

/-! ### What the rules decide -/

section Verdicts

variable {cfg : Config} {p : Packet}

/-- The first of the rules that applies in a chain. -/
def decided (rules : List Rule) (chain : Chain) (p : Packet) : Option Target :=
  (rules.find? fun r => r.chain == chain && r.holds p).map Rule.target

theorem srcRange_of_mem {r : Rule} (h : r ∈ fwRules cfg) : r.srcRange = vms cfg := by
  have hall : (fwRules cfg).Forall fun r => r.srcRange = vms cfg := by
    unfold fwRules
    cases cfg.allowLoginFromVm <;> cases cfg.protectHost <;> cases cfg.protectVms <;>
      by_cases hnat : cfg.natIface = [] <;> simp [hnat]
  exact List.forall_iff_forall_mem.mp hall r h

/-- The rules are about the packets of the machines only. -/
theorem decided_stranger (h : inRange (vms cfg) p.src = false) (chain : Chain) :
    decided (fwRules cfg) chain p = none := by
  rw [decided, Option.map_eq_none_iff, List.find?_eq_none]
  intro r hr
  simp [Rule.holds, srcRange_of_mem hr, h]

theorem decided_nil {chain : Chain} {target : Target} : decided [] chain p ≠ some target := by
  simp [decided]

theorem decided_cons {chain : Chain} {r : Rule} {rules : List Rule} {target : Target} :
    decided (r :: rules) chain p = some target ↔
      r.chain = chain ∧ r.holds p = true ∧ r.target = target ∨
        (r.chain = chain → r.holds p = false) ∧ decided rules chain p = some target := by
  rw [decided, List.find?_cons]
  by_cases hchain : r.chain = chain
  · cases hholds : r.holds p <;> simp [hchain, decided]
  · simp [hchain, beq_false_of_ne hchain, decided]

variable {chain : Chain} {what : Match} {target : Target}

theorem holds_from (h : inRange (vms cfg) p.src = true) :
    (⟨chain, vms cfg, none, what, target⟩ : Rule).holds p = what.holds p := by
  rw [Rule.holds, h]
  rfl

theorem holds_from_to (h : inRange (vms cfg) p.src = true) (range : Text) :
    (⟨chain, vms cfg, some range, what, target⟩ : Rule).holds p =
      (inRange range p.dst && what.holds p) := by
  rw [Rule.holds, h]
  rfl

theorem decided_input (h : inRange (vms cfg) p.src = true) :
    (decided (fwRules cfg) .input p = some .accept ↔ Admitted cfg p) ∧
    (decided (fwRules cfg) .input p = some .drop ↔
      cfg.protectHost = true ∧ ¬ Admitted cfg p) := by
  unfold fwRules Admitted ToNode
  rw [← inRange_nodes]
  cases cfg.allowLoginFromVm <;> cases cfg.protectHost <;> cases cfg.protectVms <;>
    by_cases hnat : cfg.natIface = [] <;>
    simp only [hnat, if_true, if_false, Bool.false_eq_true, List.cons_append, List.nil_append,
      List.append_nil, decided_cons, decided_nil, holds_from h, holds_from_to h, reduceCtorEq,
      true_and, false_and, and_false, false_or, or_false, false_imp_iff, true_imp_iff, and_true,
      Bool.and_eq_true, Bool.and_eq_false_iff]
  all_goals
    generalize inRange (nodes cfg) p.dst = toNode
    cases hp : p.payload <;> grind [Match.holds]

theorem decided_forward (h : inRange (vms cfg) p.src = true) :
    (decided (fwRules cfg) .forward p = some .accept ↔ ToNode cfg p ∧ Relayed cfg p) ∧
    (decided (fwRules cfg) .forward p = some .drop ↔
      ToNode cfg p ∧ cfg.protectHost = true ∧ ¬ Relayed cfg p ∨
        ToVm cfg p ∧ cfg.protectVms = true) := by
  have hapart : inRange (vms cfg) p.dst = true → inRange (nodes cfg) p.dst = false := fun hvm =>
    Bool.eq_false_iff.mpr fun hnode =>
      not_node_of_vm cfg ((inRange_vms cfg).mp hvm) ((inRange_nodes cfg).mp hnode)
  unfold fwRules Relayed ToNode ToVm
  rw [← inRange_nodes, ← inRange_vms]
  cases cfg.allowLoginFromVm <;> cases cfg.protectHost <;> cases cfg.protectVms <;>
    by_cases hnat : cfg.natIface = [] <;>
    simp only [hnat, if_true, if_false, Bool.false_eq_true, List.cons_append, List.nil_append,
      List.append_nil, decided_cons, decided_nil, holds_from_to h, reduceCtorEq,
      true_and, false_and, and_false, false_or, or_false, false_imp_iff, true_imp_iff, and_true,
      Bool.and_eq_true, Bool.and_eq_false_iff]
  all_goals
    generalize inRange (nodes cfg) p.dst = toNode at hapart ⊢
    generalize inRange (vms cfg) p.dst = toVm at hapart ⊢
    cases hp : p.payload <;> grind [Match.holds]

theorem decided_postrouting (h : inRange (vms cfg) p.src = true) :
    decided (fwRules cfg) .postrouting p = some .masquerade ↔
      cfg.natIface ≠ [] ∧ p.outInterface = cfg.natIface := by
  unfold fwRules
  cases cfg.allowLoginFromVm <;> cases cfg.protectHost <;> cases cfg.protectVms <;>
    by_cases hnat : cfg.natIface = [] <;>
    simp [hnat, decided_cons, decided_nil, holds_from h, Match.holds]

theorem nodup_fwRules (cfg : Config) : (fwRules cfg).Nodup := by
  have hne := vms_ne_nodes cfg
  unfold fwRules
  cases cfg.allowLoginFromVm <;> cases cfg.protectHost <;> cases cfg.protectVms <;>
    by_cases hnat : cfg.natIface = [] <;> simp [hnat, hne.symm]

end Verdicts

/-! ### What stands of the rules over the lives -/

section Lives

variable {F : Type*} [DecidableEq F] {cfg : Config} {w w' : World F} {label : Label}
  {past : List (World F × Label)}

omit [DecidableEq F] in
theorem nodup_own : (own F cfg).Nodup := by
  refine List.Nodup.map Sum.inl_injective ?_
  unfold ownRules
  split
  · exact nodup_fwRules cfg
  · exact List.nodup_nil

/-- How many of the rules can stand in a phase. -/
def Phase.Allows (length : ℕ) : Phase → ℕ → Prop
  | .removingOld left, k => k ≤ left
  | .removing left, k => k ≤ left
  | .setting done, k => k = done
  | .serving, k => k = length
  | .stopped, k => k = 0
  | _, _ => True

/-- A front part of the rules stands, in their order, and no rule twice. -/
def Front (cfg : Config) (w : World F) : Prop :=
  ∃ k, k ≤ (own F cfg).length ∧ standing (own F cfg) w.table = (own F cfg).take k ∧
    w.phase.Allows (own F cfg).length k

theorem Step.front (h : Front cfg w) (hstep : Step cfg w label w') : Front cfg w' := by
  obtain ⟨k, hk, hstanding, hallows⟩ := h
  cases hstep with
  | boot => exact ⟨k, hk, hstanding, trivial⟩
  | begin => exact ⟨k, hk, hstanding, hk⟩
  | @deleteOld n r hr =>
    have hle : k ≤ n + 1 := hallows
    exact ⟨min k n, (min_le_left k n).trans hk,
      standing_removeFirst nodup_own hr hle hstanding, min_le_right k n⟩
  | cleared => exact ⟨k, hk, hstanding, Nat.le_zero.mp hallows⟩
  | @add n r hr =>
    cases (hallows : k = n)
    refine ⟨k + 1, (List.getElem?_eq_some_iff.mp hr).1, ?_, rfl⟩
    rw [standing_append (List.mem_of_getElem? hr), hstanding, take_getElem? hr]
  | set => exact ⟨k, hk, hstanding, hallows⟩
  | fail => exact ⟨k, hk, hstanding, trivial⟩
  | stop => exact ⟨k, hk, hstanding, trivial⟩
  | remove => exact ⟨k, hk, hstanding, hk⟩
  | @delete n r hr =>
    have hle : k ≤ n + 1 := hallows
    exact ⟨min k n, (min_le_left k n).trans hk,
      standing_removeFirst nodup_own hr hle hstanding, min_le_right k n⟩
  | removed => exact ⟨k, hk, hstanding, Nat.le_zero.mp hallows⟩
  | exit => exact ⟨k, hk, hstanding, trivial⟩
  | others hsame => exact ⟨k, hk, hsame.trans hstanding, hallows⟩
  | reboot hnone => exact ⟨0, Nat.zero_le _, hnone, trivial⟩

/-- The commands of the HKD leave the rules of the others as they are. -/
theorem Step.foreign_eq (hstep : Step cfg w label w') :
    label = .others ∨ label = .reboot ∨
      foreign (own F cfg) w'.table = foreign (own F cfg) w.table := by
  cases hstep with
  | others => exact .inl rfl
  | reboot => exact .inr (.inl rfl)
  | deleteOld hr => exact .inr (.inr (foreign_removeFirst (List.mem_of_getElem? hr)))
  | delete hr => exact .inr (.inr (foreign_removeFirst (List.mem_of_getElem? hr)))
  | add hr => exact .inr (.inr (foreign_append (List.mem_of_getElem? hr)))
  | _ => exact .inr (.inr rfl)

theorem front_of_run (run : (lives (F := F) cfg).Run past w) : Front cfg w := by
  refine (run.always (I := Front cfg) ?_ fun _ _ _ h hstep => Step.front h hstep).1
  rintro s ⟨hphase, hnone⟩
  exact ⟨0, Nat.zero_le _, hnone, by rw [hphase]; trivial⟩

/-! ### The verdicts while the HKD serves -/

variable {others : Others F} {table : Table F} {p : Packet}

/-- Where no other program's rule applies, the rules of the HKD decide. -/
theorem verdict_eq_decided (henable : cfg.enable = true)
    (hstanding : standing (own F cfg) table = own F cfg) {chain : Chain}
    (hothers : ∀ e ∈ foreign (own F cfg) table, applies others chain p e = false) :
    verdict others table chain p = decided (fwRules cfg) chain p := by
  rw [verdict, find?_eq_standing hothers, hstanding, own, ownRules, if_pos henable,
    List.find?_map, Option.map_map]
  rfl

theorem enforced_of_standing (henable : cfg.enable = true)
    (hstanding : standing (own F cfg) table = own F cfg) : Enforced cfg others table := by
  have hvm : ∀ p : Packet, FromVm cfg p ↔ inRange (vms cfg) p.src = true :=
    fun p => (inRange_vms cfg).symm
  constructor
  all_goals
    intro p hothers
    rw [verdict_eq_decided henable hstanding hothers, hvm]
    cases hsrc : inRange (vms cfg) p.src with
    | false => simp [decided_stranger hsrc]
    | true => ?_
  · simpa using decided_input hsrc
  · simpa using decided_forward hsrc
  · simpa using decided_postrouting hsrc

theorem removingOld_reached (cfg : Config) {n left : ℕ} (h : left + n = (own F cfg).length) :
    ∃ past, (lives (F := F) cfg).Run past ⟨.removingOld left, []⟩ := by
  induction n generalizing left with
  | zero =>
    cases (h : left = (own F cfg).length)
    exact ⟨_, .extend (.extend (.start ⟨rfl, rfl⟩) (.boot [])) (.begin [])⟩
  | succ n ih =>
    have hleft : left + 1 + n = (own F cfg).length := by omega
    obtain ⟨past, run⟩ := ih hleft
    exact ⟨_, .extend run (.deleteOld (List.getElem?_eq_getElem (by omega)) [])⟩

theorem setting_reached (cfg : Config) {n : ℕ} (h : n ≤ (own F cfg).length) :
    ∃ past, (lives (F := F) cfg).Run past ⟨.setting n, (own F cfg).take n⟩ := by
  induction n with
  | zero =>
    obtain ⟨past, run⟩ := removingOld_reached (F := F) cfg (Nat.zero_add _)
    exact ⟨_, .extend run (.cleared [])⟩
  | succ n ih =>
    obtain ⟨past, run⟩ := ih (by omega)
    have hr := List.getElem?_eq_getElem (show n < (own F cfg).length by omega)
    have hstep := Step.add hr ((own F cfg).take n)
    rw [take_getElem? hr] at hstep
    exact ⟨_, .extend run hstep⟩

/-- A start comes to its end, with the rules in an empty table. -/
theorem serving_reached (cfg : Config) :
    ∃ past, (lives (F := F) cfg).Run past ⟨.serving, own F cfg⟩ := by
  obtain ⟨past, run⟩ := setting_reached (F := F) cfg (le_refl _)
  rw [List.take_length] at run
  exact ⟨_, .extend run (.set _)⟩

/-- A node of the small network, at 10.0.0.1. -/
def smallConfig : Config where
  network := smallNetwork
  address := "10.0.0.1".toList
  checked := by decide
  enable := true
  allowLoginFromVm := true
  protectHost := true
  protectVms := true
  l7rPort := 8443
  natIface := []

/-- A connection from 10.0.0.150 to the ssh port of the node. -/
def sshPacket : Packet where
  src := 167772310
  dst := 167772161
  payload := .tcp true 22
  outInterface := []

end Lives

end Qvd.Firewall
