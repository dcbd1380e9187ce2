import RodActuator.Lib.StableInsert
import Mathlib.Data.BitVec

/-! The motor arbitration kernel (`Dev/dev_act/dev_act.c`). Input sources send commands to an axis; a run
    request of a direction is kept in its allow queue, ordered by priority, a block in its block queue, and
    after every message the first requests of the directions that are not blocked decide the output. -/

namespace RodActuator.Arb

/-- `ArbDeviceId_t` without `DEV_ID_NONE` and `DEV_ID_MAX`, in the order of the ids 1 to 18. -/
inductive DeviceId where
  | powerPos | powerNeg | limitFwd | limitRev | can | ioFwd | ioRev | emergency | rturnFwd | rturnRev
  | overvoltageFwd | overvoltageRev | undervoltageFwd | undervoltageRev | overcurFwd | overcurRev
  | rodLimitFwd | rodLimitRev
  deriving DecidableEq, Repr

def DeviceId.all : List DeviceId :=
  [.powerPos, .powerNeg, .limitFwd, .limitRev, .can, .ioFwd, .ioRev, .emergency, .rturnFwd, .rturnRev,
    .overvoltageFwd, .overvoltageRev, .undervoltageFwd, .undervoltageRev, .overcurFwd, .overcurRev,
    .rodLimitFwd, .rodLimitRev]

theorem DeviceId.mem_all (dev : DeviceId) : dev ∈ DeviceId.all := by cases dev <;> decide

/-- `ArbCmdType_t` without `CMD_TYPE_NONE`, in the order of the values 1 to 10. -/
inductive CmdType where
  | runFwd | runRev | stop | blockFwd | blockRev | unblockFwd | unblockRev | clearAllowFwd | clearAllowRev
  | emergencyStop
  deriving DecidableEq, Repr

def CmdType.all : List CmdType :=
  [.runFwd, .runRev, .stop, .blockFwd, .blockRev, .unblockFwd, .unblockRev, .clearAllowFwd, .clearAllowRev,
    .emergencyStop]

/-- A running direction; `DIR_NONE` is `none`. -/
inductive Dir where
  | fwd | rev
  deriving DecidableEq, Repr

theorem Dir.forall {p : Dir → Prop} : (∀ d, p d) ↔ p .fwd ∧ p .rev :=
  ⟨fun h => ⟨h .fwd, h .rev⟩, fun h d => by cases d; exacts [h.1, h.2]⟩

instance Dir.decidableForall {p : Dir → Prop} [∀ d, Decidable (p d)] : Decidable (∀ d, p d) := decidable_of_iff _ Dir.forall.symm

inductive ArbState where
  | idle | running
  deriving DecidableEq, Repr

/-- `ArbPriority_t`; a lower number has higher priority. -/
def prioEmergency : Nat := 0
def prioLimit : Nat := 1
def prioFault : Nat := 2
def prioManual : Nat := 3
def prioPower : Nat := 5

abbrev arbMaxAxisNum : Nat := 2

instance : NeZero arbMaxAxisNum := ⟨by decide⟩
def maxCmdQueueSize : Nat := 10
def arbMqDepth : Nat := 16

structure Msg where
  axisId : Fin arbMaxAxisNum
  deviceId : DeviceId
  priority : Nat
  cmdType : CmdType
  dutyPct : Nat
  timestamp : BitVec 32
  deriving DecidableEq, Repr

structure Record where
  deviceId : DeviceId
  priority : Nat
  cmdType : CmdType
  dutyPct : Nat
  timestamp : BitVec 32
  deriving DecidableEq, Repr

/-- `ArbData_t`. A queue is the list of its first `count` records; the others are zero. -/
structure ArbData where
  blockFwd : List Record
  blockRev : List Record
  allowFwd : List Record
  allowRev : List Record
  activeDir : Option Dir
  activeDeviceId : Option DeviceId
  dutyPct : Nat
  state : ArbState
  enable : Bool
  lastArbitrationTime : BitVec 32
  arbitrationCount : BitVec 32
  conflictFault : Bool
  deriving DecidableEq, Repr

inductive Output where
  | fwd (dutyPct : Nat)
  | rev (dutyPct : Nat)
  | stop
  deriving DecidableEq, Repr

def ArbData.init : ArbData where
  blockFwd := []
  blockRev := []
  allowFwd := []
  allowRev := []
  activeDir := none
  activeDeviceId := none
  dutyPct := 0
  state := .idle
  enable := true
  lastArbitrationTime := 0
  arbitrationCount := 0
  conflictFault := false

/-! ### Command lists -/

def cmdListRemove (queue : List Record) (deviceId : DeviceId) : List Record :=
  queue.eraseP fun r => r.deviceId == deviceId

/-- Stores a request, unless the direction is blocked or the queue is full. -/
def cmdListSetAllow (queue blockQueue : List Record) (r : Record) : List Record :=
  if blockQueue.length > 0 then queue
  else
    let queue := cmdListRemove queue r.deviceId
    if queue.length ≥ maxCmdQueueSize then queue else StableInsert.insert Record.priority r queue

/-- Stores a block, unless the device has one already or the queue is full. -/
def cmdListSetBlock (queue : List Record) (r : Record) : List Record :=
  if queue.any fun q => q.deviceId == r.deviceId then queue
  else if queue.length ≥ maxCmdQueueSize then queue
  else queue ++ [r]

/-! ### Messages -/

def Msg.record (msg : Msg) : Record := ⟨msg.deviceId, msg.priority, msg.cmdType, msg.dutyPct, msg.timestamp⟩

def Msg.blockRecord (msg : Msg) : Record := ⟨msg.deviceId, msg.priority, msg.cmdType, 0, msg.timestamp⟩

/-- The two power inputs are one source of a direction: a run command of one withdraws the request of the
    other. -/
def removeOppositePowerAllow (arb : ArbData) (msg : Msg) : ArbData :=
  if msg.cmdType ≠ .runFwd ∧ msg.cmdType ≠ .runRev then arb
  else if msg.deviceId = .powerPos then { arb with allowRev := cmdListRemove arb.allowRev .powerNeg }
  else if msg.deviceId = .powerNeg then { arb with allowFwd := cmdListRemove arb.allowFwd .powerPos }
  else arb

def processMessage (arb : ArbData) (msg : Msg) : ArbData :=
  let arb := removeOppositePowerAllow arb msg
  match msg.cmdType with
  | .runFwd =>
    let blockFwd := cmdListRemove arb.blockFwd msg.deviceId
    { arb with blockFwd := blockFwd, allowFwd := cmdListSetAllow arb.allowFwd blockFwd msg.record }
  | .runRev =>
    let blockRev := cmdListRemove arb.blockRev msg.deviceId
    { arb with blockRev := blockRev, allowRev := cmdListSetAllow arb.allowRev blockRev msg.record }
  | .stop =>
    { arb with
      allowFwd := cmdListRemove arb.allowFwd msg.deviceId
      allowRev := cmdListRemove arb.allowRev msg.deviceId }
  | .blockFwd => { arb with blockFwd := cmdListSetBlock arb.blockFwd msg.blockRecord }
  | .blockRev => { arb with blockRev := cmdListSetBlock arb.blockRev msg.blockRecord }
  | .unblockFwd => { arb with blockFwd := cmdListRemove arb.blockFwd msg.deviceId }
  | .unblockRev => { arb with blockRev := cmdListRemove arb.blockRev msg.deviceId }
  | .clearAllowFwd => { arb with allowFwd := [] }
  | .clearAllowRev => { arb with allowRev := [] }
  | .emergencyStop => { arb with allowFwd := [], allowRev := [] }

/-! ### The decision -/

def applyStop (arb : ArbData) : ArbData × Output :=
  ({ arb with activeDeviceId := none, activeDir := none, dutyPct := 0, state := .idle }, .stop)

/-- The request that represents a direction, if it is not blocked. -/
def represent (allow block : List Record) : Option Record := if block.length = 0 then allow.head? else none

/-- The request that wins, and whether the two representatives are in conflict. -/
def finalCmd : Option Record → Option Record → Option Record × Bool
  | some f, some r =>
    if f.deviceId = r.deviceId then (none, true)
    else if f.priority < r.priority then (some f, false)
    else if r.priority < f.priority then (some r, false)
    else (none, true)
  | some f, none => (some f, false)
  | none, r => (r, false)

def applyFinal (arb : ArbData) : Option Record → ArbData × Output
  | some cmd =>
    let arb := { arb with activeDeviceId := some cmd.deviceId, dutyPct := cmd.dutyPct, state := .running }
    if cmd.cmdType = .runFwd then ({ arb with activeDir := some .fwd }, .fwd cmd.dutyPct)
    else ({ arb with activeDir := some .rev }, .rev cmd.dutyPct)
  | none => applyStop arb

/-- `Arb_Decision` at the time `now`, with the output operation it calls. -/
def decision (now : BitVec 32) (arb : ArbData) : ArbData × Output :=
  if arb.enable then
    let final := finalCmd (represent arb.allowFwd arb.blockFwd) (represent arb.allowRev arb.blockRev)
    let decided := applyFinal { arb with conflictFault := final.2 } final.1
    ({ decided.1 with lastArbitrationTime := now, arbitrationCount := decided.1.arbitrationCount + 1 }, decided.2)
  else applyStop { arb with conflictFault := false }

/-- What `Arb_ThreadEntry` does with a message under the mutex of its axis. -/
def handle (now : BitVec 32) (arb : ArbData) (msg : Msg) : ArbData × Output := decision now (processMessage arb msg)

/-! ### Sending -/

def deviceOfNat (n : Nat) : Option DeviceId := if n = 0 then none else DeviceId.all[n - 1]?

def cmdOfNat (n : Nat) : Option CmdType := if n = 0 then none else CmdType.all[n - 1]?

/-- The message of a valid call of `Arb_SendCommand`; the queue is there. -/
def validate (axisId deviceId priority cmdType dutyPct : Nat) (now : BitVec 32) : Option Msg :=
  match deviceOfNat deviceId, cmdOfNat cmdType with
  | some dev, some cmd =>
    if h : axisId < arbMaxAxisNum ∧ priority ≤ prioPower ∧ dutyPct ≤ 100 then
      some ⟨⟨axisId, h.1⟩, dev, priority, cmd, dutyPct, now⟩
    else none
  | _, _ => none

/-- `rt_mq_urgent` puts a message in front, `rt_mq_send` behind; both fail when the queue is full. -/
def enqueue (urgent : Bool) (msg : Msg) (mq : List Msg) : Option (List Msg) :=
  if mq.length ≥ arbMqDepth then none
  else if urgent then some (msg :: mq)
  else some (mq ++ [msg])

/-! ### The devices of a queue -/

def devices (queue : List Record) : List DeviceId := queue.map Record.deviceId

theorem cmdListRemove_eq_filter {queue : List Record} (distinct : (devices queue).Nodup)
    (dev : DeviceId) : cmdListRemove queue dev = queue.filter fun r => r.deviceId ≠ dev := by
  unfold cmdListRemove
  induction queue with
  | nil => rfl
  | cons r queue ih =>
    obtain ⟨hr, hqueue⟩ := List.nodup_cons.mp distinct
    by_cases hdev : r.deviceId = dev
    · have hrest : ∀ q ∈ queue, q.deviceId ≠ dev := fun q hq hsame =>
        hr (hdev.trans hsame.symm ▸ List.mem_map_of_mem hq)
      rw [List.eraseP_cons_of_pos (by simp [hdev]), List.filter_cons_of_neg (by simp [hdev])]
      exact (List.filter_eq_self.mpr fun q hq => decide_eq_true (hrest q hq)).symm
    · simp [hdev, ih hqueue]

theorem devices_remove {queue : List Record} (distinct : (devices queue).Nodup) (dev : DeviceId) :
    (devices (cmdListRemove queue dev)).Nodup ∧
      ∀ other, other ∈ devices (cmdListRemove queue dev) ↔ other ≠ dev ∧ other ∈ devices queue := by
  rw [cmdListRemove_eq_filter distinct]
  refine ⟨distinct.sublist (List.filter_sublist.map _), fun other => ?_⟩
  simp only [devices, List.mem_map, List.mem_filter, decide_eq_true_eq]
  constructor
  · rintro ⟨r, ⟨hr, hne⟩, rfl⟩
    exact ⟨hne, r, hr, rfl⟩
  · rintro ⟨hne, r, hr, rfl⟩
    exact ⟨r, ⟨hr, hne⟩, rfl⟩

theorem devices_setBlock {queue : List Record} (distinct : (devices queue).Nodup) {r : Record}
    (room : r.deviceId ∉ devices queue → queue.length < maxCmdQueueSize) :
    (devices (cmdListSetBlock queue r)).Nodup ∧
      ∀ other, other ∈ devices (cmdListSetBlock queue r) ↔ other = r.deviceId ∨ other ∈ devices queue := by
  have hany : (queue.any fun q => q.deviceId == r.deviceId) = true ↔ r.deviceId ∈ devices queue := by
    simp [devices]
  unfold cmdListSetBlock
  simp only [hany]
  split_ifs with hmem hfull
  · refine ⟨distinct, fun other => ⟨.inr, ?_⟩⟩
    rintro (rfl | hother)
    · exact hmem
    · exact hother
  · exact absurd (room hmem) (Nat.not_lt.mpr hfull)
  · unfold devices
    rw [List.map_append]
    refine ⟨(List.perm_append_singleton _ _).nodup_iff.mpr (List.nodup_cons.mpr ⟨hmem, distinct⟩), ?_⟩
    intro other
    simp [or_comm]

/-! ### One direction

    The two directions do the same with their own queues and commands; a message acts on the queues of a
    direction through these alone. -/

def ArbData.allow (arb : ArbData) : Dir → List Record
  | .fwd => arb.allowFwd
  | .rev => arb.allowRev

def ArbData.block (arb : ArbData) : Dir → List Record
  | .fwd => arb.blockFwd
  | .rev => arb.blockRev

def Dir.run : Dir → CmdType
  | .fwd => .runFwd
  | .rev => .runRev

def Dir.block : Dir → CmdType
  | .fwd => .blockFwd
  | .rev => .blockRev

def Dir.unblock : Dir → CmdType
  | .fwd => .unblockFwd
  | .rev => .unblockRev

def Dir.clearAllow : Dir → CmdType
  | .fwd => .clearAllowFwd
  | .rev => .clearAllowRev

def Dir.power : Dir → DeviceId
  | .fwd => .powerPos
  | .rev => .powerNeg

def Dir.opposite : Dir → Dir
  | .fwd => .rev
  | .rev => .fwd

def Dir.output : Dir → Nat → Output
  | .fwd => .fwd
  | .rev => .rev

/-- A run command of the other power input takes the request of this direction's away. -/
def Dir.turns (d : Dir) (msg : Msg) : Prop :=
  (msg.cmdType = .runFwd ∨ msg.cmdType = .runRev) ∧ msg.deviceId = d.opposite.power

instance (d : Dir) (msg : Msg) : Decidable (d.turns msg) := inferInstanceAs (Decidable (_ ∧ _))

theorem removeOppositePowerAllow_kept (arb : ArbData) (msg : Msg) :
    (removeOppositePowerAllow arb msg).block = arb.block ∧
      (removeOppositePowerAllow arb msg).enable = arb.enable := by
  unfold removeOppositePowerAllow
  split_ifs <;> exact ⟨rfl, rfl⟩

theorem removeOppositePowerAllow_allow (arb : ArbData) (msg : Msg) (d : Dir) :
    (removeOppositePowerAllow arb msg).allow d =
      if d.turns msg then cmdListRemove (arb.allow d) d.power else arb.allow d := by
  have hrun : d.turns msg ↔
      ¬(msg.cmdType ≠ .runFwd ∧ msg.cmdType ≠ .runRev) ∧ msg.deviceId = d.opposite.power := by
    unfold Dir.turns
    tauto
  unfold removeOppositePowerAllow
  simp only [hrun]
  by_cases hcmd : msg.cmdType ≠ .runFwd ∧ msg.cmdType ≠ .runRev
  · simp [hcmd]
  · rw [if_neg hcmd]
    cases d <;> cases hdev : msg.deviceId <;> simp [hcmd, ArbData.allow, Dir.opposite, Dir.power]

theorem processMessage_block (arb : ArbData) (msg : Msg) (d : Dir) :
    (processMessage arb msg).block d =
      if msg.cmdType = d.block then cmdListSetBlock (arb.block d) msg.blockRecord
      else if msg.cmdType = d.unblock ∨ msg.cmdType = d.run then cmdListRemove (arb.block d) msg.deviceId
      else arb.block d := by
  rw [← (removeOppositePowerAllow_kept arb msg).1, processMessage]
  generalize removeOppositePowerAllow arb msg = arb
  cases hc : msg.cmdType <;> cases d <;> rfl

theorem processMessage_allow (arb : ArbData) (msg : Msg) (d : Dir) :
    (processMessage arb msg).allow d =
      let allow := if d.turns msg then cmdListRemove (arb.allow d) d.power else arb.allow d
      if msg.cmdType = d.run then cmdListSetAllow allow (cmdListRemove (arb.block d) msg.deviceId) msg.record
      else if msg.cmdType = .stop then cmdListRemove allow msg.deviceId
      else if msg.cmdType = d.clearAllow ∨ msg.cmdType = .emergencyStop then []
      else allow := by
  rw [← (removeOppositePowerAllow_kept arb msg).1, ← removeOppositePowerAllow_allow, processMessage]
  generalize removeOppositePowerAllow arb msg = arb
  cases hc : msg.cmdType <;> cases d <;> rfl

theorem processMessage_enable (arb : ArbData) (msg : Msg) : (processMessage arb msg).enable = arb.enable := by
  rw [← (removeOppositePowerAllow_kept arb msg).2, processMessage]
  generalize removeOppositePowerAllow arb msg = arb
  cases msg.cmdType <;> rfl

theorem applyFinal_kept (arb : ArbData) (cmd : Option Record) :
    (applyFinal arb cmd).1.allow = arb.allow ∧ (applyFinal arb cmd).1.block = arb.block ∧
      (applyFinal arb cmd).1.enable = arb.enable ∧ (applyFinal arb cmd).1.conflictFault = arb.conflictFault := by
  cases cmd with
  | none => exact ⟨rfl, rfl, rfl, rfl⟩
  | some cmd =>
    simp only [applyFinal]
    split <;> exact ⟨rfl, rfl, rfl, rfl⟩

/-- The direction that an output operation drives. -/
def Output.dir : Output → Option Dir
  | .fwd _ => some .fwd
  | .rev _ => some .rev
  | .stop => none

theorem Output.dir_eq_some_iff {o : Output} {d : Dir} : o.dir = some d ↔ ∃ duty, o = d.output duty := by
  cases o <;> cases d <;> simp [Output.dir, Dir.output]

theorem decision_activeDir (now : BitVec 32) (arb : ArbData) :
    (decision now arb).1.activeDir = (decision now arb).2.dir := by
  have hfinal : ∀ (arb : ArbData) (cmd : Option Record), (applyFinal arb cmd).1.activeDir = (applyFinal arb cmd).2.dir := by
    intro arb cmd
    cases cmd with
    | none => rfl
    | some cmd =>
      simp only [applyFinal]
      split <;> rfl
  unfold decision
  split
  · exact hfinal _ _
  · rfl

theorem applyFinal_output (arb : ArbData) (cmd : Option Record) :
    (applyFinal arb cmd).2 = cmd.elim .stop fun cmd =>
      if cmd.cmdType = .runFwd then .fwd cmd.dutyPct else .rev cmd.dutyPct := by
  cases cmd with
  | none => rfl
  | some cmd =>
    simp only [applyFinal, Option.elim]
    split <;> rfl

theorem decision_kept (now : BitVec 32) (arb : ArbData) :
    (decision now arb).1.allow = arb.allow ∧ (decision now arb).1.block = arb.block ∧
      (decision now arb).1.enable = arb.enable := by
  unfold decision
  split
  · obtain ⟨hallow, hblock, henable, -⟩ := applyFinal_kept
      { arb with conflictFault := (finalCmd (represent arb.allowFwd arb.blockFwd)
        (represent arb.allowRev arb.blockRev)).2 }
      (finalCmd (represent arb.allowFwd arb.blockFwd) (represent arb.allowRev arb.blockRev)).1
    exact ⟨hallow, hblock, henable⟩
  · exact ⟨rfl, rfl, rfl⟩

theorem decision_enabled (now : BitVec 32) {arb : ArbData} (enable : arb.enable = true) :
    ((decision now arb).2, (decision now arb).1.conflictFault) =
      let final := finalCmd (represent arb.allowFwd arb.blockFwd) (represent arb.allowRev arb.blockRev)
      (final.1.elim .stop fun cmd =>
        if cmd.cmdType = .runFwd then .fwd cmd.dutyPct else .rev cmd.dutyPct, final.2) := by
  simp only [decision, enable, if_true, applyFinal_output]
  rw [(applyFinal_kept _ _).2.2.2]

theorem decision_disabled (now : BitVec 32) {arb : ArbData} (enable : arb.enable = false) :
    ((decision now arb).2, (decision now arb).1.conflictFault) = (.stop, false) := by
  simp only [decision, enable, Bool.false_eq_true, if_false]
  rfl

/-- What a message does to the queues and the enable flag is what `Arb_ProcessMessage` does. -/
theorem handle_kept (now : BitVec 32) (arb : ArbData) (msg : Msg) :
    (handle now arb msg).1.allow = (processMessage arb msg).allow ∧
      (handle now arb msg).1.block = (processMessage arb msg).block ∧ (handle now arb msg).1.enable = arb.enable := by
  obtain ⟨hallow, hblock, henable⟩ := decision_kept now (processMessage arb msg)
  exact ⟨hallow, hblock, henable.trans (processMessage_enable arb msg)⟩

theorem handle_disabled (now : BitVec 32) {arb : ArbData} (msg : Msg) (h : arb.enable = false) :
    (handle now arb msg).2 = .stop :=
  congrArg Prod.fst (decision_disabled now ((processMessage_enable arb msg).trans h))

end RodActuator.Arb
