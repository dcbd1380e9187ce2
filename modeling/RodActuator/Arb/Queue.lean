import RodActuator.Lib.FixedArray
import RodActuator.Arb.Invariant

/-! The queues in memory. `ArbCommandQueue_t` is an array of ten records with a count, all fields bytes; the
    functions on it search, shift and count with bytes. Every access is checked here, and the queues are shown
    to hold just the lists of the kernel, so that no access is ever out of bounds. -/

namespace RodActuator.Arb
open FixedArray

/-! ### The data -/

/-- `ArbCommandRecord_t`. -/
structure CommandRecord where
  deviceId : BitVec 8
  priority : BitVec 8
  cmdType : BitVec 8
  dutyPct : BitVec 8
  timestamp : BitVec 32
  deriving DecidableEq, Repr

def CommandRecord.zero : CommandRecord := ⟨0, 0, 0, 0, 0⟩

/-- `ArbCommandQueue_t`. -/
structure CommandQueue where
  records : Fin maxCmdQueueSize → CommandRecord
  count : BitVec 8

/-- `ArbCommandMsg_t`. -/
structure CommandMsg where
  axisId : BitVec 8
  deviceId : BitVec 8
  priority : BitVec 8
  cmdType : BitVec 8
  dutyPct : BitVec 8
  timestamp : BitVec 32
  deriving DecidableEq, Repr

namespace CommandQueue

def zero : CommandQueue := ⟨fun _ => .zero, 0⟩

/-! ### Command lists -/

/-- `Arb_CmdListRemove`; the last of the records that are shifted is at `(uint8_t)(count - 1)`. -/
def cmdListRemove (queue : CommandQueue) (deviceId : BitVec 8) : Option CommandQueue := do
  match ← find (fun r => r.deviceId == deviceId) queue.records 0 queue.count.toNat with
  | none => some queue
  | some i =>
    let records ← shiftDown queue.records i ((queue.count - 1).toNat - i)
    let count := queue.count - 1
    if count.toNat < maxCmdQueueSize then
      let records ← store records count.toNat .zero
      some ⟨records, count⟩
    else some ⟨records, count⟩

/-- `Arb_CmdListSetAllow`. -/
def cmdListSetAllow (queue blockQueue : CommandQueue) (r : CommandRecord) : Option CommandQueue :=
  if blockQueue.count.toNat > 0 then some queue
  else do
    let queue ← queue.cmdListRemove r.deviceId
    if queue.count.toNat ≥ maxCmdQueueSize then some queue
    else
      -- The search ends at the first record of a larger number, or behind the last one.
      let found ← find (fun q => r.priority < q.priority) queue.records 0 queue.count.toNat
      let index := found.getD queue.count.toNat
      let records ← shiftUp queue.records queue.count.toNat (queue.count.toNat - index)
      let records ← store records index r
      some ⟨records, queue.count + 1⟩

/-- `Arb_CmdListSetBlock`. -/
def cmdListSetBlock (queue : CommandQueue) (r : CommandRecord) : Option CommandQueue := do
  match ← find (fun q => q.deviceId == r.deviceId) queue.records 0 queue.count.toNat with
  | some _ => some queue
  | none =>
    if queue.count.toNat ≥ maxCmdQueueSize then some queue
    else
      let records ← store queue.records queue.count.toNat r
      some ⟨records, queue.count + 1⟩

end CommandQueue

/-- The queues of an axis. -/
structure Queues where
  blockFwd : CommandQueue
  blockRev : CommandQueue
  allowFwd : CommandQueue
  allowRev : CommandQueue

namespace Queues

def zero : Queues := ⟨.zero, .zero, .zero, .zero⟩

def allow (qs : Queues) : Dir → CommandQueue
  | .fwd => qs.allowFwd
  | .rev => qs.allowRev

def block (qs : Queues) : Dir → CommandQueue
  | .fwd => qs.blockFwd
  | .rev => qs.blockRev

/-! ### Messages -/

end Queues

def DeviceId.code (dev : DeviceId) : BitVec 8 := BitVec.ofNat 8 (DeviceId.all.idxOf dev + 1)

def CmdType.code (cmd : CmdType) : BitVec 8 := BitVec.ofNat 8 (CmdType.all.idxOf cmd + 1)

def CommandMsg.record (msg : CommandMsg) : CommandRecord :=
  ⟨msg.deviceId, msg.priority, msg.cmdType, msg.dutyPct, msg.timestamp⟩

def CommandMsg.blockRecord (msg : CommandMsg) : CommandRecord :=
  ⟨msg.deviceId, msg.priority, msg.cmdType, 0, msg.timestamp⟩

namespace Queues

/-- `Arb_RemoveOppositePowerAllow`. -/
def removeOppositePowerAllow (qs : Queues) (msg : CommandMsg) : Option Queues :=
  if msg.cmdType ≠ CmdType.code .runFwd ∧ msg.cmdType ≠ CmdType.code .runRev then some qs
  else if msg.deviceId = DeviceId.code .powerPos then do
    let allowRev ← qs.allowRev.cmdListRemove (DeviceId.code .powerNeg)
    some { qs with allowRev := allowRev }
  else if msg.deviceId = DeviceId.code .powerNeg then do
    let allowFwd ← qs.allowFwd.cmdListRemove (DeviceId.code .powerPos)
    some { qs with allowFwd := allowFwd }
  else some qs

/-- `Arb_ProcessMessage`; the `default` of its switch is for other bytes than the commands. -/
def processMessage (qs : Queues) (msg : CommandMsg) : Option Queues := do
  let qs ← qs.removeOppositePowerAllow msg
  match cmdOfNat msg.cmdType.toNat with
  | some .runFwd =>
    let blockFwd ← qs.blockFwd.cmdListRemove msg.deviceId
    let allowFwd ← qs.allowFwd.cmdListSetAllow blockFwd msg.record
    some { qs with blockFwd := blockFwd, allowFwd := allowFwd }
  | some .runRev =>
    let blockRev ← qs.blockRev.cmdListRemove msg.deviceId
    let allowRev ← qs.allowRev.cmdListSetAllow blockRev msg.record
    some { qs with blockRev := blockRev, allowRev := allowRev }
  | some .stop =>
    let allowFwd ← qs.allowFwd.cmdListRemove msg.deviceId
    let allowRev ← qs.allowRev.cmdListRemove msg.deviceId
    some { qs with allowFwd := allowFwd, allowRev := allowRev }
  | some .blockFwd =>
    let blockFwd ← qs.blockFwd.cmdListSetBlock msg.blockRecord
    some { qs with blockFwd := blockFwd }
  | some .blockRev =>
    let blockRev ← qs.blockRev.cmdListSetBlock msg.blockRecord
    some { qs with blockRev := blockRev }
  | some .unblockFwd =>
    let blockFwd ← qs.blockFwd.cmdListRemove msg.deviceId
    some { qs with blockFwd := blockFwd }
  | some .unblockRev =>
    let blockRev ← qs.blockRev.cmdListRemove msg.deviceId
    some { qs with blockRev := blockRev }
  | some .clearAllowFwd => some { qs with allowFwd := .zero }
  | some .clearAllowRev => some { qs with allowRev := .zero }
  | some .emergencyStop => some { qs with allowFwd := .zero, allowRev := .zero }
  | none => some qs

end Queues

/-! ### Queues that hold lists -/

def Record.encode (r : Record) : CommandRecord :=
  ⟨r.deviceId.code, BitVec.ofNat 8 r.priority, r.cmdType.code, BitVec.ofNat 8 r.dutyPct, r.timestamp⟩

/-- The queue holds the records, whose numbers are bytes. -/
structure CommandQueue.Holds (queue : CommandQueue) (l : List Record) : Prop where
  records : FixedArray.Holds .zero (l.map Record.encode) queue.records
  count : queue.count = BitVec.ofNat 8 l.length
  bytes : ∀ r ∈ l, r.priority < 256

theorem DeviceId.code_injective : Function.Injective DeviceId.code := by
  intro a b h
  revert h
  cases a <;> cases b <;> decide

section
variable {queue blockQueue : CommandQueue} {l block : List Record}

theorem CommandQueue.Holds.length_le (h : queue.Holds l) : l.length ≤ maxCmdQueueSize := by
  simpa using h.records.fits

theorem CommandQueue.Holds.count_toNat (h : queue.Holds l) : queue.count.toNat = l.length := by
  have hle := h.length_le
  rw [h.count, BitVec.toNat_ofNat]
  exact Nat.mod_eq_of_lt (by simp only [maxCmdQueueSize] at hle; omega)

theorem CommandQueue.Holds.find_device (h : queue.Holds l) (dev : DeviceId) :
    find (fun r => r.deviceId == dev.code) queue.records 0 queue.count.toNat =
      some (l.findIdx? fun r => r.deviceId == dev) := by
  have hfind := h.records.find fun r => r.deviceId == dev.code
  rw [List.length_map] at hfind
  rw [h.count_toNat, hfind, List.findIdx?_map]
  congr 2
  funext r
  simp [Record.encode, DeviceId.code_injective.eq_iff]

theorem CommandQueue.Holds.zero : CommandQueue.zero.Holds [] := ⟨.nil, rfl, by simp⟩

theorem CommandQueue.Holds.pred_toNat (h : queue.Holds l) (hpos : 0 < l.length) :
    (queue.count - 1).toNat = l.length - 1 := by
  have hcount := h.count_toNat
  have hlt : queue.count.toNat < 256 := queue.count.isLt
  rw [BitVec.toNat_sub, show BitVec.toNat (1 : BitVec 8) = 1 from rfl]
  omega

theorem CommandQueue.Holds.remove (h : queue.Holds l) (dev : DeviceId) :
    ∃ queue', queue.cmdListRemove dev.code = some queue' ∧ queue'.Holds (Arb.cmdListRemove l dev) := by
  unfold CommandQueue.cmdListRemove Arb.cmdListRemove
  rw [h.find_device, List.eraseP_eq_eraseIdx]
  cases hfind : l.findIdx? fun r => r.deviceId == dev with
  | none => exact ⟨queue, rfl, h⟩
  | some i =>
    have hi : i < l.length := (List.findIdx?_eq_some_iff_findIdx_eq.mp hfind).1
    have hle := h.length_le
    have hpred := h.pred_toNat (by omega)
    obtain ⟨records, records', hshift, hstore, hholds⟩ := h.records.erase (i := i) (by simpa using hi)
    rw [List.length_map] at hshift hstore
    have hroom : l.length - 1 < maxCmdQueueSize := by omega
    refine ⟨⟨records', queue.count - 1⟩, ?_, ?_, ?_, ?_⟩
    · simp only [Option.bind_eq_bind, Option.bind_some, hpred, hshift, hstore, if_pos hroom]
    · rwa [← List.eraseIdx_map]
    · rw [List.length_eraseIdx_of_lt hi]
      apply BitVec.eq_of_toNat_eq
      rw [hpred, BitVec.toNat_ofNat, Nat.mod_eq_of_lt (by simp only [maxCmdQueueSize] at hle; omega)]
    · exact fun r hr => h.bytes r (List.mem_of_mem_eraseIdx hr)

theorem CommandQueue.Holds.succ_count (h : queue.Holds l) : queue.count + 1 = BitVec.ofNat 8 (l.length + 1) := by
  rw [h.count, BitVec.ofNat_add]
  rfl

/-- The search for the place of a request compares bytes. -/
theorem CommandQueue.Holds.find_place (h : queue.Holds l) {r : Record} (hr : r.priority < 256) :
    find (fun q => r.encode.priority < q.priority) queue.records 0 queue.count.toNat =
      some (l.findIdx? fun q => r.priority < q.priority) := by
  have hfind := h.records.find fun q => decide (r.encode.priority < q.priority)
  rw [List.length_map] at hfind
  rw [h.count_toNat, hfind, List.findIdx?_map]
  have hbytes := h.bytes
  clear h hfind
  congr 1
  induction l with
  | nil => rfl
  | cons q l ih =>
    obtain ⟨hq, hl⟩ := List.forall_mem_cons.mp hbytes
    have hlt : r.encode.priority < q.encode.priority ↔ r.priority < q.priority := by
      simp only [Record.encode, BitVec.lt_def, BitVec.toNat_ofNat]
      rw [Nat.mod_eq_of_lt hr, Nat.mod_eq_of_lt hq]
    rw [List.findIdx?_cons, List.findIdx?_cons, ih hl]
    simp only [Function.comp_apply, hlt]

theorem CommandQueue.Holds.setAllow (h : queue.Holds l) (hblock : blockQueue.Holds block) {r : Record}
    (hr : r.priority < 256) :
    ∃ queue', queue.cmdListSetAllow blockQueue r.encode = some queue' ∧
      queue'.Holds (Arb.cmdListSetAllow l block r) := by
  unfold CommandQueue.cmdListSetAllow Arb.cmdListSetAllow
  rw [hblock.count_toNat]
  split
  · exact ⟨queue, rfl, h⟩
  · obtain ⟨removed, hremove, hholds⟩ := h.remove r.deviceId
    have hcount := hholds.count_toNat
    have hdev : r.encode.deviceId = r.deviceId.code := rfl
    simp only [hdev, Option.bind_eq_bind, hremove, Option.bind_some, hcount]
    split
    · exact ⟨removed, rfl, hholds⟩
    · rename_i hroom
      generalize Arb.cmdListRemove l r.deviceId = l at hholds hcount hroom
      have hfind := hholds.find_place hr
      rw [hcount] at hfind
      have hindex : (l.findIdx? fun q => decide (r.priority < q.priority)).getD l.length ≤ l.length := by
        cases hf : l.findIdx? fun q => decide (r.priority < q.priority) with
        | none => exact Nat.le_refl _
        | some i => exact Nat.le_of_lt (List.findIdx?_eq_some_iff_findIdx_eq.mp hf).1
      obtain ⟨records, records', hshift, hstore, hinsert⟩ :=
        hholds.records.insert (by simpa using hindex) (by simpa using Nat.not_le.mp hroom) r.encode
      rw [List.length_map] at hshift
      refine ⟨⟨records', removed.count + 1⟩, ?_, ?_, ?_, ?_⟩
      · simp only [hfind, Option.bind_some, hshift, hstore]
      · rw [StableInsert.insert_eq_insertIdx, List.map_insertIdx]
        exact hinsert
      · rw [hholds.succ_count, (StableInsert.insert_perm _ _ _).length_eq, List.length_cons]
      · intro q hq
        rcases List.mem_cons.mp ((StableInsert.insert_perm _ _ _).mem_iff.mp hq) with rfl | hq
        · exact hr
        · exact hholds.bytes q hq

theorem CommandQueue.Holds.setBlock (h : queue.Holds l) {r : Record} (hr : r.priority < 256) :
    ∃ queue', queue.cmdListSetBlock r.encode = some queue' ∧ queue'.Holds (Arb.cmdListSetBlock l r) := by
  have hfind := h.find_device r.deviceId
  have hdev : r.encode.deviceId = r.deviceId.code := rfl
  have hany : (l.any fun q => q.deviceId == r.deviceId) = (l.findIdx? fun q => q.deviceId == r.deviceId).isSome :=
    List.findIdx?_isSome.symm
  unfold CommandQueue.cmdListSetBlock Arb.cmdListSetBlock
  rw [hany, hdev, hfind, h.count_toNat]
  cases l.findIdx? fun q => q.deviceId == r.deviceId with
  | some i => exact ⟨queue, rfl, h⟩
  | none =>
    simp only [Option.bind_eq_bind, Option.bind_some, Option.isSome_none, Bool.false_eq_true, if_false]
    split
    · exact ⟨queue, rfl, h⟩
    · rename_i hroom
      obtain ⟨records, hstore, hholds⟩ := h.records.concat (by simpa using Nat.not_le.mp hroom) r.encode
      rw [List.length_map] at hstore
      refine ⟨⟨records, queue.count + 1⟩, by simp only [hstore, Option.bind_some], ?_, ?_, ?_⟩
      · rwa [List.map_append]
      · rw [h.succ_count, List.length_append, List.length_singleton]
      · intro q hq
        rcases List.mem_append.mp hq with hq | hq
        · exact h.bytes q hq
        · rw [List.mem_singleton.mp hq]
          exact hr

end

/-! ### Axes that hold the data of the kernel -/

def Msg.encode (msg : Msg) : CommandMsg :=
  ⟨BitVec.ofNat 8 msg.axisId, msg.deviceId.code, BitVec.ofNat 8 msg.priority, msg.cmdType.code,
    BitVec.ofNat 8 msg.dutyPct, msg.timestamp⟩

structure Queues.Holds (qs : Queues) (arb : ArbData) : Prop where
  blockFwd : qs.blockFwd.Holds arb.blockFwd
  blockRev : qs.blockRev.Holds arb.blockRev
  allowFwd : qs.allowFwd.Holds arb.allowFwd
  allowRev : qs.allowRev.Holds arb.allowRev

theorem Queues.Holds.init : Queues.zero.Holds ArbData.init := ⟨.zero, .zero, .zero, .zero⟩

theorem CmdType.code_injective : Function.Injective CmdType.code := by
  intro a b h
  revert h
  cases a <;> cases b <;> decide

theorem cmdOfNat_code (cmd : CmdType) : cmdOfNat cmd.code.toNat = some cmd := by cases cmd <;> rfl

section
variable {qs : Queues} {arb : ArbData}

theorem Queues.Holds.removeOpposite (h : qs.Holds arb) (msg : Msg) :
    ∃ qs', qs.removeOppositePowerAllow msg.encode = some qs' ∧ qs'.Holds (Arb.removeOppositePowerAllow arb msg) := by
  have hcmd : ∀ cmd, msg.encode.cmdType = CmdType.code cmd ↔ msg.cmdType = cmd := fun cmd =>
    CmdType.code_injective.eq_iff
  have hdev : ∀ dev, msg.encode.deviceId = DeviceId.code dev ↔ msg.deviceId = dev := fun dev =>
    DeviceId.code_injective.eq_iff
  unfold Queues.removeOppositePowerAllow Arb.removeOppositePowerAllow
  simp only [ne_eq, hcmd, hdev]
  split_ifs
  · exact ⟨qs, rfl, h⟩
  · obtain ⟨queue, hremove, hholds⟩ := h.allowRev.remove .powerNeg
    exact ⟨{ qs with allowRev := queue }, by simp only [hremove, Option.bind_eq_bind, Option.bind_some],
      { h with allowRev := hholds }⟩
  · obtain ⟨queue, hremove, hholds⟩ := h.allowFwd.remove .powerPos
    exact ⟨{ qs with allowFwd := queue }, by simp only [hremove, Option.bind_eq_bind, Option.bind_some],
      { h with allowFwd := hholds }⟩
  · exact ⟨qs, rfl, h⟩

/-- What a message does to the queues in memory is what it does to the lists of the kernel. -/
theorem Queues.Holds.process (h : qs.Holds arb) {msg : Msg} (hbyte : msg.priority < 256) :
    ∃ qs', qs.processMessage msg.encode = some qs' ∧ qs'.Holds (Arb.processMessage arb msg) := by
  obtain ⟨qs₁, hturn, h⟩ := h.removeOpposite msg
  have hrecord : msg.encode.record = msg.record.encode := rfl
  have hblockRecord : msg.encode.blockRecord = msg.blockRecord.encode := rfl
  have hdev : msg.encode.deviceId = msg.deviceId.code := rfl
  have hcmd : cmdOfNat msg.encode.cmdType.toNat = some msg.cmdType := cmdOfNat_code msg.cmdType
  unfold Queues.processMessage Arb.processMessage
  simp only [hturn, Option.bind_eq_bind, Option.bind_some, hcmd, hrecord, hblockRecord, hdev]
  generalize Arb.removeOppositePowerAllow arb msg = arb at h
  cases msg.cmdType with
  | runFwd =>
    obtain ⟨block, hremove, hblock⟩ := h.blockFwd.remove msg.deviceId
    obtain ⟨allow, hset, hallow⟩ := h.allowFwd.setAllow (r := msg.record) hblock hbyte
    exact ⟨{ qs₁ with blockFwd := block, allowFwd := allow }, by simp only [hremove, hset, Option.bind_some],
      { h with blockFwd := hblock, allowFwd := hallow }⟩
  | runRev =>
    obtain ⟨block, hremove, hblock⟩ := h.blockRev.remove msg.deviceId
    obtain ⟨allow, hset, hallow⟩ := h.allowRev.setAllow (r := msg.record) hblock hbyte
    exact ⟨{ qs₁ with blockRev := block, allowRev := allow }, by simp only [hremove, hset, Option.bind_some],
      { h with blockRev := hblock, allowRev := hallow }⟩
  | stop =>
    obtain ⟨fwd, hfwd, hfwd'⟩ := h.allowFwd.remove msg.deviceId
    obtain ⟨rev, hrev, hrev'⟩ := h.allowRev.remove msg.deviceId
    exact ⟨{ qs₁ with allowFwd := fwd, allowRev := rev }, by simp only [hfwd, hrev, Option.bind_some],
      { h with allowFwd := hfwd', allowRev := hrev' }⟩
  | blockFwd =>
    obtain ⟨block, hset, hblock⟩ := h.blockFwd.setBlock (r := msg.blockRecord) hbyte
    exact ⟨{ qs₁ with blockFwd := block }, by simp only [hset, Option.bind_some], { h with blockFwd := hblock }⟩
  | blockRev =>
    obtain ⟨block, hset, hblock⟩ := h.blockRev.setBlock (r := msg.blockRecord) hbyte
    exact ⟨{ qs₁ with blockRev := block }, by simp only [hset, Option.bind_some], { h with blockRev := hblock }⟩
  | unblockFwd =>
    obtain ⟨block, hremove, hblock⟩ := h.blockFwd.remove msg.deviceId
    exact ⟨{ qs₁ with blockFwd := block }, by simp only [hremove, Option.bind_some], { h with blockFwd := hblock }⟩
  | unblockRev =>
    obtain ⟨block, hremove, hblock⟩ := h.blockRev.remove msg.deviceId
    exact ⟨{ qs₁ with blockRev := block }, by simp only [hremove, Option.bind_some], { h with blockRev := hblock }⟩
  | clearAllowFwd => exact ⟨{ qs₁ with allowFwd := .zero }, rfl, { h with allowFwd := .zero }⟩
  | clearAllowRev => exact ⟨{ qs₁ with allowRev := .zero }, rfl, { h with allowRev := .zero }⟩
  | emergencyStop => exact ⟨{ qs₁ with allowFwd := .zero, allowRev := .zero }, rfl, { h with allowFwd := .zero, allowRev := .zero }⟩

end

/-! ### Histories -/

/-- What happens to the axes: the thread handles a message of the queue, `Arb_SetEnable` is called, or
    `Arb_Module_Init` resets an axis. -/
inductive AxisEvent where
  | handled (msg : CommandMsg) (now : BitVec 32)
  | setEnable (axisId : Fin arbMaxAxisNum) (enable : Bool)
  | init (axisId : Fin arbMaxAxisNum)
  deriving DecidableEq, Repr

def stepQueues (axes : Fin arbMaxAxisNum → Queues) : AxisEvent → Option (Fin arbMaxAxisNum → Queues)
  | .handled msg _ =>
    if h : msg.axisId.toNat < arbMaxAxisNum then
      ((axes ⟨msg.axisId.toNat, h⟩).processMessage msg).map (Function.update axes ⟨msg.axisId.toNat, h⟩)
    else some axes
  | .setEnable _ _ => some axes
  | .init i => some (Function.update axes i .zero)

def replayQueues (h : List AxisEvent) : Option (Fin arbMaxAxisNum → Queues) := h.foldlM stepQueues fun _ => .zero

/-- The message of the kernel, if `Arb_SendCommand` accepts it. -/
def CommandMsg.decode (msg : CommandMsg) : Option Msg :=
  validate msg.axisId.toNat msg.deviceId.toNat msg.priority.toNat msg.cmdType.toNat msg.dutyPct.toNat msg.timestamp

def AxisEvent.on (i : Fin arbMaxAxisNum) : AxisEvent → Option Event
  | .handled msg now => msg.decode.bind fun m => if m.axisId = i then some (.handled m now) else none
  | .setEnable j enable => if j = i then some (.setEnable enable) else none
  | .init j => if j = i then some .init else none

/-- The events of one axis. -/
def history (i : Fin arbMaxAxisNum) (h : List AxisEvent) : List Event := h.filterMap (AxisEvent.on i)

theorem code_of_place {α : Type} [DecidableEq α] {l : List α} {n : Nat} {a : α} (distinct : l.Nodup)
    (hlen : l.length < 255) (h : (if n = 0 then none else l[n - 1]?) = some a) :
    (BitVec.ofNat 8 (l.idxOf a + 1)).toNat = n := by
  split at h
  · cases h
  · obtain ⟨hn, rfl⟩ := List.getElem?_eq_some_iff.mp h
    rw [distinct.idxOf_getElem, BitVec.toNat_ofNat, Nat.mod_eq_of_lt] <;> omega

theorem code_of_deviceOfNat {n : Nat} {dev : DeviceId} (h : deviceOfNat n = some dev) : dev.code.toNat = n :=
  code_of_place (by decide) (by decide) h

theorem code_of_cmdOfNat {n : Nat} {cmd : CmdType} (h : cmdOfNat n = some cmd) : cmd.code.toNat = n :=
  code_of_place (by decide) (by decide) h

theorem CommandMsg.decode_eq_some {raw : CommandMsg} {msg : Msg} (h : raw.decode = some msg) :
    raw = msg.encode ∧ msg.priority ≤ prioPower ∧ raw.axisId.toNat = msg.axisId := by
  unfold CommandMsg.decode validate at h
  split at h
  · rename_i dev cmd hdev hcmd
    split at h
    · rename_i hvalid
      cases h
      refine ⟨?_, hvalid.2.1, rfl⟩
      obtain ⟨axisId, deviceId, priority, cmdType, dutyPct, timestamp⟩ := raw
      simp only [Msg.encode, CommandMsg.mk.injEq, BitVec.ofNat_toNat, BitVec.setWidth_eq, and_true, true_and]
      exact ⟨BitVec.eq_of_toNat_eq (code_of_deviceOfNat hdev).symm, BitVec.eq_of_toNat_eq (code_of_cmdOfNat hcmd).symm⟩
    · cases h
  · cases h

theorem Queues.Holds.congr {qs : Queues} {arb arb' : ArbData} (h : qs.Holds arb) (allow : arb'.allow = arb.allow)
    (block : arb'.block = arb.block) : qs.Holds arb' := by
  have hbf : arb'.blockFwd = arb.blockFwd := congrFun block .fwd
  have hbr : arb'.blockRev = arb.blockRev := congrFun block .rev
  have haf : arb'.allowFwd = arb.allowFwd := congrFun allow .fwd
  have har : arb'.allowRev = arb.allowRev := congrFun allow .rev
  exact ⟨hbf ▸ h.blockFwd, hbr ▸ h.blockRev, haf ▸ h.allowFwd, har ▸ h.allowRev⟩

theorem history_concat (i : Fin arbMaxAxisNum) (h : List AxisEvent) (e : AxisEvent) :
    history i (h ++ [e]) = history i h ++ (e.on i).toList := by
  unfold history
  rw [List.filterMap_append]
  cases he : e.on i <;> simp [he]

/-- Every accepted message of the arbiter. -/
def Accepted (h : List AxisEvent) : Prop := ∀ msg now, .handled msg now ∈ h → msg.decode.isSome

theorem stepQueues_holds {axes : Fin arbMaxAxisNum → Queues} {h : List AxisEvent} {e : AxisEvent}
    (holds : ∀ i, (axes i).Holds (replay (history i h)))
    (accepted : ∀ msg now, e = .handled msg now → msg.decode.isSome) :
    ∃ axes', stepQueues axes e = some axes' ∧ ∀ i, (axes' i).Holds (replay (history i (h ++ [e]))) := by
  cases e with
  | handled raw now =>
    obtain ⟨msg, hmsg⟩ := Option.isSome_iff_exists.mp (accepted raw now rfl)
    obtain ⟨hraw, hprio, haxis⟩ := CommandMsg.decode_eq_some hmsg
    have hlt : raw.axisId.toNat < arbMaxAxisNum := haxis ▸ msg.axisId.isLt
    have hindex : (⟨raw.axisId.toNat, hlt⟩ : Fin arbMaxAxisNum) = msg.axisId := Fin.ext haxis
    have hbyte : msg.priority < 256 := Nat.lt_of_le_of_lt hprio (by decide)
    obtain ⟨qs, hprocess, hqs⟩ := (holds msg.axisId).process hbyte
    refine ⟨Function.update axes msg.axisId qs, ?_, fun i => ?_⟩
    · rw [stepQueues, dif_pos hlt, hindex, hraw, hprocess]
      rfl
    · rw [history_concat, AxisEvent.on, hmsg, Option.bind_some]
      by_cases hi : msg.axisId = i
      · subst hi
        obtain ⟨hallow, hblock, -⟩ := handle_kept now (replay (history msg.axisId h)) msg
        rw [if_pos rfl, Option.toList_some, replay_concat, Function.update_self]
        exact hqs.congr hallow hblock
      · rw [if_neg hi, Option.toList_none, List.append_nil, Function.update_of_ne (Ne.symm hi)]
        exact holds i
  | setEnable j enable =>
    refine ⟨axes, rfl, fun i => ?_⟩
    rw [history_concat, AxisEvent.on]
    split
    · rw [Option.toList_some, replay_concat]
      exact (holds i).congr rfl rfl
    · rw [Option.toList_none, List.append_nil]
      exact holds i
  | init j =>
    refine ⟨Function.update axes j .zero, rfl, fun i => ?_⟩
    rw [history_concat, AxisEvent.on]
    by_cases hj : j = i
    · subst hj
      rw [if_pos rfl, Option.toList_some, replay_concat, Function.update_self]
      exact .init
    · rw [if_neg hj, Option.toList_none, List.append_nil, Function.update_of_ne (Ne.symm hj)]
      exact holds i

/-- The queues in memory refine the lists of the kernel; no access is out of bounds. -/
theorem replayQueues_holds {h : List AxisEvent} (accepted : Accepted h) :
    ∃ axes, replayQueues h = some axes ∧ ∀ i, (axes i).Holds (replay (history i h)) := by
  induction h using List.reverseRecOn with
  | nil => exact ⟨_, rfl, fun _ => .init⟩
  | append_singleton h e ih =>
    obtain ⟨axes, hrun, hholds⟩ := ih fun msg now hmem => accepted msg now (List.mem_append_left _ hmem)
    obtain ⟨axes', hstep, hholds'⟩ := stepQueues_holds hholds (e := e) fun msg now he => accepted msg now (by simp [he])
    refine ⟨axes', ?_, hholds'⟩
    unfold replayQueues at hrun ⊢
    rw [List.foldlM_append, hrun]
    simpa using hstep

/-! ### The representation invariant -/

/-- What holds of a queue in memory that keeps the commands `cmd`. -/
structure CommandQueue.Sound (queue : CommandQueue) (cmd : CmdType) : Prop where
  count_le : queue.count.toNat ≤ maxCmdQueueSize
  device : ∀ i : Fin maxCmdQueueSize, i < queue.count.toNat →
    1 ≤ (queue.records i).deviceId.toNat ∧ (queue.records i).deviceId.toNat ≤ 18
  distinct : ∀ i j : Fin maxCmdQueueSize, i < queue.count.toNat → j < queue.count.toNat →
    (queue.records i).deviceId = (queue.records j).deviceId → i = j
  cmdType : ∀ i : Fin maxCmdQueueSize, i < queue.count.toNat → (queue.records i).cmdType = cmd.code
  tail : ∀ i : Fin maxCmdQueueSize, queue.count.toNat ≤ i → queue.records i = .zero

/-- The records stand by priority and, among equal ones, in the order in which they were accepted. -/
def CommandQueue.Sorted (queue : CommandQueue) (d : Dir) (h : List Event) : Prop :=
  ∀ i j : Fin maxCmdQueueSize, i < j → j < queue.count.toNat →
    (queue.records i).priority < (queue.records j).priority ∨
      (queue.records i).priority = (queue.records j).priority ∧
        ∃ dev dev' m n, dev.code = (queue.records i).deviceId ∧ dev'.code = (queue.records j).deviceId ∧
          lastAccepted d dev h = some m ∧ lastAccepted d dev' h = some n ∧ m < n

section
variable {queue : CommandQueue} {l : List Record}

theorem CommandQueue.Holds.record (h : queue.Holds l) (i : Fin maxCmdQueueSize) (hi : i < queue.count.toNat) :
    ∃ hlt : i < l.length, queue.records i = (l.get ⟨i, hlt⟩).encode := by
  have hlt : i < l.length := h.count_toNat ▸ hi
  refine ⟨hlt, ?_⟩
  rw [h.records.cell]
  simp [hlt]

theorem CommandQueue.Holds.sound (h : queue.Holds l) (distinct : (devices l).Nodup) {cmd : CmdType}
    (typed : ∀ r ∈ l, r.cmdType = cmd) : queue.Sound cmd where
  count_le := h.count_toNat ▸ h.length_le
  device i hi := by
    obtain ⟨hlt, hrec⟩ := h.record i hi
    have hcode : ∀ dev : DeviceId, 1 ≤ dev.code.toNat ∧ dev.code.toNat ≤ 18 := by
      intro dev
      cases dev <;> decide
    rw [hrec]
    exact hcode _
  distinct i j hi hj heq := by
    obtain ⟨hli, hri⟩ := h.record i hi
    obtain ⟨hlj, hrj⟩ := h.record j hj
    rw [hri, hrj] at heq
    have hdi : i.val < (devices l).length := by simpa [devices] using hli
    have hdj : j.val < (devices l).length := by simpa [devices] using hlj
    have hdev : (devices l)[i.val] = (devices l)[j.val] := by simpa [devices] using DeviceId.code_injective heq
    exact Fin.ext (distinct.getElem_inj_iff.mp hdev)
  cmdType i hi := by
    obtain ⟨hlt, hrec⟩ := h.record i hi
    rw [hrec, ← typed _ (List.get_mem l ⟨i, hlt⟩)]
    rfl
  tail i hi := by
    rw [h.records.cell, List.getD_eq_getElem?_getD, List.getElem?_eq_none]
    · rfl
    · rw [List.length_map, ← h.count_toNat]
      exact hi

theorem CommandQueue.Holds.sorted (h : queue.Holds l) {d : Dir} {past : List Event} (ord : l.Pairwise (Before d past)) :
    queue.Sorted d past := by
  intro i j hij hj
  obtain ⟨hli, hri⟩ := h.record i (Nat.lt_trans hij hj)
  obtain ⟨hlj, hrj⟩ := h.record j hj
  have hbefore := List.pairwise_iff_getElem.mp ord i j hli hlj hij
  have hi := h.bytes _ (List.get_mem l ⟨i, hli⟩)
  have hj := h.bytes _ (List.get_mem l ⟨j, hlj⟩)
  rw [hri, hrj]
  rcases hbefore with hlt | ⟨heq, m, n, hm, hn, hmn⟩
  · left
    simp only [Record.encode, BitVec.lt_def, BitVec.toNat_ofNat]
    rwa [Nat.mod_eq_of_lt hi, Nat.mod_eq_of_lt hj]
  · exact .inr ⟨congrArg (BitVec.ofNat 8) heq, _, _, m, n, rfl, rfl, hm, hn, hmn⟩

end

/-- The queues of every axis after any accepted messages, enables and resets: no access to them was out of
    bounds, each holds at most ten records of different devices, all of its own command, the rest of its array is
    zero, and the requests stand by priority and acceptance. -/
theorem queues_sound {h : List AxisEvent} (accepted : Accepted h) :
    ∃ axes, replayQueues h = some axes ∧ ∀ i d, ((axes i).allow d).Sound d.run ∧ ((axes i).block d).Sound d.block ∧
      ((axes i).allow d).Sorted d (history i h) := by
  obtain ⟨axes, hrun, hholds⟩ := replayQueues_holds accepted
  refine ⟨axes, hrun, fun i d => ?_⟩
  have hsound := sound_replay d (history i h)
  have hord := (ordered_replay d (history i h)).sorted
  have hqueues : ((axes i).allow d).Holds ((replay (history i h)).allow d) ∧
      ((axes i).block d).Holds ((replay (history i h)).block d) := by
    cases d
    · exact ⟨(hholds i).allowFwd, (hholds i).blockFwd⟩
    · exact ⟨(hholds i).allowRev, (hholds i).blockRev⟩
  obtain ⟨hallow, hblock⟩ := hqueues
  exact ⟨hallow.sound hsound.allow_distinct hsound.allow_typed, hblock.sound hsound.block_distinct hsound.block_typed,
    hallow.sorted hord⟩

/-- Two requests of the same number on the axis 1, the first of which is sent again. -/
theorem queues_sound_resent :
    let send (dev : BitVec 8) : AxisEvent := .handled ⟨1, dev, 5, 1, 100, 0⟩ 0
    ∃ axes, replayQueues [send 1, send 5, send 1] = some axes ∧ ((axes 1).allow .fwd).Sound .runFwd ∧
      ((axes 1).allow .fwd).count = 2 ∧ (((axes 1).allow .fwd).records ⟨0, by decide⟩).deviceId = 5 := by
  intro send
  have haccepted : Accepted [send 1, send 5, send 1] := by
    intro msg now hmem
    simp only [List.mem_cons, List.not_mem_nil, or_false] at hmem
    rcases hmem with heq | heq | heq <;> cases heq <;> rfl
  obtain ⟨axes, hrun, hsound⟩ := queues_sound haccepted
  refine ⟨axes, hrun, (hsound 1 .fwd).1, ?_⟩
  have heval : (replayQueues [send 1, send 5, send 1]).map (fun axes => (((axes 1).allow .fwd).count,
      (((axes 1).allow .fwd).records ⟨0, by decide⟩).deviceId)) = some (2, 5) := by decide +kernel
  rw [hrun] at heval
  exact ⟨congrArg Prod.fst (Option.some.inj heval), congrArg Prod.snd (Option.some.inj heval)⟩

end RodActuator.Arb
