import RodActuator.Arb.Arbiter
import RodActuator.Arb.Queue
import RodActuator.Arb.Reference
import RodActuator.Rtos.Guarded
import RodActuator.Rtos.MessageQueue

/-! The arbiter over the message queue and the mutexes of the kernel. Its messages cross the queue as the bytes of
    `ArbCommandMsg_t`, in cells of a pool; what it does with them is what it does with the list of messages. Its axes
    are changed under their mutexes alone, by one call at a time. -/

namespace RodActuator.Arb
open Rtos Transition

/-! ### The bytes of a message -/

/-- `ArbCommandMsg_t` in memory: five bytes, three of padding that hold anything, and the time with its lowest byte first. -/
def CommandMsg.bytes (pad : Byte × Byte × Byte) (msg : CommandMsg) : List Byte :=
  [msg.axisId, msg.deviceId, msg.priority, msg.cmdType, msg.dutyPct, pad.1, pad.2.1, pad.2.2,
    msg.timestamp.extractLsb' 0 8, msg.timestamp.extractLsb' 8 8, msg.timestamp.extractLsb' 16 8,
    msg.timestamp.extractLsb' 24 8]

def CommandMsg.ofBytes : List Byte → Option CommandMsg
  | [axisId, deviceId, priority, cmdType, dutyPct, _, _, _, t0, t1, t2, t3] =>
    some ⟨axisId, deviceId, priority, cmdType, dutyPct, t3 ++ t2 ++ t1 ++ t0⟩
  | _ => none

/-- `sizeof(ArbCommandMsg_t)`. -/
def commandMsgSize : Nat := 12

theorem CommandMsg.ofBytes_bytes (pad : Byte × Byte × Byte) (msg : CommandMsg) : ofBytes (msg.bytes pad) = some msg := by
  have htime : (msg.timestamp.extractLsb' 24 8 ++ msg.timestamp.extractLsb' 16 8 ++ msg.timestamp.extractLsb' 8 8 ++
      msg.timestamp.extractLsb' 0 8 : BitVec 32) = msg.timestamp := by
    ext i hi
    simp only [BitVec.getElem_append, BitVec.getElem_extractLsb']
    split_ifs <;> · rw [BitVec.getLsbD_eq_getElem (by omega)]; congr 1; omega
  simp only [bytes, ofBytes, htime]

/-! ### The arbiter -/

/-- The arbiter with the queue of the kernel. -/
structure KernelArbiter where
  axis : Fin arbMaxAxisNum → ArbData
  mq : MessageQueue arbMqDepth
  inflight : Option Msg
  motor : MotorGpio
  outputs : List (Fin arbMaxAxisNum × Output)

/-- A call of `Arb_SendCommand` with any bytes, the thread that receives a message or handles it, `Arb_SetEnable`, and
    `Arb_Module_Init` on an axis. -/
inductive Act where
  | send (args : CommandMsg) (pad : Byte × Byte × Byte) (urgent : Bool) (now : BitVec 32)
  | recv
  | process (now : BitVec 32)
  | setEnable (axisId : Fin arbMaxAxisNum) (enable : Bool)
  | reset (axisId : Fin arbMaxAxisNum)

namespace KernelArbiter

def boot (dirInvert : Bool) (next : Fin arbMqDepth → Option (Fin arbMqDepth)) (body : Fin arbMqDepth → List Byte) :
    KernelArbiter :=
  ⟨fun _ => ArbData.init, .create commandMsgSize next body, none, MotorGpio.init dirInvert, []⟩

def step (a : KernelArbiter) : Act → Option KernelArbiter
  | .send args pad urgent now =>
    some (match args.decode with
      | none => a
      | some _ =>
        match a.mq.send (CommandMsg.bytes pad { args with timestamp := now }) urgent with
        | some mq => { a with mq := mq }
        | none => a)
  | .recv =>
    match a.inflight with
    | some _ => none
    | none => (a.mq.recv commandMsgSize).map fun r =>
        { a with inflight := (CommandMsg.ofBytes r.1).bind CommandMsg.decode, mq := r.2 }
  | .process now =>
    a.inflight.map fun msg =>
      let r := handle now (a.axis msg.axisId) msg
      { a with
        axis := Function.update a.axis msg.axisId r.1
        inflight := none
        motor := a.motor.op r.2
        outputs := (msg.axisId, r.2) :: a.outputs }
  | .setEnable axisId enable =>
    some { a with axis := Function.update a.axis axisId { a.axis axisId with enable := enable } }
  | .reset axisId => some { a with axis := Function.update a.axis axisId ArbData.init }

end KernelArbiter

/-- The same on the list of messages. -/
def Arbiter.act (a : Arbiter) : Act → Option Arbiter
  | .send args _ urgent now =>
    some (match args.decode with
      | none => a
      | some msg => a.send now msg urgent)
  | .recv => a.recv
  | .process now => a.process now
  | .setEnable axisId enable => some (a.setEnable axisId enable)
  | .reset axisId => some (a.reset axisId)

/-- A cell holds the bytes of a message that `Arb_SendCommand` accepted. -/
def Carries (bytes : List Byte) (msg : Msg) : Prop :=
  ∃ pad args, bytes = CommandMsg.bytes pad args ∧ args.decode = some msg

/-- The queue of the kernel holds the messages of the list, and all else is the same. -/
structure Tracks (k : KernelArbiter) (a : Arbiter) : Prop where
  axis : k.axis = a.axis
  inflight : k.inflight = a.inflight
  motor : k.motor = a.motor
  outputs : k.outputs = a.outputs
  size : k.mq.msgSize = commandMsgSize
  queue : ∃ msgs free queue, k.mq.Holds msgs free queue ∧ List.Forall₂ Carries msgs a.mq

theorem CommandMsg.decode_at {args : CommandMsg} {msg : Msg} (h : args.decode = some msg) (now : BitVec 32) :
    ({ args with timestamp := now } : CommandMsg).decode = some { msg with timestamp := now } := by
  unfold decode validate at h ⊢
  simp only
  split at h
  · rename_i dev cmd hdev hcmd
    split at h
    · rename_i hvalid
      cases h
      simp only [dif_pos hvalid]
    · cases h
  · cases h

theorem Tracks.boot (dirInvert : Bool) (next : Fin arbMqDepth → Option (Fin arbMqDepth))
    {body : Fin arbMqDepth → List Byte} (hbody : ∀ c, (body c).length = commandMsgSize) :
    Tracks (.boot dirInvert next body) (.boot dirInvert) :=
  ⟨rfl, rfl, rfl, rfl, (MessageQueue.create_kept commandMsgSize next body).2, [], _, _,
    MessageQueue.holds_create commandMsgSize next hbody, .nil⟩

variable {k : KernelArbiter} {a : Arbiter}

theorem Tracks.send (h : Tracks k a) {args : CommandMsg} {msg : Msg} (hargs : args.decode = some msg)
    (pad : Byte × Byte × Byte) (urgent : Bool) (now : BitVec 32) :
    Tracks (match k.mq.send (CommandMsg.bytes pad { args with timestamp := now }) urgent with
      | some mq => { k with mq := mq }
      | none => k) (a.send now msg urgent) := by
  obtain ⟨msgs, free, queue, hholds, hcarries⟩ := h.queue
  have hlen := hcarries.length_eq
  have hcarry : Carries (CommandMsg.bytes pad { args with timestamp := now }) { msg with timestamp := now } :=
    ⟨pad, _, rfl, CommandMsg.decode_at hargs now⟩
  unfold Arbiter.send enqueue
  by_cases hfull : a.mq.length ≥ arbMqDepth
  · rw [hholds.send_full (by omega), if_pos hfull]
    exact h
  · have hfits : (CommandMsg.bytes pad { args with timestamp := now }).length = k.mq.msgSize := h.size.symm
    obtain ⟨mq', free', queue', hsend, hsize, hholds'⟩ := hholds.send_room (by omega) hfits urgent
    rw [hsend, if_neg hfull]
    cases urgent with
    | true =>
      exact ⟨h.axis, h.inflight, h.motor, h.outputs, hsize.trans h.size, _, free', queue', hholds', .cons hcarry hcarries⟩
    | false =>
      exact ⟨h.axis, h.inflight, h.motor, h.outputs, hsize.trans h.size, _, free', queue', hholds',
        List.rel_append hcarries (.cons hcarry .nil)⟩

theorem Tracks.recv (h : Tracks k a) {k' : KernelArbiter} (hstep : k.step .recv = some k') :
    ∃ a', a.recv = some a' ∧ Tracks k' a' := by
  obtain ⟨msgs, free, queue, hholds, hcarries⟩ := h.queue
  simp only [KernelArbiter.step] at hstep
  split at hstep
  · cases hstep
  · rename_i hidle
    have hidle' : a.inflight = none := h.inflight ▸ hidle
    unfold Arbiter.recv
    generalize hmq : a.mq = messages at hcarries
    cases hcarries with
    | nil =>
      rw [hholds.recv_nil] at hstep
      cases hstep
    | cons hcarry hcarries =>
      obtain ⟨mq', free', queue', hrecv, hsize, hholds'⟩ := hholds.recv_cons
      obtain ⟨pad, args, rfl, hargs⟩ := hcarry
      rw [h.size] at hrecv
      rw [hrecv, Option.map_some, CommandMsg.ofBytes_bytes, Option.bind_some, hargs] at hstep
      cases hstep
      rw [hidle']
      exact ⟨_, rfl, h.axis, rfl, h.motor, h.outputs, hsize.trans h.size, _, free', queue', hholds', hcarries⟩

theorem Tracks.step (h : Tracks k a) {act : Act} {k' : KernelArbiter} (hstep : k.step act = some k') :
    ∃ a', a.act act = some a' ∧ Tracks k' a' := by
  cases act with
  | send args pad urgent now =>
    cases hstep
    refine ⟨_, rfl, ?_⟩
    cases hargs : args.decode with
    | none => exact h
    | some msg => exact h.send hargs pad urgent now
  | recv => exact h.recv hstep
  | process now =>
    obtain ⟨msg, hmsg, rfl⟩ := Option.map_eq_some_iff.mp hstep
    rw [h.inflight] at hmsg
    simp only [Arbiter.act, Arbiter.process, hmsg, Option.map_some, h.axis, h.motor, h.outputs]
    refine ⟨_, rfl, ?_⟩
    exact ⟨rfl, rfl, rfl, rfl, h.size, h.queue⟩
  | setEnable axisId enable =>
    cases hstep
    refine ⟨_, rfl, ?_⟩
    rw [h.axis]
    exact ⟨rfl, h.inflight, h.motor, h.outputs, h.size, h.queue⟩
  | reset axisId =>
    cases hstep
    refine ⟨_, rfl, ?_⟩
    rw [h.axis]
    exact ⟨rfl, h.inflight, h.motor, h.outputs, h.size, h.queue⟩

/-- Calls that do not interleave: with the queue of the kernel the arbiter does in every run what it does with the list
    of at most 16 messages. -/
theorem kernel_refines (dirInvert : Bool) (next : Fin arbMqDepth → Option (Fin arbMqDepth))
    {body : Fin arbMqDepth → List Byte} (hbody : ∀ c, (body c).length = commandMsgSize) {acts : List Act}
    {k : KernelArbiter} (run : exec KernelArbiter.step (.boot dirInvert next body) acts = some k) :
    ∃ a, exec Arbiter.act (.boot dirInvert) acts = some a ∧ Tracks k a :=
  exec_simulates (fun _ _ _ _ h => h.step) (Tracks.boot dirInvert next hbody) run

/-- An urgent stop overtakes a run request, and a message of no device is not sent. -/
def urgentRun : List Act :=
  [.send ⟨0, 5, 5, 1, 100, 0⟩ (0, 0, 0) false 7, .send ⟨0, 0, 5, 1, 100, 0⟩ (0, 0, 0) false 8,
    .send ⟨0, 8, 5, 10, 0, 0⟩ (1, 2, 3) true 9, .recv, .process 10]

theorem kernel_refines_urgent : ∃ k a, exec Arbiter.act (.boot false) urgentRun = some a ∧ Tracks k a ∧
    (a.mq.map fun msg => (msg.deviceId.code, msg.timestamp)) = [(5, 7)] ∧ a.outputs.length = 1 := by
  have hsome : (exec KernelArbiter.step (.boot false (fun _ => none) fun _ => List.replicate 12 0) urgentRun).isSome := by
    decide +kernel
  obtain ⟨k, hk⟩ := Option.isSome_iff_exists.mp hsome
  obtain ⟨a, ha, htracks⟩ := kernel_refines false _ (fun _ => rfl) hk
  obtain ⟨a', ha', hmq⟩ : ∃ a', exec Arbiter.act (.boot false) urgentRun = some a' ∧
      (a'.mq.map fun msg => (msg.deviceId.code, msg.timestamp)) = [(5, 7)] ∧ a'.outputs.length = 1 :=
    exists_of_any (by decide +kernel)
  rw [ha] at ha'
  cases ha'
  exact ⟨k, a, ha, htracks, hmq⟩

/-! ### The mutex of an axis -/

/-- What the functions of the arbiter do between the take and the release: `Arb_ThreadEntry` files the message and then
    decides, `Arb_SetEnable` sets the flag, and `Arb_Module_Init` clears the data and then enables the axis. -/
def Event.updates : Event → List (ArbData → ArbData)
  | .handled msg now => [fun arb => processMessage arb msg, fun arb => (decision now arb).1]
  | .setEnable enable => [fun arb => { arb with enable := enable }]
  | .init => [fun _ => { ArbData.init with enable := false }, fun arb => { arb with enable := true }]

theorem Event.updates_step (arb : ArbData) (e : Event) : e.updates.foldl (fun d f => f d) arb = arb.step e := by
  cases e <;> rfl

/-- Whenever no thread is between a take and a release, the data of the axis is that after the calls one by one, in the
    order in which they got the mutex; and a thread that is there leads it to that. -/
theorem axis_atomic {T : Type*} [DecidableEq T] (base : T → Nat) {ls : List (GuardedLabel T Event)}
    {s : Guarded T ArbData Event} (run : exec (Guarded.step Event.updates) (Guarded.create base ArbData.init) ls = some s) :
    ((∀ t, s.lock.depth t = 0) → s.data = replay s.order) ∧
      ∀ t, 0 < s.lock.depth t → ∃ e rest, s.call t = some (e, rest) ∧
        rest.foldl (fun d f => f d) s.data = replay s.order := by
  have h := Guarded.atomic_run Event.updates ArbData.init base run
  have hserial : Guarded.serial Event.updates ArbData.init s.order = replay s.order :=
    congrArg (fun g => s.order.foldl g ArbData.init) (funext fun arb => funext fun e => Event.updates_step arb e)
  rw [← hserial]
  refine ⟨fun hdepth => ?_, fun t ht => (h.holder ht).2.2⟩
  rcases h.lock with ⟨-, hdata⟩ | ⟨o, hheld, -⟩
  · exact hdata
  · have hpos := hheld.hold_pos
    rw [← hheld.depth_owner, hdepth o] at hpos
    cases hpos

/-- One thread disables the axis between the two updates of the other one's message: it has to wait. -/
theorem axis_atomic_waits : ∃ s : Guarded Bool ArbData Event,
    s.order = [.handled ⟨0, .can, 5, .runFwd, 100, 0⟩ 0, .setEnable false] ∧ s.data = replay s.order ∧
      s.data.enable = false := by
  obtain ⟨s, hs, hdepth, horder⟩ : ∃ s : Guarded Bool ArbData Event,
      exec (Guarded.step Event.updates) (Guarded.create (fun _ => 20) ArbData.init)
        [.enter false (.handled ⟨0, .can, 5, .runFwd, 100, 0⟩ 0), .work false, .enter true (.setEnable false),
          .work false, .leave false, .work true, .leave true] = some s ∧
        (∀ t, s.lock.depth t = 0) ∧
          s.order = [.handled ⟨0, .can, 5, .runFwd, 100, 0⟩ 0, .setEnable false] :=
    exists_of_any (by decide +kernel)
  have hdata := (axis_atomic (fun _ => 20) hs).1 hdepth
  exact ⟨s, horder, hdata, by rw [hdata, horder]; rfl⟩

end RodActuator.Arb
