import RodActuator.Arb.Kernel

/-! The arbiter with its message queue, its thread and the motor pins (`Dev/dev_act/dev_act.c` and
    `Dev/dev_gpio_motor/dev_gpio_motor.c`). Every sender puts messages into one queue of both axes; the thread
    takes one message at a time and handles it under the mutex of its axis, and what it decides is written to
    the one pair of pins. -/

namespace RodActuator.Arb

structure MotorGpio where
  dirInvert : Bool
  fwdPin : Bool
  revPin : Bool
  prevOutDir : Option Dir
  deriving DecidableEq, Repr

namespace MotorGpio

/-- After `Dev_MotorGpio_Init`: both pins are high, which brakes. -/
def init (dirInvert : Bool) : MotorGpio := ⟨dirInvert, true, true, none⟩

def writePair (fwdEn revEn : Bool) (g : MotorGpio) : MotorGpio :=
  let en := if g.dirInvert then (revEn, fwdEn) else (fwdEn, revEn)
  match en with
  | (true, false) => { g with fwdPin := true, revPin := false, prevOutDir := some .fwd }
  | (false, true) => { g with fwdPin := false, revPin := true, prevOutDir := some .rev }
  | _ => { g with fwdPin := true, revPin := true, prevOutDir := none }

/-- The output operations; they take no notice of the axis and the duty. -/
def op (g : MotorGpio) : Output → MotorGpio
  | .fwd _ => g.writePair true false
  | .rev _ => g.writePair false true
  | .stop => g.writePair true true

def Braked (g : MotorGpio) : Prop := g.fwdPin = true ∧ g.revPin = true

theorem braked_stop (g : MotorGpio) : Braked (g.op .stop) := by
  unfold op writePair
  cases g.dirInvert <;> exact ⟨rfl, rfl⟩

end MotorGpio

/-- The axes, the queue, the message that is being processed, and the output operations, the last one first. -/
structure Arbiter where
  axis : Fin arbMaxAxisNum → ArbData
  mq : List Msg
  inflight : Option Msg
  motor : MotorGpio
  outputs : List (Fin arbMaxAxisNum × Output)

namespace Arbiter

/-- After the first `Arb_Module_Init` and `Dev_MotorGpio_Init`. -/
def boot (dirInvert : Bool) : Arbiter := ⟨fun _ => ArbData.init, [], none, MotorGpio.init dirInvert, []⟩

/-- `Arb_SendCommand` at the time `now`; a message that finds the queue full is lost. -/
def send (now : BitVec 32) (msg : Msg) (urgent : Bool) (a : Arbiter) : Arbiter :=
  match enqueue urgent { msg with timestamp := now } a.mq with
  | some mq => { a with mq := mq }
  | none => a

def setEnable (axisId : Fin arbMaxAxisNum) (enable : Bool) (a : Arbiter) : Arbiter :=
  { a with axis := Function.update a.axis axisId { a.axis axisId with enable := enable } }

/-- `Arb_Module_Init` on one axis, when the queue is there. -/
def reset (axisId : Fin arbMaxAxisNum) (a : Arbiter) : Arbiter :=
  { a with axis := Function.update a.axis axisId ArbData.init }

def recv (a : Arbiter) : Option Arbiter :=
  match a.inflight, a.mq with
  | none, msg :: mq => some { a with inflight := some msg, mq := mq }
  | _, _ => none

def process (now : BitVec 32) (a : Arbiter) : Option Arbiter :=
  a.inflight.map fun msg =>
    let r := handle now (a.axis msg.axisId) msg
    { a with
      axis := Function.update a.axis msg.axisId r.1
      inflight := none
      motor := a.motor.op r.2
      outputs := (msg.axisId, r.2) :: a.outputs }

def lastOutput (a : Arbiter) : Option Output := a.outputs.head?.map Prod.snd

/-- The messages on their way, in the order in which they will be handled. -/
def inbox (a : Arbiter) : List Msg := a.inflight.toList ++ a.mq

/-- A send leaves a message to handle: its own, or those that fill the queue. -/
theorem inbox_send (now : BitVec 32) (msg : Msg) (urgent : Bool) (a : Arbiter) :
    (a.send now msg urgent).inbox ≠ [] := by
  unfold send enqueue
  by_cases hfull : a.mq.length ≥ arbMqDepth
  · have hmq : a.mq ≠ [] := by
      rintro hmq
      simp [hmq, arbMqDepth] at hfull
    simp [hfull, inbox, hmq]
  · cases urgent <;> simp [hfull, inbox]

theorem inbox_send_urgent (now : BitVec 32) (msg : Msg) {a : Arbiter} (room : a.mq.length < arbMqDepth) :
    (a.send now msg true).inbox = a.inflight.toList ++ { msg with timestamp := now } :: a.mq := by
  simp [send, enqueue, Nat.not_le.mpr room, inbox]

/-- A send puts its message somewhere among those on their way, or loses it. -/
theorem inbox_send_cases (now : BitVec 32) (msg : Msg) (urgent : Bool) (a : Arbiter) :
    (a.send now msg urgent).inbox = a.inbox ∨
      ∃ before after, a.inbox = before ++ after ∧
        (a.send now msg urgent).inbox = before ++ { msg with timestamp := now } :: after := by
  by_cases hfull : a.mq.length ≥ arbMqDepth
  · exact .inl (by simp [send, enqueue, hfull])
  · right
    cases urgent with
    | true => exact ⟨a.inflight.toList, a.mq, rfl, inbox_send_urgent now msg (Nat.not_le.mp hfull)⟩
    | false => exact ⟨a.inbox, [], by simp, by simp [send, enqueue, hfull, inbox]⟩

@[simp] theorem send_axis (now : BitVec 32) (msg : Msg) (urgent : Bool) (a : Arbiter) :
    (a.send now msg urgent).axis = a.axis := by
  unfold send
  split <;> rfl

@[simp] theorem send_outputs (now : BitVec 32) (msg : Msg) (urgent : Bool) (a : Arbiter) :
    (a.send now msg urgent).outputs = a.outputs := by
  unfold send
  split <;> rfl

@[simp] theorem send_motor (now : BitVec 32) (msg : Msg) (urgent : Bool) (a : Arbiter) :
    (a.send now msg urgent).motor = a.motor := by
  unfold send
  split <;> rfl

theorem recv_eq_some {a a' : Arbiter} (h : a.recv = some a') :
    ∃ msg mq, a.inflight = none ∧ a.mq = msg :: mq ∧ a' = { a with inflight := some msg, mq := mq } := by
  unfold recv at h
  split at h
  · rename_i msg mq hinflight hmq
    cases h
    exact ⟨msg, mq, hinflight, hmq, rfl⟩
  · cases h

theorem recv_kept {a a' : Arbiter} (h : a.recv = some a') :
    a'.axis = a.axis ∧ a'.outputs = a.outputs ∧ a'.motor = a.motor := by
  obtain ⟨msg, mq, -, -, rfl⟩ := recv_eq_some h
  exact ⟨rfl, rfl, rfl⟩

theorem inbox_recv {a a' : Arbiter} (h : a.recv = some a') : a'.inbox = a.inbox := by
  obtain ⟨msg, mq, hinflight, hmq, rfl⟩ := recv_eq_some h
  simp [inbox, hinflight, hmq]

theorem process_eq_some {now : BitVec 32} {a a' : Arbiter} (h : a.process now = some a') :
    ∃ msg, a.inflight = some msg ∧ a' = { a with
      axis := Function.update a.axis msg.axisId (handle now (a.axis msg.axisId) msg).1
      inflight := none
      motor := a.motor.op (handle now (a.axis msg.axisId) msg).2
      outputs := (msg.axisId, (handle now (a.axis msg.axisId) msg).2) :: a.outputs } := by
  obtain ⟨msg, hinflight, heq⟩ := Option.map_eq_some_iff.mp h
  exact ⟨msg, hinflight, heq.symm⟩

end Arbiter

end RodActuator.Arb
