import Mathlib.Data.BitVec

/-! The system events (`Dev/dev_mgr/dev_event_def.h`). They are bits of an event set: a bit that is sent twice
    before it is received is received once, and the order of the bits is lost. -/

namespace RodActuator.Sys

/-- The system events, in the order in which `Sys_State_Dispatch` handles them. -/
inductive SysEvt where
  | overCurrent | rodLimitFault | voltOver | voltUnder | fault | emergency | recovery | voltNormal
  | voltRecoverWait | polarityChg | initDone | cmdWorkEnable | stWorkError
  deriving DecidableEq, Repr

namespace SysEvt

def bit : SysEvt → Nat
  | .initDone => 0
  | .fault => 1
  | .emergency => 2
  | .recovery => 3
  | .voltNormal => 4
  | .voltOver => 5
  | .voltUnder => 6
  | .cmdWorkEnable => 7
  | .overCurrent => 8
  | .rodLimitFault => 9
  | .voltRecoverWait => 10
  | .polarityChg => 11
  | .stWorkError => 13

def all : List SysEvt :=
  [.overCurrent, .rodLimitFault, .voltOver, .voltUnder, .fault, .emergency, .recovery, .voltNormal,
    .voltRecoverWait, .polarityChg, .initDone, .cmdWorkEnable, .stWorkError]

theorem mem_all (e : SysEvt) : e ∈ all := by cases e <;> decide

def mask (e : SysEvt) : BitVec 32 := BitVec.twoPow 32 e.bit

def isIn (e : SysEvt) (bits : BitVec 32) : Bool := bits.getLsbD e.bit

theorem isIn_or (e : SysEvt) (a b : BitVec 32) : e.isIn (a ||| b) = (e.isIn a || e.isIn b) := BitVec.getLsbD_or

@[simp] theorem isIn_zero (e : SysEvt) : e.isIn 0#32 = false := BitVec.getLsbD_zero

theorem isIn_mask_iff (e f : SysEvt) : e.isIn f.mask = true ↔ e = f := by
  have hall : ∀ e ∈ all, ∀ f ∈ all, e.isIn f.mask = true ↔ e = f := by decide +kernel
  exact hall e (mem_all e) f (mem_all f)

@[simp] theorem isIn_mask (e : SysEvt) : e.isIn e.mask = true := (isIn_mask_iff e e).mpr rfl

end SysEvt

/-- The events that the thread of the state machine waits for. -/
def sysSmWaitEvents : BitVec 32 := SysEvt.all.foldl (fun bits e => bits ||| e.mask) 0

theorem SysEvt.isIn_wait (e : SysEvt) : e.isIn sysSmWaitEvents = true := by cases e <;> decide

end RodActuator.Sys
