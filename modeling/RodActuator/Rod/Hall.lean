import RodActuator.Lib.SampleWord
import RodActuator.Sys.Event

/-! The limit sensors of the rod (`Dev/dev_hall_rod/dev_hall_rod.c`). Three windows take the pin of the upper limit, that
    of the lower limit, and whether both are low, which no place of the rod explains. -/

namespace RodActuator.Rod
open Sys

def rodHallWinSize : Nat := 3

structure RodHallWin where
  win : BitVec 16
  cnt : Nat
  deriving DecidableEq, Repr

namespace RodHallWin

def push (bit : Bool) (w : RodHallWin) : RodHallWin where
  win := SampleWord.push bit w.win
  cnt := if w.cnt < rodHallWinSize then w.cnt + 1 else w.cnt

def allOne (w : RodHallWin) : Bool := rodHallWinSize ≤ w.cnt && w.win == BitVec.ofNat 16 (2 ^ rodHallWinSize - 1)

def allZero (w : RodHallWin) : Bool := rodHallWinSize ≤ w.cnt && w.win == 0

/-- A full window sets or clears a stable state. -/
def settled (w : RodHallWin) (state : Bool) : Bool := if w.allOne then true else if w.allZero then false else state

end RodHallWin

structure RodHall where
  maxWin : RodHallWin
  minWin : RodHallWin
  ftWin : RodHallWin
  atMax : Bool
  atMin : Bool
  fault : Bool
  deriving DecidableEq, Repr

namespace RodHall

/-- After `RodHall_Init`. -/
def init : RodHall := ⟨⟨0, 0⟩, ⟨0, 0⟩, ⟨0, 0⟩, false, false, false⟩

/-- `RodHall_Scan` with the pins, and the events it sends. -/
def scan (mx mn : Bool) (r : RodHall) : RodHall × BitVec 32 :=
  let maxWin := r.maxWin.push mx
  let minWin := r.minWin.push mn
  let ftWin := r.ftWin.push (!(mx || mn))
  let faultNow := ftWin.allOne
  ({ maxWin := maxWin
     minWin := minWin
     ftWin := ftWin
     atMax := maxWin.settled r.atMax
     atMin := minWin.settled r.atMin
     fault := faultNow },
    if faultNow ∧ ¬r.fault then SysEvt.mask .rodLimitFault else 0)

def isAtMax (r : RodHall) : Bool := r.atMax
def isAtMin (r : RodHall) : Bool := r.atMin
def isFault (r : RodHall) : Bool := r.fault

end RodHall

end RodActuator.Rod
