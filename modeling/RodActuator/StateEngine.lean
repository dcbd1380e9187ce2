import Mathlib.Data.List.Basic

/-! The table-driven state machine (`Utils/state_engine.c`). An event looks its row up in the jump table;
    where the row leads to another state, the machine goes there and the entry function of that state runs.
    No function table of the program has an exit function. -/

namespace RodActuator.StateEngine

structure Jump (S E : Type) where
  curState : S
  event : E
  targetState : S

/-- The states of a `StateMachine_t`; its tables are fixed. -/
structure Machine (S : Type) where
  curState : S
  previousState : S
  deriving DecidableEq, Repr

variable {S E : Type} [DecidableEq S] [DecidableEq E]

/-- The first row of the state and the event decides the target. -/
def target (table : List (Jump S E)) (s : S) (e : E) : S :=
  match table.find? fun row => row.curState = s ∧ row.event = e with
  | some row => row.targetState
  | none => s

/-- The machine after an event, and the state whose entry function runs, if there was a change. -/
def sendEvent (table : List (Jump S E)) (e : E) (m : Machine S) : Machine S × Option S :=
  let t := target table m.curState e
  if t = m.curState then (m, none) else (⟨t, m.curState⟩, some t)

theorem sendEvent_curState (table : List (Jump S E)) (e : E) (m : Machine S) :
    (sendEvent table e m).1.curState = target table m.curState e := by
  unfold sendEvent
  dsimp only
  split
  · exact Eq.symm ‹_›
  · rfl

end RodActuator.StateEngine
