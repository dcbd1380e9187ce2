import Mathlib.Data.BitVec
import Mathlib.Logic.Function.Basic
import RodActuator.Lib.Transition

/-! The threads of the kernel: the ready queues (`rt-thread/src/scheduler.c`), the calls of the threads
    (`rt-thread/src/thread.c`), their timers (`rt-thread/src/timer.c`) and the tick (`rt-thread/src/clock.c`). Every step
    is a section in which interrupts are disabled. -/

namespace RodActuator.Rtos
open Transition

/-- `RT_TICK_MAX`. -/
def rtTickMax : BitVec 32 := 0xFFFFFFFF#32

/-- `RT_THREAD_STAT_MASK`. -/
inductive ThreadStat where
  | init | ready | suspend | running
  deriving DecidableEq, Repr

/-- What a thread is to the scheduler. A lower number is a higher priority; `yield` is `RT_THREAD_STAT_YIELD`, and `timedOut`
    says that `error` is `-RT_ETIMEOUT`. -/
structure Task where
  stat : ThreadStat
  currentPriority : Fin 32
  yield : Bool
  initTick : BitVec 32
  remainingTick : BitVec 32
  timedOut : Bool
  deriving DecidableEq, Repr

/-- The `thread_timer` of a thread, which is one-shot and calls `_thread_timeout`. -/
structure Timer where
  activated : Bool
  timeoutTick : BitVec 32
  initTick : BitVec 32
  deriving DecidableEq, Repr

structure Thread extends Task where
  numberMask : BitVec 32
  timer : Timer
  deriving DecidableEq, Repr

/-- Where the handler of the tick is: it may have to call `rt_schedule`, then it calls `rt_timer_check`. -/
inductive TickPhase where
  | schedule | check
  deriving DecidableEq, Repr

/-- `rt_thread_priority_table`, `rt_thread_ready_priority_group`, `rt_current_thread`, `rt_scheduler_lock_nest`, `_timer_list`
    and `rt_tick`, with the threads and the handler of the tick. -/
structure Kernel (T : Type*) where
  tick : BitVec 32
  thread : T → Thread
  timerList : List T
  priorityTable : Fin 32 → List T
  readyPriorityGroup : BitVec 32
  currentThread : T
  lockNest : Nat
  phase : Option TickPhase

/-- What a thread or an interrupt does with interrupts disabled. Threads do nothing while the handler of the tick runs. -/
inductive KernelLabel (T : Type*) where
  | startup (t : T)
  | suspend
  | sleep (tick : BitVec 32)
  | woken
  | resume (t : T)
  | schedule
  | yield
  | changePriority (t : T) (priority : Fin 32)
  | enterCritical
  | exitCritical
  | tick
  | tickSchedule
  | timerCheck
  deriving DecidableEq, Repr

/-- `__rt_ffs`: the number of the lowest set bit, from one. -/
def rtFfs (group : BitVec 32) : Nat :=
  match (List.range 32).find? group.getLsbD with
  | some i => i + 1
  | none => 0

/-- `rt_tick_from_millisecond`. -/
def tickFromMillisecond (ms : Int) : BitVec 32 :=
  if ms < 0 then BitVec.ofInt 32 (-1)
  else BitVec.ofInt 32 (1000 * (ms / 1000)) + BitVec.ofInt 32 ((1000 * (ms % 1000) + 999) / 1000)

/-- A tick is a millisecond. -/
theorem tickFromMillisecond_of_nonneg {ms : Int} (h : 0 ≤ ms) : tickFromMillisecond ms = BitVec.ofInt 32 ms := by
  have hround : (1000 * (ms % 1000) + 999) / 1000 = ms % 1000 := by omega
  rw [tickFromMillisecond, if_neg (Int.not_lt.mpr h), hround, ← BitVec.ofInt_add, Int.mul_ediv_add_emod]

namespace Kernel
variable {T : Type*} [DecidableEq T]

def setThread (t : T) (f : Thread → Thread) (s : Kernel T) : Kernel T :=
  { s with thread := Function.update s.thread t (f (s.thread t)) }

def setTask (t : T) (f : Task → Task) (s : Kernel T) : Kernel T :=
  s.setThread t fun th => { th with toTask := f th.toTask }

/-! ### The timers -/

def timerRemove (t : T) (s : Kernel T) : Kernel T := { s with timerList := s.timerList.erase t }

/-- The search of `rt_timer_start`: behind the timers that end at the same tick, in front of the first that ends later. -/
def timerInsert (timeoutTick : T → BitVec 32) (timer : T) : List T → List T
  | [] => [timer]
  | t :: list =>
    if timeoutTick t - timeoutTick timer = 0 then t :: timerInsert timeoutTick timer list
    else if timeoutTick t - timeoutTick timer < rtTickMax / 2 then timer :: t :: list
    else t :: timerInsert timeoutTick timer list

def timerStart (t : T) (s : Kernel T) : Kernel T :=
  let s := (s.timerRemove t).setThread t fun th =>
    { th with timer := { th.timer with activated := false, timeoutTick := s.tick + th.timer.initTick } }
  let s := { s with timerList := timerInsert (fun u => (s.thread u).timer.timeoutTick) t s.timerList }
  s.setThread t fun th => { th with timer := { th.timer with activated := true } }

def timerStop (t : T) (s : Kernel T) : Kernel T :=
  if (s.thread t).timer.activated then
    (s.timerRemove t).setThread t fun th => { th with timer := { th.timer with activated := false } }
  else s

/-! ### The scheduler -/

def scheduleInsertThread (t : T) (s : Kernel T) : Kernel T :=
  if t = s.currentThread then s.setTask t fun k => { k with stat := .running }
  else
    let s := s.setTask t fun k => { k with stat := .ready }
    let p := (s.thread t).currentPriority
    { s with
      priorityTable := Function.update s.priorityTable p (s.priorityTable p ++ [t])
      readyPriorityGroup := s.readyPriorityGroup ||| (s.thread t).numberMask }

/-- `rt_list_remove` of the node with which a thread is in a ready queue. -/
def unlink (t : T) (s : Kernel T) : Kernel T := { s with priorityTable := fun p => (s.priorityTable p).erase t }

def scheduleRemoveThread (t : T) (s : Kernel T) : Kernel T :=
  let s := s.unlink t
  if s.priorityTable (s.thread t).currentPriority = [] then
    { s with readyPriorityGroup := s.readyPriorityGroup &&& ~~~(s.thread t).numberMask }
  else s

/-- The queue of which `_scheduler_get_highest_priority_thread` takes the head; an empty one has no thread there. -/
def highestReadyPriority (s : Kernel T) : Fin 32 := Fin.ofNat 32 (rtFfs s.readyPriorityGroup - 1)

/-- No ready thread has a higher priority than the current one, nor the same if its turn is over. -/
def GoesOn (s : Kernel T) : Prop :=
  (s.thread s.currentThread).currentPriority < s.highestReadyPriority ∨
    (s.thread s.currentThread).currentPriority = s.highestReadyPriority ∧ (s.thread s.currentThread).yield = false

instance (s : Kernel T) : Decidable s.GoesOn := inferInstanceAs (Decidable (_ ∨ _))

def schedule (s : Kernel T) : Kernel T :=
  if s.lockNest = 0 then
    if s.readyPriorityGroup ≠ 0 then
      match (s.priorityTable s.highestReadyPriority).head? with
      | none => s
      | some highest =>
        let current := s.currentThread
        let isRunning := (s.thread current).stat = .running
        let toThread := if isRunning ∧ s.GoesOn then current else highest
        let s := if isRunning then s.setTask current fun k => { k with yield := false } else s
        if toThread ≠ current then
          let s := { s with currentThread := toThread }
          let s := if isRunning then s.scheduleInsertThread current else s
          (s.scheduleRemoveThread toThread).setTask toThread fun k => { k with stat := .running }
        else (s.scheduleRemoveThread current).setTask current fun k => { k with stat := .running }
    else s
  else s

/-! ### The calls of the threads -/

/-- `rt_thread_suspend` of the calling thread. -/
def threadSuspend (s : Kernel T) : Kernel T :=
  let t := s.currentThread
  if (s.thread t).stat = .ready ∨ (s.thread t).stat = .running then
    ((s.scheduleRemoveThread t).setTask t fun k => { k with stat := .suspend }).timerStop t
  else s

def threadResume (t : T) (s : Kernel T) : Kernel T :=
  if (s.thread t).stat = .suspend then ((s.unlink t).timerStop t).scheduleInsertThread t else s

/-- `rt_thread_sleep` up to the call of `rt_schedule`; `RT_TIMER_CTRL_SET_TIME` asserts that the tick is less than half of
    all. The waits of the other calls with a timeout do the same. -/
def threadSleep (tick : BitVec 32) (s : Kernel T) : Option (Kernel T) :=
  let t := s.currentThread
  let s := (s.setTask t fun k => { k with timedOut := false }).threadSuspend
  if tick < rtTickMax / 2 then
    some ((s.setThread t fun th => { th with timer := { th.timer with initTick := tick } }).timerStart t)
  else none

/-- `rt_thread_mdelay`. -/
def threadMdelay (ms : Int) (s : Kernel T) : Option (Kernel T) := s.threadSleep (tickFromMillisecond ms)

/-- `rt_thread_sleep` behind the call of `rt_schedule`. -/
def threadWoken (s : Kernel T) : Kernel T := s.setTask s.currentThread fun k => { k with timedOut := false }

def threadYield (s : Kernel T) : Kernel T :=
  (s.setTask s.currentThread fun k => { k with remainingTick := k.initTick, yield := true }).schedule

/-- `rt_thread_startup` up to the call of `rt_schedule`. -/
def threadStartup (t : T) (s : Kernel T) : Option (Kernel T) :=
  if (s.thread t).stat = .init then
    -- The whole `stat` is written; a thread that was not started has no yield in it.
    some ((s.setThread t fun th => { th with
      numberMask := 1#32 <<< th.currentPriority.val, stat := .suspend }).threadResume t)
  else none

/-- `rt_thread_control` with `RT_THREAD_CTRL_CHANGE_PRIORITY`. -/
def changePriority (t : T) (priority : Fin 32) (s : Kernel T) : Kernel T :=
  let set := fun s : Kernel T => s.setThread t fun th => { th with
    currentPriority := priority, numberMask := 1#32 <<< priority.val }
  if (s.thread t).stat = .ready then (set (s.scheduleRemoveThread t)).scheduleInsertThread t else set s

/-! ### The tick -/

/-- `_thread_timeout`, which asserts that the thread is suspended. -/
def threadTimeout (t : T) (s : Kernel T) : Option (Kernel T) :=
  if (s.thread t).stat = .suspend then
    some (((s.setTask t fun k => { k with timedOut := true }).unlink t).scheduleInsertThread t).schedule
  else none

/-- The loop of `rt_timer_check`, which takes one timer off the list in every turn. -/
def timerCheckLoop : Nat → Kernel T → Option (Kernel T)
  | 0, s => some s
  | fuel + 1, s =>
    match s.timerList with
    | [] => some s
    | t :: _ =>
      if s.tick - (s.thread t).timer.timeoutTick < rtTickMax / 2 then
        let s := (s.timerRemove t).setThread t fun th => { th with timer := { th.timer with activated := false } }
        (s.threadTimeout t).bind (timerCheckLoop fuel)
      else some s

def timerCheck (s : Kernel T) : Option (Kernel T) := timerCheckLoop s.timerList.length s

/-- `rt_tick_increase` up to the call of `rt_schedule` or of `rt_timer_check`. -/
def tickIncrease (s : Kernel T) : Kernel T :=
  let s := { s with tick := s.tick + 1 }
  let t := s.currentThread
  let s := s.setTask t fun k => { k with remainingTick := k.remainingTick - 1 }
  if (s.thread t).remainingTick = 0 then
    { s.setTask t (fun k => { k with remainingTick := k.initTick, yield := true }) with phase := some .schedule }
  else { s with phase := some .check }

def step (s : Kernel T) : KernelLabel T → Option (Kernel T)
  | .startup t => if s.phase = none then s.threadStartup t else none
  | .suspend => if s.phase = none then some s.threadSuspend else none
  | .sleep tick => if s.phase = none then s.threadSleep tick else none
  | .woken => if s.phase = none then some s.threadWoken else none
  | .resume t => some (s.threadResume t)
  | .schedule => some s.schedule
  | .yield => if s.phase = none then some s.threadYield else none
  | .changePriority t priority => if s.phase = none then some (s.changePriority t priority) else none
  | .enterCritical => if s.phase = none then some { s with lockNest := s.lockNest + 1 } else none
  | .exitCritical => if s.phase = none then some { s with lockNest := s.lockNest - 1 } else none
  | .tick => if s.phase = none then some s.tickIncrease else none
  | .tickSchedule => if s.phase = some .schedule then some { s.schedule with phase := some .check } else none
  | .timerCheck => if s.phase = some .check then s.timerCheck.map fun s => { s with phase := none } else none

/-- The scheduler has started with the threads of the program: `main` runs and the idle thread is ready. -/
def start (tick : BitVec 32) (main idle : T) (priority : T → Fin 32) (slice : T → BitVec 32) : Kernel T where
  tick := tick
  thread t :=
    { stat := if t = main then .running else if t = idle then .ready else .init
      currentPriority := priority t
      yield := false
      initTick := slice t
      remainingTick := slice t
      timedOut := false
      numberMask := if t = main ∨ t = idle then 1#32 <<< (priority t).val else 0
      timer := ⟨false, 0, 0⟩ }
  timerList := []
  priorityTable p := if p = priority idle then [idle] else []
  readyPriorityGroup := 1#32 <<< (priority idle).val
  currentThread := main
  lockNest := 0
  phase := none

theorem threadMdelay_of_nonneg {ms : Int} (h : 0 ≤ ms) (s : Kernel T) :
    s.threadMdelay ms = s.threadSleep (BitVec.ofInt 32 ms) := by rw [threadMdelay, tickFromMillisecond_of_nonneg h]

end Kernel

end RodActuator.Rtos
