import RodActuator.Lib.StableInsert
import RodActuator.Rtos.Thread

/-! What the scheduler is for. The ready threads stand in one queue, in the order in which they became ready, and the
    sleeping ones in another, in the order in which they fell asleep, each with the time at which it shall wake. Time is
    a natural number. -/

namespace RodActuator.Rtos
open Transition

structure Tasks (T : Type*) where
  now : Nat
  task : T → Task
  queue : List T
  sleepers : List (T × Nat)
  current : T
  lock : Nat
  phase : Option TickPhase

/-- A tick of the turn of a thread is used up, and the turn ends with the last one. -/
def Task.useTick (k : Task) : Task :=
  if k.remainingTick - 1 = 0 then { k with remainingTick := k.initTick, yield := true }
  else { k with remainingTick := k.remainingTick - 1 }

theorem Task.useTick_stat (k : Task) : k.useTick.stat = k.stat := by
  rw [useTick]
  split <;> rfl

namespace Tasks
variable {T : Type*} [DecidableEq T]

def setTask (t : T) (f : Task → Task) (a : Tasks T) : Tasks T :=
  { a with task := Function.update a.task t (f (a.task t)) }

def priority (a : Tasks T) (t : T) : Nat := (a.task t).currentPriority.val

/-- The thread that is ready the longest of those with the highest priority. -/
def front (a : Tasks T) : Option T := a.queue.argmin a.priority

def enqueue (t : T) (a : Tasks T) : Tasks T := { a with queue := a.queue ++ [t] }

/-- A thread that is not the current one joins the queue. -/
def admitTask (t : T) (a : Tasks T) : Tasks T :=
  if t = a.current then a.setTask t fun k => { k with stat := .running }
  else (a.enqueue t).setTask t fun k => { k with stat := .ready }

def rouse (t : T) (a : Tasks T) : Tasks T := { a with sleepers := a.sleepers.filter fun w => w.1 ≠ t }

/-- The current thread goes on when no ready thread has its priority or a higher one, and also when it has not used up its
    turn and no ready thread has a higher one. -/
def Keeps (a : Tasks T) (next : T) : Prop :=
  a.priority a.current < a.priority next ∨ a.priority a.current = a.priority next ∧ (a.task a.current).yield = false

instance (a : Tasks T) (next : T) : Decidable (a.Keeps next) := inferInstanceAs (Decidable (_ ∨ _))

/-- The next thread leaves the queue and is the current one. -/
def take (next : T) (a : Tasks T) : Tasks T :=
  { a with queue := a.queue.erase next, current := next }.setTask next fun k => { k with stat := .running }

/-- The current thread, if it could go on, joins the queue. -/
def switchTo (next : T) (a : Tasks T) : Tasks T :=
  if (a.task a.current).stat = .running then
    ((a.enqueue a.current).setTask a.current fun k => { k with stat := .ready, yield := false }).take next
  else a.take next

def schedule (a : Tasks T) : Tasks T :=
  match a.front with
  | none => a
  | some next =>
    if a.lock ≠ 0 then a
    else if (a.task a.current).stat = .running ∧ a.Keeps next then a.setTask a.current fun k => { k with yield := false }
    else a.switchTo next

def suspend (a : Tasks T) : Tasks T :=
  if (a.task a.current).stat = .running then
    (a.setTask a.current fun k => { k with stat := .suspend }).rouse a.current
  else a

def fallAsleep (tick : Nat) (a : Tasks T) : Tasks T := { a with sleepers := a.sleepers ++ [(a.current, a.now + tick)] }

def sleep (tick : Nat) (a : Tasks T) : Tasks T :=
  (((a.setTask a.current fun k => { k with timedOut := false }).suspend).rouse a.current).fallAsleep tick

def resume (t : T) (a : Tasks T) : Tasks T :=
  if (a.task t).stat = .suspend then (a.rouse t).admitTask t else a

def requeue (t : T) (a : Tasks T) : Tasks T := { a with queue := a.queue.erase t ++ [t] }

/-- A ready thread whose priority changes goes to the end of the queue. -/
def changePriority (t : T) (priority : Fin 32) (a : Tasks T) : Tasks T :=
  (if (a.task t).stat = .ready then a.requeue t else a).setTask t fun k => { k with currentPriority := priority }

/-- The sleepers whose time has come, by their times and, at the same time, in the order in which they fell asleep. -/
def due (a : Tasks T) : List T :=
  ((StableInsert.arrange Prod.snd a.sleepers).filter fun w => w.2 ≤ a.now).map Prod.fst

def wake (a : Tasks T) (t : T) : Tasks T :=
  (((a.setTask t fun k => { k with timedOut := true }).rouse t).admitTask t).schedule

def tick (a : Tasks T) : Tasks T :=
  { a.setTask a.current Task.useTick with
    now := a.now + 1
    phase := some (if (a.task a.current).remainingTick - 1 = 0 then .schedule else .check) }

def step (a : Tasks T) : KernelLabel T → Option (Tasks T)
  | .startup t =>
    if a.phase = none ∧ (a.task t).stat = .init then some (a.admitTask t) else none
  | .suspend => if a.phase = none then some a.suspend else none
  | .sleep tick => if a.phase = none ∧ tick < rtTickMax / 2 then some (a.sleep tick.toNat) else none
  | .woken => if a.phase = none then some (a.setTask a.current fun k => { k with timedOut := false }) else none
  | .resume t => some (a.resume t)
  | .schedule => some a.schedule
  | .yield => if a.phase = none then
      some (a.setTask a.current fun k => { k with remainingTick := k.initTick, yield := true }).schedule else none
  | .changePriority t priority => if a.phase = none then some (a.changePriority t priority) else none
  | .enterCritical => if a.phase = none then some { a with lock := a.lock + 1 } else none
  | .exitCritical => if a.phase = none then some { a with lock := a.lock - 1 } else none
  | .tick => if a.phase = none then some a.tick else none
  | .tickSchedule => if a.phase = some .schedule then some { a.schedule with phase := some .check } else none
  | .timerCheck => if a.phase = some .check then some { a.due.foldl wake a with phase := none } else none

/-- A sleep ends less than half of all ticks later. -/
def sleepMax : Nat := (rtTickMax / 2).toNat

def start (now : Nat) (main idle : T) (priority : T → Fin 32) (slice : T → BitVec 32) : Tasks T where
  now := now
  task t :=
    { stat := if t = main then .running else if t = idle then .ready else .init
      currentPriority := priority t
      yield := false
      initTick := slice t
      remainingTick := slice t
      timedOut := false }
  queue := [idle]
  sleepers := []
  current := main
  lock := 0
  phase := none

/-! ### What every step keeps -/

/-- The queue holds the ready threads, no other thread than the current one runs, and who sleeps is suspended and wakes in
    time. -/
structure Sound (a : Tasks T) : Prop where
  nodup : a.queue.Nodup
  ready : ∀ t, t ∈ a.queue ↔ (a.task t).stat = .ready
  running : ∀ t, (a.task t).stat = .running → t = a.current
  asleep : ∀ w ∈ a.sleepers, (a.task w.1).stat = .suspend
  distinct : (a.sleepers.map Prod.fst).Nodup
  ends : ∀ w ∈ a.sleepers, w.2 < a.now + sleepMax
  awaited : ∀ w ∈ a.sleepers, a.now ≤ w.2 + if a.phase = none then 0 else 1

/-- Between two steps the current thread runs, or it is suspended and has not called the scheduler yet. -/
structure Inv (a : Tasks T) : Prop extends Sound a where
  current : (a.task a.current).stat = .running ∨ (a.task a.current).stat = .suspend

variable {a b : Tasks T} {t u next : T} {f : Task → Task}

theorem setTask_self : (a.setTask t f).task t = f (a.task t) := Function.update_self ..

theorem setTask_ne (h : u ≠ t) : (a.setTask t f).task u = a.task u := Function.update_of_ne h ..

theorem setTask_stat (hf : (f (a.task t)).stat = (a.task t).stat) (u : T) :
    ((a.setTask t f).task u).stat = (a.task u).stat := by
  by_cases hu : u = t
  · rw [hu, setTask_self, hf]
  · rw [setTask_ne hu]

theorem setTask_priority (hf : (f (a.task t)).currentPriority = (a.task t).currentPriority) (u : T) :
    (a.setTask t f).priority u = a.priority u := by
  by_cases hu : u = t
  · rw [priority, hu, setTask_self, hf, priority]
  · rw [priority, setTask_ne hu, priority]

omit [DecidableEq T] in
theorem front_mem (h : a.front = some next) : next ∈ a.queue := List.argmin_mem (Option.mem_def.mpr h)

omit [DecidableEq T] in
theorem front_le (h : a.front = some next) (ht : t ∈ a.queue) : a.priority next ≤ a.priority t :=
  List.le_of_mem_argmin ht (Option.mem_def.mpr h)

omit [DecidableEq T] in
theorem Sound.not_mem_queue (h : Sound a) (hstat : (a.task t).stat ≠ .ready) : t ∉ a.queue := mt (h.ready t).mp hstat

omit [DecidableEq T] in
/-- The invariant does not speak of priorities, turns and errors. -/
theorem Inv.of_stat (h : Inv a) (hstat : ∀ t, (b.task t).stat = (a.task t).stat) (hqueue : b.queue = a.queue)
    (hsleepers : b.sleepers = a.sleepers) (hcurrent : b.current = a.current) (hnow : b.now = a.now)
    (hphase : b.phase = a.phase) : Inv b := by
  refine ⟨⟨by rw [hqueue]; exact h.nodup, fun t => by rw [hqueue, hstat]; exact h.ready t, fun t => ?_, ?_, ?_, ?_, ?_⟩, ?_⟩
  · rw [hstat, hcurrent]
    exact h.running t
  · rw [hsleepers]
    exact fun w hw => (hstat w.1).trans (h.asleep w hw)
  · rw [hsleepers]
    exact h.distinct
  · rw [hsleepers, hnow]
    exact h.ends
  · rw [hsleepers, hnow, hphase]
    exact h.awaited
  · rw [hstat, hcurrent]
    exact h.current

theorem Inv.setTask (h : Inv a) (hf : (f (a.task t)).stat = (a.task t).stat) : Inv (a.setTask t f) :=
  h.of_stat (setTask_stat hf) rfl rfl rfl rfl rfl

omit [DecidableEq T] in
theorem Inv.current_not_mem (h : Inv a) : a.current ∉ a.queue :=
  h.not_mem_queue (h.current.elim (fun h => by rw [h]; nofun) fun h => by rw [h]; nofun)

/-! ### The sleepers -/

theorem mem_rouse {w : T × Nat} : w ∈ (a.rouse t).sleepers ↔ w ∈ a.sleepers ∧ w.1 ≠ t := by
  rw [rouse, List.mem_filter, decide_eq_true_iff]

theorem not_mem_rouse : t ∉ (a.rouse t).sleepers.map Prod.fst := by
  intro hmem
  obtain ⟨w, hw, heq⟩ := List.mem_map.mp hmem
  exact (mem_rouse.mp hw).2 heq

theorem rouse_of_not_mem (h : t ∉ a.sleepers.map Prod.fst) : a.rouse t = a := by
  have hfilter : (a.sleepers.filter fun w => w.1 ≠ t) = a.sleepers :=
    List.filter_eq_self.mpr fun w hw => decide_eq_true fun heq => h (List.mem_map.mpr ⟨w, hw, heq⟩)
  rw [rouse, hfilter]

theorem Sound.rouse (h : Sound a) (t : T) : Sound (a.rouse t) where
  nodup := h.nodup
  ready := h.ready
  running := h.running
  asleep w hw := h.asleep w (mem_rouse.mp hw).1
  distinct := h.distinct.sublist (List.filter_sublist.map _)
  ends w hw := h.ends w (mem_rouse.mp hw).1
  awaited w hw := h.awaited w (mem_rouse.mp hw).1

theorem Inv.rouse (h : Inv a) (t : T) : Inv (a.rouse t) := ⟨h.toSound.rouse t, h.current⟩

omit [DecidableEq T] in
theorem Sound.not_sleeper (h : Sound a) (hstat : (a.task t).stat ≠ .suspend) : t ∉ a.sleepers.map Prod.fst := by
  intro hmem
  obtain ⟨w, hw, heq⟩ := List.mem_map.mp hmem
  exact hstat (heq ▸ h.asleep w hw)

/-! ### The queue -/

/-- A thread that is awake and not in the queue joins it. -/
theorem Sound.enqueue (h : Sound a) (hnot : (a.task t).stat ≠ .ready) (hawake : t ∉ a.sleepers.map Prod.fst)
    (hf : (f (a.task t)).stat = .ready) : Sound ((a.enqueue t).setTask t f) := by
  have hmem : t ∉ a.queue := h.not_mem_queue hnot
  refine ⟨?_, fun u => ?_, fun u hu => ?_, fun w hw => ?_, h.distinct, h.ends, h.awaited⟩
  · exact List.nodup_append.mpr ⟨h.nodup, List.nodup_singleton t, fun x hx y hy => by
      rw [List.mem_singleton.mp hy]
      exact fun heq => hmem (heq ▸ hx)⟩
  · change u ∈ a.queue ++ [t] ↔ _
    rw [List.mem_append, List.mem_singleton]
    by_cases hu : u = t
    · rw [hu, setTask_self]
      exact ⟨fun _ => hf, fun _ => .inr rfl⟩
    · rw [setTask_ne hu, or_iff_left hu]
      exact h.ready u
  · by_cases hut : u = t
    · rw [hut, setTask_self] at hu
      cases hf.symm.trans hu
    · rw [setTask_ne hut] at hu
      exact h.running u hu
  · have hne : w.1 ≠ t := fun heq => hawake (List.mem_map.mpr ⟨w, hw, heq⟩)
    rw [setTask_ne hne]
    exact h.asleep w hw

/-- A thread that neither is ready nor sleeps joins the queue, or goes on if it is the current one. -/
theorem Inv.admitTask (h : Inv a) (hstat : (a.task t).stat = .suspend ∨ (a.task t).stat = .init)
    (hawake : t ∉ a.sleepers.map Prod.fst) : Inv (a.admitTask t) := by
  have hnot : (a.task t).stat ≠ .ready := hstat.elim (fun h => by rw [h]; nofun) fun h => by rw [h]; nofun
  rw [Tasks.admitTask]
  split
  · rename_i hcur
    subst hcur
    refine ⟨⟨h.nodup, fun u => ?_, fun u hu => ?_, fun w hw => ?_, h.distinct, h.ends, h.awaited⟩, .inl ?_⟩
    · by_cases hu : u = a.current
      · rw [hu, setTask_self]
        exact ⟨fun hmem => absurd hmem h.current_not_mem, nofun⟩
      · rw [setTask_ne hu]
        exact h.ready u
    · by_contra hne
      change u ≠ a.current at hne
      rw [setTask_ne hne] at hu
      exact hne (h.running u hu)
    · have hne : w.1 ≠ a.current := fun heq => hawake (List.mem_map.mpr ⟨w, hw, heq⟩)
      rw [setTask_ne hne]
      exact h.asleep w hw
    · change ((Tasks.setTask a.current _ a).task a.current).stat = _
      rw [setTask_self]
  · rename_i hcur
    refine ⟨h.toSound.enqueue hnot hawake rfl, ?_⟩
    change ((Tasks.setTask t _ _).task a.current).stat = _ ∨ ((Tasks.setTask t _ _).task a.current).stat = _
    rw [setTask_ne (Ne.symm hcur)]
    exact h.current

/-- A thread of the queue becomes the current one when no thread runs. -/
theorem Sound.take (h : Sound a) (hnext : next ∈ a.queue) (hrest : ∀ t, (a.task t).stat ≠ .running) :
    Inv (a.take next) := by
  refine ⟨⟨h.nodup.erase next, fun t => ?_, fun t ht => ?_, fun w hw => ?_, h.distinct, h.ends, h.awaited⟩, .inl ?_⟩
  · change t ∈ a.queue.erase next ↔ ((Tasks.setTask next _ _).task t).stat = _
    rw [h.nodup.mem_erase_iff]
    by_cases ht : t = next
    · rw [ht, setTask_self]
      exact ⟨fun hmem => absurd rfl hmem.1, nofun⟩
    · rw [setTask_ne ht, and_iff_right ht]
      exact h.ready t
  · by_contra hne
    change t ≠ next at hne
    rw [Tasks.take, setTask_ne hne] at ht
    exact hrest t ht
  · have hne : w.1 ≠ next := fun heq => by
      have hsleep := h.asleep w hw
      rw [heq, (h.ready next).mp hnext] at hsleep
      cases hsleep
    rw [Tasks.take, setTask_ne hne]
    exact h.asleep w hw
  · change ((Tasks.setTask next _ _).task next).stat = _
    rw [setTask_self]

theorem Inv.switchTo (h : Inv a) (hnext : next ∈ a.queue) : Inv (a.switchTo next) := by
  rw [Tasks.switchTo]
  split
  · rename_i hrun
    have hstat : (a.task a.current).stat ≠ .ready := by rw [hrun]; nofun
    have hawake : a.current ∉ a.sleepers.map Prod.fst := h.not_sleeper (by rw [hrun]; nofun)
    refine (h.toSound.enqueue hstat hawake rfl).take (List.mem_append_left _ hnext) fun t ht => ?_
    by_cases hcur : t = a.current
    · rw [hcur, setTask_self] at ht
      cases ht
    · rw [setTask_ne hcur] at ht
      exact hcur (h.running t ht)
  · rename_i hrun
    exact h.toSound.take hnext fun t ht => hrun (h.running t ht ▸ ht)

theorem Inv.schedule (h : Inv a) : Inv a.schedule := by
  rw [Tasks.schedule]
  split
  · exact h
  · rename_i next hfront
    split
    · exact h
    · split
      · exact h.setTask rfl
      · exact h.switchTo (front_mem hfront)

/-! ### The steps -/

theorem rouse_task : (a.rouse t).task = a.task := rfl

theorem Inv.suspend (h : Inv a) : Inv a.suspend := by
  have hinv : Inv (a.setTask a.current fun k => { k with stat := .suspend }) := by
    refine ⟨⟨h.nodup, fun t => ?_, fun t ht => ?_, fun w hw => ?_, h.distinct, h.ends, h.awaited⟩, .inr ?_⟩
    · by_cases ht : t = a.current
      · rw [ht, setTask_self]
        exact ⟨fun hmem => absurd hmem h.current_not_mem, nofun⟩
      · rw [setTask_ne ht]
        exact h.ready t
    · by_cases hcur : t = a.current
      · exact hcur
      · rw [setTask_ne hcur] at ht
        exact h.running t ht
    · by_cases hcur : w.1 = a.current
      · rw [hcur, setTask_self]
      · rw [setTask_ne hcur]
        exact h.asleep w hw
    · change ((Tasks.setTask a.current _ a).task a.current).stat = _
      rw [setTask_self]
  rw [Tasks.suspend]
  split
  · exact hinv.rouse _
  · exact h

theorem suspend_current : a.suspend.current = a.current := by
  rw [suspend]
  split <;> rfl

theorem Inv.suspend_stat (h : Inv a) : (a.suspend.task a.current).stat = .suspend := by
  rw [Tasks.suspend]
  split
  · rw [rouse_task, setTask_self]
  · rename_i hrun
    exact h.current.resolve_left hrun

theorem suspend_now : a.suspend.now = a.now := by
  rw [suspend]
  split <;> rfl

theorem suspend_phase : a.suspend.phase = a.phase := by
  rw [suspend]
  split <;> rfl

omit [DecidableEq T] in
theorem Inv.fallAsleep (h : Inv a) (hstat : (a.task a.current).stat = .suspend) (hawake : a.current ∉ a.sleepers.map Prod.fst)
    {tick : Nat} (htick : tick < sleepMax) : Inv (a.fallAsleep tick) := by
  have hmem : ∀ w, w ∈ (a.fallAsleep tick).sleepers ↔ w ∈ a.sleepers ∨ w = (a.current, a.now + tick) := fun w => by
    rw [Tasks.fallAsleep, List.mem_append, List.mem_singleton]
  refine ⟨⟨h.nodup, h.ready, h.running, fun w hw => ?_, ?_, fun w hw => ?_, fun w hw => ?_⟩, h.current⟩
  · rcases (hmem w).mp hw with hw | rfl
    · exact h.asleep w hw
    · exact hstat
  · rw [Tasks.fallAsleep, List.map_append]
    exact List.nodup_append.mpr ⟨h.distinct, List.nodup_singleton _, fun x hx y hy => by
      rw [List.mem_singleton.mp hy]
      exact fun heq : x = a.current => hawake (heq ▸ hx)⟩
  · rcases (hmem w).mp hw with hw | rfl
    · exact h.ends w hw
    · exact Nat.add_lt_add_left htick _
  · rcases (hmem w).mp hw with hw | rfl
    · exact h.awaited w hw
    · exact (Nat.le_add_right _ _).trans (Nat.le_add_right _ _)

theorem Inv.sleep (h : Inv a) {tick : Nat} (htick : tick < sleepMax) : Inv (a.sleep tick) := by
  have h' : Inv (a.setTask a.current fun k => { k with timedOut := false }) := h.setTask rfl
  have hcur : (a.setTask a.current fun k => { k with timedOut := false }).suspend.current = a.current := suspend_current
  refine (h'.suspend.rouse a.current).fallAsleep ?_ ?_ htick
  · rw [rouse_task]
    change ((Tasks.suspend _).task (Tasks.suspend _).current).stat = _
    rw [hcur]
    exact h'.suspend_stat
  · change (Tasks.suspend _).current ∉ _
    rw [hcur]
    exact not_mem_rouse

theorem Inv.resume (h : Inv a) (t : T) : Inv (a.resume t) := by
  rw [Tasks.resume]
  split
  · rename_i hstat
    exact (h.rouse t).admitTask (.inl hstat) not_mem_rouse
  · exact h

theorem Inv.requeue (h : Inv a) (ht : t ∈ a.queue) : Inv (a.requeue t) := by
  have hperm : (a.requeue t).queue.Perm a.queue :=
    (List.perm_append_singleton t _).trans (List.perm_cons_erase ht).symm
  refine ⟨⟨hperm.nodup_iff.mpr h.nodup, fun u => ?_, h.running, h.asleep, h.distinct, h.ends, h.awaited⟩, h.current⟩
  rw [hperm.mem_iff]
  exact h.ready u

theorem Inv.changePriority (h : Inv a) (t : T) (priority : Fin 32) : Inv (a.changePriority t priority) := by
  rw [Tasks.changePriority]
  split
  · rename_i hready
    exact (h.requeue ((h.ready t).mpr hready)).setTask rfl
  · exact h.setTask rfl

/-! ### The due sleepers -/

/-- What the scheduler and the queue leave alone. -/
structure SameTime (a b : Tasks T) : Prop where
  now : b.now = a.now
  phase : b.phase = a.phase
  sleepers : b.sleepers = a.sleepers

omit [DecidableEq T] in
theorem SameTime.trans {c : Tasks T} (hab : SameTime a b) (hbc : SameTime b c) : SameTime a c :=
  ⟨hbc.now.trans hab.now, hbc.phase.trans hab.phase, hbc.sleepers.trans hab.sleepers⟩

theorem admitTask_time (t : T) (a : Tasks T) : SameTime a (a.admitTask t) := by
  rw [admitTask]
  split <;> exact ⟨rfl, rfl, rfl⟩

theorem schedule_time (a : Tasks T) : SameTime a a.schedule := by
  rw [schedule]
  split
  · exact ⟨rfl, rfl, rfl⟩
  · split
    · exact ⟨rfl, rfl, rfl⟩
    · split
      · exact ⟨rfl, rfl, rfl⟩
      · rw [switchTo]
        split <;> exact ⟨rfl, rfl, rfl⟩

theorem wake_time (a : Tasks T) (t : T) : SameTime (a.rouse t) (a.wake t) := by
  have hrouse : SameTime (a.rouse t) ((a.setTask t fun k => { k with timedOut := true }).rouse t) := ⟨rfl, rfl, rfl⟩
  exact (hrouse.trans (admitTask_time t _)).trans (schedule_time _)

theorem Inv.wake (h : Inv a) (hstat : (a.task t).stat = .suspend) : Inv (a.wake t) := by
  have h' : Inv (a.setTask t fun k => { k with timedOut := true }) := h.setTask rfl
  refine ((h'.rouse t).admitTask (.inl ?_) not_mem_rouse).schedule
  rw [rouse_task, setTask_self]
  exact hstat

omit [DecidableEq T] in
theorem mem_due : t ∈ a.due ↔ ∃ d, (t, d) ∈ a.sleepers ∧ d ≤ a.now := by
  rw [due, List.mem_map]
  constructor
  · rintro ⟨w, hw, rfl⟩
    obtain ⟨hmem, hle⟩ := List.mem_filter.mp hw
    exact ⟨w.2, (StableInsert.arrange_perm _ _).mem_iff.mp hmem, of_decide_eq_true hle⟩
  · rintro ⟨d, hmem, hle⟩
    exact ⟨(t, d), List.mem_filter.mpr ⟨(StableInsert.arrange_perm _ _).mem_iff.mpr hmem, decide_eq_true hle⟩, rfl⟩

/-- The first due sleeper wakes, and the others are due as before. -/
theorem due_wake (h : Inv a) {l : List T} (hdue : a.due = t :: l) : (a.wake t).due = l := by
  have htime := wake_time a t
  have hfilter : (a.rouse t).due = a.due.filter fun u => u ≠ t := by
    rw [due, due, rouse, ← StableInsert.filter_arrange, List.filter_comm, List.filter_map]
    rfl
  have hnodup : a.due.Nodup := by
    have hperm := ((StableInsert.arrange_perm Prod.snd a.sleepers).map Prod.fst).nodup_iff.mpr h.distinct
    exact hperm.sublist (List.filter_sublist.map _)
  rw [due, htime.sleepers, htime.now]
  change (a.rouse t).due = l
  rw [hdue] at hnodup
  rw [hfilter, hdue, List.filter_cons_of_neg (by simp)]
  exact List.filter_eq_self.mpr fun u hu => decide_eq_true fun heq => (List.nodup_cons.mp hnodup).1 (heq ▸ hu)

/-- They all wake, and none of them sleeps on. -/
theorem Inv.wake_due {l : List T} (h : Inv a) (hdue : a.due = l) :
    Inv (l.foldl Tasks.wake a) ∧ (l.foldl Tasks.wake a).now = a.now ∧ (l.foldl Tasks.wake a).phase = a.phase ∧
      ∀ w, w ∈ (l.foldl Tasks.wake a).sleepers ↔ w ∈ a.sleepers ∧ a.now < w.2 := by
  induction l generalizing a with
  | nil =>
    refine ⟨h, rfl, rfl, fun w => ⟨fun hw => ⟨hw, ?_⟩, And.left⟩⟩
    by_contra hle
    have hmem : w.1 ∈ a.due := mem_due.mpr ⟨w.2, hw, Nat.not_lt.mp hle⟩
    rw [hdue] at hmem
    cases hmem
  | cons t l ih =>
    obtain ⟨d, hmem, hle⟩ := mem_due.mp (hdue ▸ List.mem_cons_self : t ∈ a.due)
    have htime := wake_time a t
    obtain ⟨hinv, hnow, hphase, hrest⟩ := ih (h.wake (h.asleep _ hmem)) (due_wake h hdue)
    refine ⟨hinv, hnow.trans htime.now, hphase.trans htime.phase, fun w => ?_⟩
    rw [List.foldl_cons, hrest w, htime.sleepers, htime.now, mem_rouse]
    change (w ∈ a.sleepers ∧ w.1 ≠ t) ∧ a.now < w.2 ↔ _
    refine ⟨fun hw => ⟨hw.1.1, hw.2⟩, fun hw => ⟨⟨hw.1, fun heq => ?_⟩, hw.2⟩⟩
    have hw' : w = (t, d) := List.inj_on_of_nodup_map h.distinct hw.1 hmem heq
    rw [hw'] at hw
    exact Nat.not_lt.mpr hle hw.2

theorem Inv.timerCheck (h : Inv a) : Inv { a.due.foldl Tasks.wake a with phase := none } := by
  obtain ⟨hinv, hnow, -, hrest⟩ := h.wake_due rfl
  refine ⟨⟨hinv.nodup, hinv.ready, hinv.running, hinv.asleep, hinv.distinct, hinv.ends, fun w hw => ?_⟩, hinv.current⟩
  change (a.due.foldl Tasks.wake a).now ≤ w.2 + 0
  rw [hnow]
  exact ((hrest w).mp hw).2.le

theorem Inv.tick (h : Inv a) (hphase : a.phase = none) : Inv a.tick := by
  have hstat : ∀ t, (a.tick.task t).stat = (a.task t).stat := setTask_stat (Task.useTick_stat _)
  refine ⟨⟨h.nodup, fun t => by rw [hstat]; exact h.ready t, fun t ht => h.running t (hstat t ▸ ht), fun w hw => ?_,
    h.distinct, fun w hw => ?_, fun w hw => ?_⟩, ?_⟩
  · exact (hstat w.1).trans (h.asleep w hw)
  · exact (h.ends w hw).trans_le (Nat.add_le_add_right (Nat.le_succ _) _)
  · have hle := h.awaited w hw
    rw [if_pos hphase] at hle
    exact Nat.succ_le_succ hle
  · rw [hstat]
    exact h.current

theorem Inv.step (h : Inv a) {l : KernelLabel T} (hstep : a.step l = some b) : Inv b := by
  cases l with
  | startup t =>
    obtain ⟨⟨-, hstat⟩, ⟨⟩⟩ := Option.ite_none_right_eq_some.mp hstep
    exact h.admitTask (.inr hstat) (h.not_sleeper (by rw [hstat]; nofun))
  | suspend =>
    obtain ⟨-, ⟨⟩⟩ := Option.ite_none_right_eq_some.mp hstep
    exact h.suspend
  | sleep tick =>
    obtain ⟨⟨-, htick⟩, ⟨⟩⟩ := Option.ite_none_right_eq_some.mp hstep
    exact h.sleep htick
  | woken =>
    obtain ⟨-, ⟨⟩⟩ := Option.ite_none_right_eq_some.mp hstep
    exact h.setTask rfl
  | resume t =>
    cases hstep
    exact h.resume t
  | schedule =>
    cases hstep
    exact h.schedule
  | yield =>
    obtain ⟨-, ⟨⟩⟩ := Option.ite_none_right_eq_some.mp hstep
    exact (h.setTask rfl).schedule
  | changePriority t priority =>
    obtain ⟨-, ⟨⟩⟩ := Option.ite_none_right_eq_some.mp hstep
    exact h.changePriority t priority
  | enterCritical =>
    obtain ⟨-, ⟨⟩⟩ := Option.ite_none_right_eq_some.mp hstep
    exact h.of_stat (fun _ => rfl) rfl rfl rfl rfl rfl
  | exitCritical =>
    obtain ⟨-, ⟨⟩⟩ := Option.ite_none_right_eq_some.mp hstep
    exact h.of_stat (fun _ => rfl) rfl rfl rfl rfl rfl
  | tick =>
    obtain ⟨hphase, ⟨⟩⟩ := Option.ite_none_right_eq_some.mp hstep
    exact h.tick hphase
  | tickSchedule =>
    obtain ⟨hphase, ⟨⟩⟩ := Option.ite_none_right_eq_some.mp hstep
    have hinv := h.schedule
    refine ⟨⟨hinv.nodup, hinv.ready, hinv.running, hinv.asleep, hinv.distinct, hinv.ends, fun w hw => ?_⟩, hinv.current⟩
    have hle := hinv.awaited w hw
    rw [(schedule_time a).phase, hphase] at hle
    exact hle
  | timerCheck =>
    obtain ⟨-, ⟨⟩⟩ := Option.ite_none_right_eq_some.mp hstep
    exact h.timerCheck

end Tasks

end RodActuator.Rtos
