import RodActuator.Lib.SerialTime
import RodActuator.Rtos.Tasks

/-! The scheduler of the kernel with its ready queues, its bits and its timers does what it is for. -/

namespace RodActuator.Rtos
open Transition

/-! ### The bits -/

theorem rtFfs_of_lowest {group : BitVec 32} {i : Nat} (hi : i < 32) (hset : group.getLsbD i = true)
    (hlow : ∀ j < i, group.getLsbD j = false) : rtFfs group = i + 1 := by
  have hfind : (List.range 32).find? group.getLsbD = some i := by
    rw [List.find?_range_eq_some]
    exact ⟨hset, List.mem_range.mpr hi, fun j hj => by rw [hlow j hj]; rfl⟩
  rw [rtFfs, hfind]

theorem getLsbD_one_shiftLeft (p i : Fin 32) : (1#32 <<< p.val).getLsbD i.val = decide (i = p) := by
  rw [BitVec.getLsbD_shiftLeft, BitVec.getLsbD_one]
  rcases Nat.lt_trichotomy i.val p.val with h | h | h
  · simp [h, Fin.ne_of_lt h]
  · simp [Fin.ext h]
  · simp [Nat.not_lt.mpr h.le, Nat.sub_ne_zero_of_lt h, (Fin.ne_of_lt h).symm]

namespace Kernel
variable {T : Type*} [DecidableEq T] {s : Kernel T} {a : Tasks T} {t u next : T}

/-- Every ready queue is a part of the one queue, a bit is set for each that is not empty, and the timers of the sleepers
    stand in the order of their times. -/
structure Refines (s : Kernel T) (a : Tasks T) : Prop where
  tick : s.tick = BitVec.ofNat 32 a.now
  task : ∀ t, (s.thread t).toTask = a.task t
  current : s.currentThread = a.current
  lock : s.lockNest = a.lock
  phase : s.phase = a.phase
  table : ∀ p, s.priorityTable p = a.queue.filter fun t => (a.task t).currentPriority = p
  group : ∀ p : Fin 32, s.readyPriorityGroup.getLsbD p = true ↔ ∃ t ∈ a.queue, (a.task t).currentPriority = p
  mask : ∀ t, (a.task t).stat ≠ .init → (s.thread t).numberMask = 1#32 <<< (a.task t).currentPriority.val
  timers : s.timerList = (StableInsert.arrange Prod.snd a.sleepers).map Prod.fst
  timeout : ∀ w ∈ a.sleepers, (s.thread w.1).timer.timeoutTick = BitVec.ofNat 32 w.2
  activated : ∀ t, (s.thread t).timer.activated = true ↔ t ∈ a.sleepers.map Prod.fst

/-! ### The threads -/

variable {f : Task → Task} {g : Thread → Thread}

theorem setThread_self : (s.setThread t g).thread t = g (s.thread t) := Function.update_self ..

theorem setThread_ne (h : u ≠ t) : (s.setThread t g).thread u = s.thread u := Function.update_of_ne h ..

theorem setTask_toTask (u : T) : ((s.setTask t f).thread u).toTask = if u = t then f (s.thread t).toTask else (s.thread u).toTask := by
  split
  · rename_i hu
    rw [hu, setTask, setThread_self]
  · rw [setTask, setThread_ne ‹_›]

theorem setTask_numberMask (u : T) : ((s.setTask t f).thread u).numberMask = (s.thread u).numberMask := by
  by_cases hu : u = t
  · rw [hu, setTask, setThread_self]
  · rw [setTask, setThread_ne hu]

theorem setTask_timer (u : T) : ((s.setTask t f).thread u).timer = (s.thread u).timer := by
  by_cases hu : u = t
  · rw [hu, setTask, setThread_self]
  · rw [setTask, setThread_ne hu]

theorem Refines.setTask (h : Refines s a) (hpriority : (f (a.task t)).currentPriority = (a.task t).currentPriority)
    (hinit : (f (a.task t)).stat ≠ .init → (a.task t).stat ≠ .init) : Refines (s.setTask t f) (a.setTask t f) := by
  have hprio : ∀ u, ((a.setTask t f).task u).currentPriority = (a.task u).currentPriority := fun u => by
    by_cases hu : u = t
    · rw [hu, Tasks.setTask_self, hpriority]
    · rw [Tasks.setTask_ne hu]
  refine ⟨h.tick, fun u => ?_, h.current, h.lock, h.phase, fun p => ?_, fun p => ?_, fun u hu => ?_, h.timers,
    fun w hw => ?_, fun u => ?_⟩
  · rw [setTask_toTask, h.task, h.task]
    split
    · rename_i hu
      rw [hu, Tasks.setTask_self]
    · rw [Tasks.setTask_ne ‹_›]
  · exact (h.table p).trans (List.filter_congr fun u _ => by rw [hprio])
  · simp only [hprio]
    exact h.group p
  · rw [setTask_numberMask, hprio]
    refine h.mask u ?_
    by_cases hut : u = t
    · rw [hut] at hu ⊢
      rw [Tasks.setTask_self] at hu
      exact hinit hu
    · rwa [Tasks.setTask_ne hut] at hu
  · rw [setTask_timer]
    exact h.timeout w hw
  · rw [setTask_timer]
    exact h.activated u

/-! ### The ready queues -/

omit [DecidableEq T] in
theorem Refines.notMem_table (h : Refines s a) (ht : t ∉ a.queue) (p : Fin 32) : t ∉ s.priorityTable p := by
  rw [h.table]
  exact fun hmem => ht (List.mem_of_mem_filter hmem)

theorem Refines.unlink (h : Refines s a) (ht : t ∉ a.queue) : s.unlink t = s := by
  have htable : (fun p => (s.priorityTable p).erase t) = s.priorityTable :=
    funext fun p => List.erase_of_not_mem (h.notMem_table ht p)
  rw [Kernel.unlink, htable]

omit [DecidableEq T] in
/-- A thread joins the queue of its priority. -/
theorem Refines.enqueue (h : Refines s a) (hinit : (a.task t).stat ≠ .init) :
    Refines { s with
      priorityTable := Function.update s.priorityTable (s.thread t).currentPriority
        (s.priorityTable (s.thread t).currentPriority ++ [t])
      readyPriorityGroup := s.readyPriorityGroup ||| (s.thread t).numberMask } (a.enqueue t) := by
  have hprio : (s.thread t).currentPriority = (a.task t).currentPriority := by rw [← h.task]
  refine ⟨h.tick, h.task, h.current, h.lock, h.phase, fun p => ?_, fun p => ?_, h.mask, h.timers, h.timeout, h.activated⟩
  · change Function.update s.priorityTable _ _ p = (a.queue ++ [t]).filter fun u => (a.task u).currentPriority = p
    rw [List.filter_append, List.filter_singleton, hprio]
    by_cases hp : p = (a.task t).currentPriority
    · rw [hp, Function.update_self, h.table, decide_eq_true rfl]
      rfl
    · rw [Function.update_of_ne hp, h.table, decide_eq_false (Ne.symm hp)]
      exact (List.append_nil _).symm
  · change (s.readyPriorityGroup ||| (s.thread t).numberMask).getLsbD p = true ↔ ∃ u ∈ a.queue ++ [t], _
    rw [BitVec.getLsbD_or, Bool.or_eq_true, h.group, h.mask t hinit, getLsbD_one_shiftLeft, decide_eq_true_iff]
    simp only [List.mem_append, List.mem_singleton, or_and_right, exists_or, exists_eq_left]
    exact or_congr_right eq_comm

theorem Refines.insertThread (h : Refines s a) (hinit : (a.task t).stat ≠ .init) :
    Refines (s.scheduleInsertThread t) (a.admitTask t) := by
  rw [scheduleInsertThread, Tasks.admitTask, h.current]
  split
  · exact h.setTask rfl fun _ => hinit
  · have hready : Refines (s.setTask t fun k => { k with stat := .ready }) (a.setTask t fun k => { k with stat := .ready }) :=
      h.setTask rfl fun _ => hinit
    exact hready.enqueue (by rw [Tasks.setTask_self]; rintro ⟨⟩)

/-- A thread leaves the queue of its priority, whose bit is cleared with the last. -/
theorem Refines.removeThread (h : Refines s a) (hnodup : a.queue.Nodup) (hinit : (a.task t).stat ≠ .init) :
    Refines (s.scheduleRemoveThread t) { a with queue := a.queue.erase t } := by
  have hprio : (s.thread t).currentPriority = (a.task t).currentPriority := by rw [← h.task]
  have hunlink : ∀ p, (s.unlink t).priorityTable p =
      (a.queue.erase t).filter fun u => (a.task u).currentPriority = p := fun p => by
    change (s.priorityTable p).erase t = _
    rw [h.table, (hnodup.filter _).erase_eq_filter, hnodup.erase_eq_filter, List.filter_comm]
  have hempty : (s.unlink t).priorityTable (s.thread t).currentPriority = [] ↔
      ¬∃ u ∈ a.queue.erase t, (a.task u).currentPriority = (a.task t).currentPriority := by
    rw [hunlink, hprio, List.filter_eq_nil_iff]
    simp only [decide_eq_true_iff, not_exists, not_and]
  -- Only the bit of the priority of the thread can change.
  have hother : ∀ p, p ≠ (a.task t).currentPriority → ((∃ u ∈ a.queue, (a.task u).currentPriority = p) ↔
      ∃ u ∈ a.queue.erase t, (a.task u).currentPriority = p) := fun p hp => by
    refine exists_congr fun u => and_congr_left fun hu => ?_
    rw [hnodup.mem_erase_iff]
    exact (and_iff_right fun heq : u = t => hp (by rw [← hu, heq])).symm
  have hsub : ∀ p, (∃ u ∈ a.queue.erase t, (a.task u).currentPriority = p) → ∃ u ∈ a.queue, (a.task u).currentPriority = p :=
    fun p ⟨u, hu, heq⟩ => ⟨u, List.mem_of_mem_erase hu, heq⟩
  rw [scheduleRemoveThread]
  split
  · rename_i hnil
    have hnone := hempty.mp hnil
    refine ⟨h.tick, h.task, h.current, h.lock, h.phase, hunlink, fun p => ?_, h.mask, h.timers, h.timeout, h.activated⟩
    change (s.readyPriorityGroup &&& ~~~(s.thread t).numberMask).getLsbD p = true ↔ _
    rw [BitVec.getLsbD_and, Bool.and_eq_true, h.group, h.mask t hinit, BitVec.getLsbD_not, getLsbD_one_shiftLeft]
    by_cases hp : p = (a.task t).currentPriority
    · rw [hp]
      simp only [decide_true, Bool.not_true, Bool.and_false, Bool.false_eq_true, and_false, false_iff]
      exact hnone
    · rw [hother p hp]
      simp [hp]
  · rename_i hsome
    have hsome' := not_not.mp (mt hempty.mpr hsome)
    refine ⟨h.tick, h.task, h.current, h.lock, h.phase, hunlink, fun p => ?_, h.mask, h.timers, h.timeout, h.activated⟩
    change s.readyPriorityGroup.getLsbD p = true ↔ _
    rw [h.group]
    by_cases hp : p = (a.task t).currentPriority
    · rw [hp]
      exact ⟨fun _ => hsome', hsub _⟩
    · exact hother p hp

/-! ### The choice of the next thread -/

omit [DecidableEq T] in
theorem Refines.group_eq_zero_iff (h : Refines s a) : s.readyPriorityGroup = 0 ↔ a.queue = [] := by
  rw [List.eq_nil_iff_forall_not_mem]
  constructor
  · intro hzero t ht
    have hbit := (h.group (a.task t).currentPriority).mpr ⟨t, ht, rfl⟩
    rw [hzero] at hbit
    simp at hbit
  · intro hnil
    refine BitVec.eq_of_getLsbD_eq fun i hi => ?_
    have hbit := mt (h.group ⟨i, hi⟩).mp fun ⟨t, ht, _⟩ => hnil t ht
    rw [Bool.not_eq_true] at hbit
    simpa using hbit

omit [DecidableEq T] in
/-- The lowest bit names the queue whose first thread is the front of the one queue. -/
theorem Refines.front (h : Refines s a) (hfront : a.front = some next) :
    s.highestReadyPriority = (a.task next).currentPriority ∧
      (s.priorityTable s.highestReadyPriority).head? = some next := by
  have hhighest : s.highestReadyPriority = (a.task next).currentPriority := by
    have hset := (h.group (a.task next).currentPriority).mpr ⟨next, Tasks.front_mem hfront, rfl⟩
    have hlow : ∀ j < (a.task next).currentPriority.val, s.readyPriorityGroup.getLsbD j = false := fun j hj => by
      rw [← Bool.not_eq_true]
      intro hbit
      obtain ⟨u, hu, hprio⟩ := (h.group ⟨j, hj.trans (Fin.isLt _)⟩).mp hbit
      have hle := Tasks.front_le hfront hu
      rw [Tasks.priority, Tasks.priority, hprio] at hle
      exact Nat.not_le.mpr hj hle
    rw [highestReadyPriority, rtFfs_of_lowest (Fin.isLt _) hset hlow, Nat.add_sub_cancel]
    exact Fin.ext (Nat.mod_eq_of_lt (Fin.isLt _))
  refine ⟨hhighest, ?_⟩
  have hfilter : (a.queue.filter fun t => (a.task t).currentPriority = (a.task next).currentPriority) =
      a.queue.filter fun t => a.priority t = a.priority next :=
    List.filter_congr fun t _ => decide_eq_decide.mpr Fin.ext_iff
  rw [h.table, hhighest, hfilter]
  exact StableInsert.head?_filter_argmin a.priority hfront

omit [DecidableEq T] in
theorem Refines.switch (h : Refines s a) (u : T) : Refines { s with currentThread := u } { a with current := u } :=
  ⟨h.tick, h.task, rfl, h.lock, h.phase, h.table, h.group, h.mask, h.timers, h.timeout, h.activated⟩

theorem setTask_eq_self (hf : f (a.task t) = a.task t) : a.setTask t f = a := by
  rw [Tasks.setTask, hf, Function.update_eq_self]

/-- The next thread leaves its queue and runs. -/
theorem Refines.take (h : Refines s a) (hnodup : a.queue.Nodup) (hready : (a.task next).stat = .ready) :
    Refines (({ s with currentThread := next }.scheduleRemoveThread next).setTask next fun k => { k with stat := .running })
      (a.take next) := by
  have hinit : (a.task next).stat ≠ .init := by rw [hready]; rintro ⟨⟩
  exact ((h.switch next).removeThread hnodup hinit).setTask rfl fun _ => hinit

theorem setTask_setTask {e : Task → Task} : (a.setTask t f).setTask t e = a.setTask t fun k => e (f k) := by
  rw [Tasks.setTask, Tasks.setTask_self]
  change { a with task := Function.update (Function.update a.task t _) t _ } = _
  rw [Function.update_idem]
  rfl

/-- The thread that loses the processor goes to the back of the queue. -/
theorem admitTask_current (hne : next ≠ a.current) :
    Tasks.admitTask a.current { a.setTask a.current f with current := next } =
      ({ a with current := next }.enqueue a.current).setTask a.current fun k => { f k with stat := .ready } := by
  rw [Tasks.admitTask, if_neg hne.symm]
  exact setTask_setTask (a := { a with current := next }.enqueue a.current)

/-- A thread that runs is in no queue, and nothing comes of taking it off. -/
theorem Refines.stay (h : Refines s a) (hmem : t ∉ a.queue) (hnodup : a.queue.Nodup) (hrun : (a.task t).stat = .running) :
    Refines ((s.scheduleRemoveThread t).setTask t fun k => { k with stat := .running }) a := by
  have hinit : (a.task t).stat ≠ .init := by rw [hrun]; rintro ⟨⟩
  have hremove := h.removeThread hnodup hinit
  rw [List.erase_of_not_mem hmem] at hremove
  have hset := hremove.setTask (t := t) (f := fun k => { k with stat := .running }) rfl fun _ => hinit
  rwa [setTask_eq_self (by rw [← hrun])] at hset

theorem schedule_of_lock (hlock : s.lockNest ≠ 0) : s.schedule = s := by rw [schedule, if_neg hlock]

section
variable (hlock : s.lockNest = 0) (hgroup : s.readyPriorityGroup ≠ 0)
  (hhead : (s.priorityTable s.highestReadyPriority).head? = some next)

include hlock hgroup hhead in
theorem schedule_keeps (hrun : (s.thread s.currentThread).stat = .running) (hkeeps : s.GoesOn) :
    s.schedule = ((s.setTask s.currentThread fun k => { k with yield := false }).scheduleRemoveThread
      s.currentThread).setTask s.currentThread fun k => { k with stat := .running } := by
  rw [schedule, if_pos hlock, if_pos hgroup, hhead]
  simp only [hrun, hkeeps, and_self, ne_eq, not_true, if_false, if_true]

include hlock hgroup hhead in
theorem schedule_switch (hrun : (s.thread s.currentThread).stat = .running) (hkeeps : ¬s.GoesOn) (hne : next ≠ s.currentThread) :
    s.schedule = ((({ s.setTask s.currentThread fun k => { k with yield := false } with
      currentThread := next }.scheduleInsertThread s.currentThread).scheduleRemoveThread next).setTask next
        fun k => { k with stat := .running }) := by
  rw [schedule, if_pos hlock, if_pos hgroup, hhead]
  simp only [hrun, hkeeps, and_false, if_false, ne_eq, hne, not_false_eq_true, if_true]

include hlock hgroup hhead in
theorem schedule_leave (hrun : (s.thread s.currentThread).stat ≠ .running) (hne : next ≠ s.currentThread) :
    s.schedule = ({ s with currentThread := next }.scheduleRemoveThread next).setTask next
      fun k => { k with stat := .running } := by
  rw [schedule, if_pos hlock, if_pos hgroup, hhead]
  simp only [hrun, false_and, if_false, ne_eq, hne, not_false_eq_true, if_true]

end

theorem Refines.schedule (h : Refines s a) (inv : a.Inv) : Refines s.schedule a.schedule := by
  rw [Tasks.schedule]
  split
  · -- No thread is ready.
    rename_i hfront
    have hnil : a.queue = [] := List.argmin_eq_none.mp hfront
    rw [Kernel.schedule, h.group_eq_zero_iff.mpr hnil, if_neg (not_not.mpr rfl), ite_self]
    exact h
  · rename_i next hfront
    have hmem := Tasks.front_mem hfront
    obtain ⟨hhighest, hhead⟩ := h.front hfront
    have hready : (a.task next).stat = .ready := (inv.ready next).mp hmem
    have hne : next ≠ a.current := fun heq => inv.current_not_mem (heq ▸ hmem)
    have hne' : next ≠ s.currentThread := h.current ▸ hne
    have hgroup : s.readyPriorityGroup ≠ 0 := fun hzero => by
      rw [h.group_eq_zero_iff.mp hzero] at hmem
      cases hmem
    by_cases hlock : a.lock = 0
    · have hlock' : s.lockNest = 0 := h.lock.trans hlock
      rw [if_neg (not_not.mpr hlock)]
      have hkeeps : s.GoesOn ↔ a.Keeps next := by
        rw [GoesOn, h.current, h.task, hhighest]
        exact or_congr Iff.rfl (and_congr_left fun _ => Fin.ext_iff)
      have hstat : (s.thread s.currentThread).stat = (a.task a.current).stat := by rw [h.current, h.task]
      by_cases hrun : (a.task a.current).stat = .running
      · have hinit : (a.task a.current).stat ≠ .init := by rw [hrun]; rintro ⟨⟩
        have hturn : Refines (s.setTask a.current fun k => { k with yield := false })
            (a.setTask a.current fun k => { k with yield := false }) := h.setTask rfl id
        by_cases hk : a.Keeps next
        · rw [if_pos ⟨hrun, hk⟩, schedule_keeps hlock' hgroup hhead (hstat.trans hrun) (hkeeps.mpr hk), h.current]
          refine hturn.stay inv.current_not_mem inv.nodup ?_
          rw [Tasks.setTask_self]
          exact hrun
        · rw [if_neg fun h => hk h.2, schedule_switch hlock' hgroup hhead (hstat.trans hrun) (mt hkeeps.mp hk) hne',
            h.current, Tasks.switchTo, if_pos hrun]
          have hinsert := (hturn.switch next).insertThread (t := a.current) (by rw [Tasks.setTask_self]; exact hinit)
          rw [admitTask_current hne] at hinsert
          have hqueue : (a.queue ++ [a.current]).Nodup := List.nodup_append.mpr ⟨inv.nodup, List.nodup_singleton _,
            fun x hx y hy => by
              rw [List.mem_singleton.mp hy]
              exact fun heq => inv.current_not_mem (heq ▸ hx)⟩
          have hinit' : ((({ a with current := next }.enqueue a.current).setTask a.current
              fun k => { k with stat := .ready, yield := false }).task next).stat ≠ .init := by
            rw [Tasks.setTask_ne hne]
            intro heq
            cases hready.symm.trans heq
          exact (hinsert.removeThread hqueue hinit').setTask rfl fun _ => hinit'
      · rw [if_neg fun h => hrun h.1, schedule_leave hlock' hgroup hhead (hstat ▸ hrun) hne', Tasks.switchTo, if_neg hrun]
        exact h.take inv.nodup hready
    · rw [if_pos hlock, schedule_of_lock (h.lock ▸ hlock)]
      exact h

/-! ### The timers -/

theorem setThread_toTask (hg : (g (s.thread t)).toTask = (s.thread t).toTask) (u : T) :
    ((s.setThread t g).thread u).toTask = (s.thread u).toTask := by
  by_cases hu : u = t
  · rw [hu, setThread_self, hg]
  · rw [setThread_ne hu]

theorem setThread_numberMask (hg : (g (s.thread t)).numberMask = (s.thread t).numberMask) (u : T) :
    ((s.setThread t g).thread u).numberMask = (s.thread u).numberMask := by
  by_cases hu : u = t
  · rw [hu, setThread_self, hg]
  · rw [setThread_ne hu]

theorem Refines.timerRemove (h : Refines s a) (hdistinct : (a.sleepers.map Prod.fst).Nodup) :
    s.timerList.erase t = (StableInsert.arrange Prod.snd (a.rouse t).sleepers).map Prod.fst := by
  have hnodup : s.timerList.Nodup := by
    rw [h.timers]
    exact ((StableInsert.arrange_perm Prod.snd a.sleepers).map Prod.fst).nodup_iff.mpr hdistinct
  rw [hnodup.erase_eq_filter, h.timers, Tasks.rouse, ← StableInsert.filter_arrange, List.filter_map]
  refine congrArg (List.map Prod.fst) (List.filter_congr fun w _ => ?_)
  rw [Function.comp_apply, Bool.eq_iff_iff, bne_iff_ne, decide_eq_true_iff]

theorem mem_rouse_map (hu : u ≠ t) : u ∈ (a.rouse t).sleepers.map Prod.fst ↔ u ∈ a.sleepers.map Prod.fst := by
  rw [List.mem_map, List.mem_map]
  refine exists_congr fun w => and_congr_left fun hw => ?_
  rw [Tasks.mem_rouse, hw]
  exact and_iff_left hu

theorem Refines.timerStop (h : Refines s a) (hdistinct : (a.sleepers.map Prod.fst).Nodup) :
    Refines (s.timerStop t) (a.rouse t) := by
  rw [Kernel.timerStop]
  split
  · refine ⟨h.tick, fun u => ?_, h.current, h.lock, h.phase, h.table, h.group, fun u hu => ?_, h.timerRemove hdistinct,
      fun w hw => ?_, fun u => ?_⟩
    · exact (setThread_toTask rfl u).trans (h.task u)
    · exact (setThread_numberMask rfl u).trans (h.mask u hu)
    · obtain ⟨hmem, hne⟩ := Tasks.mem_rouse.mp hw
      rw [setThread_ne hne]
      exact h.timeout w hmem
    · by_cases hu : u = t
      · rw [hu, setThread_self]
        exact ⟨nofun, fun hmem => absurd hmem Tasks.not_mem_rouse⟩
      · rw [setThread_ne hu, mem_rouse_map hu]
        exact h.activated u
  · rename_i hstopped
    rw [Tasks.rouse_of_not_mem (mt (h.activated t).mpr hstopped)]
    exact h

theorem lt_half_iff {x y : Nat} (hxy : x < y + Tasks.sleepMax) (hyx : y ≤ x + Tasks.sleepMax) :
    BitVec.ofNat 32 x - BitVec.ofNat 32 y < rtTickMax / 2 ↔ y ≤ x := by
  rw [BitVec.lt_def]
  exact SerialTime.sub_lt_iff (by decide) hxy hyx

omit [DecidableEq T] in
/-- Among timers that end close together the search of the code finds the place of the new one. -/
theorem timerInsert_map {timeoutTick : T → BitVec 32} {d : Nat} {q : List (T × Nat)}
    (ht : timeoutTick t = BitVec.ofNat 32 d) (hq : ∀ w ∈ q, timeoutTick w.1 = BitVec.ofNat 32 w.2)
    (hend : ∀ w ∈ q, w.2 < d + Tasks.sleepMax) (hstart : ∀ w ∈ q, d < w.2 + Tasks.sleepMax) :
    timerInsert timeoutTick t (q.map Prod.fst) = (StableInsert.insert Prod.snd (t, d) q).map Prod.fst := by
  induction q with
  | nil => rfl
  | cons w q ih =>
    have hw := List.mem_cons_self (a := w) (l := q)
    have hrest := ih (fun x hx => hq x (List.mem_cons_of_mem w hx)) (fun x hx => hend x (List.mem_cons_of_mem w hx))
      fun x hx => hstart x (List.mem_cons_of_mem w hx)
    have hsmall : Tasks.sleepMax ≤ 2 ^ 32 := by decide
    have hzero : BitVec.ofNat 32 w.2 - BitVec.ofNat 32 d = 0 ↔ w.2 = d := SerialTime.sub_eq_zero_iff
      ((hend w hw).trans_le (Nat.add_le_add_left hsmall d)) ((hstart w hw).trans_le (Nat.add_le_add_left hsmall w.2))
    have hlater := lt_half_iff (hend w hw) (hstart w hw).le
    rw [List.map_cons, timerInsert, hq w hw, ht, StableInsert.insert]
    by_cases heq : w.2 = d
    · rw [if_pos (hzero.mpr heq), hrest, if_neg (Nat.not_lt.mpr heq.le), List.map_cons]
    · rw [if_neg (mt hzero.mp heq)]
      by_cases hlt : d < w.2
      · rw [if_pos (hlater.mpr hlt.le), if_pos hlt, List.map_cons, List.map_cons]
      · rw [if_neg fun hle => heq (Nat.le_antisymm (Nat.not_lt.mp hlt) (hlater.mp hle)), if_neg hlt, hrest, List.map_cons]

/-- What is left of the three updates of the timer. -/
theorem timerStart_eq (t : T) (tick : BitVec 32) (s : Kernel T) :
    (s.setThread t fun th => { th with timer := { th.timer with initTick := tick } }).timerStart t =
      { s with
        thread := Function.update s.thread t { s.thread t with timer := ⟨true, s.tick + tick, tick⟩ }
        timerList := timerInsert (fun u => if u = t then s.tick + tick else (s.thread u).timer.timeoutTick) t
          (s.timerList.erase t) } := by
  have hthread : ∀ (th th' : Thread), Function.update (Function.update s.thread t th) t th' = Function.update s.thread t th' :=
    fun th th' => Function.update_idem ..
  rw [timerStart]
  simp only [setThread, Kernel.timerRemove, Function.update_self, hthread]
  congr 1
  refine congrArg (fun f => timerInsert f t (s.timerList.erase t)) (funext fun u => ?_)
  by_cases hu : u = t
  · rw [hu, Function.update_self, if_pos rfl]
  · rw [Function.update_of_ne hu, if_neg hu]

theorem Refines.timerStart (h : Refines s a) (inv : a.Inv) (hphase : a.phase = none) {tick : BitVec 32}
    (htick : tick < rtTickMax / 2) :
    Refines ((s.setThread a.current fun th => { th with timer := { th.timer with initTick := tick } }).timerStart a.current)
      ((a.rouse a.current).fallAsleep tick.toNat) := by
  have hend : s.tick + tick = BitVec.ofNat 32 (a.now + tick.toNat) := by
    rw [h.tick, BitVec.ofNat_add, BitVec.ofNat_toNat, BitVec.setWidth_eq]
  have hself : ∀ th, (Function.update s.thread a.current th) a.current = th := fun th => Function.update_self ..
  have hother : ∀ {u} (th), u ≠ a.current → (Function.update s.thread a.current th) u = s.thread u :=
    fun th hu => Function.update_of_ne hu ..
  rw [timerStart_eq]
  refine ⟨h.tick, fun u => ?_, h.current, h.lock, h.phase, h.table, h.group, fun u hu => ?_, ?_, fun w hw => ?_, fun u => ?_⟩
  · change (Function.update s.thread a.current _ u).toTask = _
    by_cases hu : u = a.current
    · rw [hu, hself]
      exact h.task a.current
    · rw [hother _ hu]
      exact h.task u
  · change (Function.update s.thread a.current _ u).numberMask = _
    by_cases hu' : u = a.current
    · rw [hu', hself]
      exact h.mask a.current (hu' ▸ hu)
    · rw [hother _ hu']
      exact h.mask u hu
  · change timerInsert _ _ _ = (StableInsert.arrange Prod.snd ((a.rouse a.current).sleepers ++ [_])).map Prod.fst
    rw [h.timerRemove inv.distinct, StableInsert.arrange_concat]
    have hmem : ∀ w ∈ StableInsert.arrange Prod.snd (a.rouse a.current).sleepers, w ∈ a.sleepers ∧ w.1 ≠ a.current :=
      fun w hw => Tasks.mem_rouse.mp ((StableInsert.arrange_perm _ _).mem_iff.mp hw)
    refine timerInsert_map ?_ (fun w hw => ?_) (fun w hw => ?_) fun w hw => ?_
    · rw [if_pos rfl, hend]
      rfl
    · obtain ⟨hw, hne⟩ := hmem w hw
      rw [if_neg hne]
      exact h.timeout w hw
    · exact (inv.ends w (hmem w hw).1).trans_le (Nat.add_le_add_right (Nat.le_add_right _ _) _)
    · have hle := inv.awaited w (hmem w hw).1
      rw [if_pos hphase] at hle
      exact Nat.add_lt_add_of_le_of_lt hle htick
  · rcases List.mem_append.mp hw with hw | hw
    · obtain ⟨hmem, hne⟩ := Tasks.mem_rouse.mp hw
      change (Function.update s.thread a.current _ w.1).timer.timeoutTick = _
      rw [hother _ hne]
      exact h.timeout w hmem
    · rw [List.mem_singleton.mp hw]
      change (Function.update s.thread a.current _ a.current).timer.timeoutTick = _
      rw [hself]
      exact hend
  · change (Function.update s.thread a.current _ u).timer.activated = true ↔ u ∈ (_ ++ [_]).map Prod.fst
    rw [List.map_append, List.mem_append, List.map_singleton, List.mem_singleton]
    by_cases hu : u = a.current
    · rw [hu, hself]
      exact ⟨fun _ => .inr rfl, fun _ => rfl⟩
    · rw [hother _ hu, mem_rouse_map hu, h.activated]
      exact (or_iff_left hu).symm

/-! ### The steps -/

theorem Refines.suspend (h : Refines s a) (inv : a.Inv) : Refines s.threadSuspend a.suspend := by
  have hstat : (s.thread s.currentThread).stat = (a.task a.current).stat := by rw [h.current, h.task]
  have hready : (a.task a.current).stat ≠ .ready := mt (inv.ready a.current).mpr inv.current_not_mem
  rw [threadSuspend, Tasks.suspend]
  by_cases hrun : (a.task a.current).stat = .running
  · rw [if_pos (.inr (hstat.trans hrun)), if_pos hrun]
    have hinit : (a.task a.current).stat ≠ .init := by rw [hrun]; rintro ⟨⟩
    have hremove := h.removeThread inv.nodup hinit
    rw [List.erase_of_not_mem inv.current_not_mem] at hremove
    have hset : Refines ((s.scheduleRemoveThread a.current).setTask a.current fun k => { k with stat := .suspend })
        (a.setTask a.current fun k => { k with stat := .suspend }) := hremove.setTask rfl fun _ => hinit
    rw [h.current]
    exact hset.timerStop inv.distinct
  · rw [if_neg (not_or.mpr ⟨hstat ▸ hready, hstat ▸ hrun⟩), if_neg hrun]
    exact h

theorem Refines.sleep (h : Refines s a) (inv : a.Inv) (hphase : a.phase = none) {tick : BitVec 32}
    (htick : tick < rtTickMax / 2) : ∃ s', s.threadSleep tick = some s' ∧ Refines s' (a.sleep tick.toNat) := by
  have hset : Refines (s.setTask a.current fun k => { k with timedOut := false })
      (a.setTask a.current fun k => { k with timedOut := false }) := h.setTask rfl id
  have inv' : (a.setTask a.current fun k => { k with timedOut := false }).Inv := inv.setTask rfl
  have hsuspend := hset.suspend inv'
  have hstart := hsuspend.timerStart inv'.suspend (Tasks.suspend_phase.trans hphase) htick
  rw [show (a.setTask a.current fun k => { k with timedOut := false }).suspend.current = a.current from
    Tasks.suspend_current] at hstart
  refine ⟨_, ?_, hstart⟩
  rw [threadSleep, if_pos htick, h.current]

theorem Refines.resume (h : Refines s a) (inv : a.Inv) (t : T) : Refines (s.threadResume t) (a.resume t) := by
  rw [threadResume, Tasks.resume, h.task]
  split
  · rename_i hstat
    have hmem : t ∉ a.queue := inv.not_mem_queue (by rw [hstat]; rintro ⟨⟩)
    rw [h.unlink hmem]
    refine (h.timerStop inv.distinct).insertThread ?_
    rw [Tasks.rouse_task, hstat]
    rintro ⟨⟩
  · exact h

/-- A thread that is in no queue gets the mask of its priority. -/
theorem Refines.setMask (h : Refines s a) (ht : t ∉ a.queue) (f : Task → Task) :
    Refines (s.setThread t fun th => ⟨f th.toTask, 1#32 <<< (f th.toTask).currentPriority.val, th.timer⟩) (a.setTask t f) := by
  have hqueue : ∀ u ∈ a.queue, ((a.setTask t f).task u) = a.task u := fun u hu =>
    Tasks.setTask_ne fun heq => ht (heq ▸ hu)
  refine ⟨h.tick, fun u => ?_, h.current, h.lock, h.phase, fun p => ?_, fun p => ?_, fun u hu => ?_, h.timers,
    fun w hw => ?_, fun u => ?_⟩
  · by_cases hu : u = t
    · rw [hu, setThread_self, Tasks.setTask_self, h.task]
    · rw [setThread_ne hu, Tasks.setTask_ne hu, h.task]
  · exact (h.table p).trans (List.filter_congr fun u hu => by rw [hqueue u hu])
  · refine (h.group p).trans (exists_congr fun u => and_congr_right fun hu => ?_)
    rw [hqueue u hu]
  · by_cases hut : u = t
    · rw [hut, setThread_self, Tasks.setTask_self, h.task]
    · rw [Tasks.setTask_ne hut] at hu
      rw [setThread_ne hut, Tasks.setTask_ne hut]
      exact h.mask u hu
  · by_cases hwt : w.1 = t
    · rw [hwt, setThread_self, ← hwt]
      exact h.timeout w hw
    · rw [setThread_ne hwt]
      exact h.timeout w hw
  · by_cases hu : u = t
    · rw [hu, setThread_self]
      exact h.activated t
    · rw [setThread_ne hu]
      exact h.activated u

theorem admitTask_setStat (stat : ThreadStat) :
    (a.setTask t fun k => { k with stat := stat }).admitTask t = a.admitTask t := by
  have hcur : (a.setTask t fun k => { k with stat := stat }).current = a.current := rfl
  rw [Tasks.admitTask, Tasks.admitTask, hcur]
  split
  · exact setTask_setTask
  · exact setTask_setTask (a := a.enqueue t) (f := fun k => { k with stat := stat })

theorem admitTask_of_ready (hne : t ≠ a.current) (hready : (a.task t).stat = .ready) : a.admitTask t = a.enqueue t := by
  rw [Tasks.admitTask, if_neg hne]
  exact setTask_eq_self (a := a.enqueue t) (by change ({ a.task t with stat := .ready } : Task) = a.task t; rw [← hready])

theorem Refines.startup (h : Refines s a) (inv : a.Inv) (hstat : (a.task t).stat = .init) :
    ∃ s', s.threadStartup t = some s' ∧ Refines s' (a.admitTask t) := by
  have hmem : t ∉ a.queue := inv.not_mem_queue (by rw [hstat]; rintro ⟨⟩)
  have hawake : t ∉ a.sleepers.map Prod.fst := inv.not_sleeper (by rw [hstat]; rintro ⟨⟩)
  have hset := h.setMask hmem fun k => { k with stat := .suspend }
  have hstop := hset.timerStop (t := t) inv.distinct
  rw [Tasks.rouse_of_not_mem (show t ∉ (a.setTask t _).sleepers.map Prod.fst from hawake)] at hstop
  have hinsert := hstop.insertThread (t := t) (by rw [Tasks.setTask_self]; rintro ⟨⟩)
  rw [admitTask_setStat] at hinsert
  refine ⟨_, ?_, hinsert⟩
  rw [threadStartup, if_pos (by rw [h.task, hstat]), threadResume, if_pos (by rw [setThread_self])]
  exact congrArg some (congrArg (fun s => scheduleInsertThread t (Kernel.timerStop t s)) (hset.unlink hmem))

theorem Refines.changePriority (h : Refines s a) (inv : a.Inv) (t : T) (priority : Fin 32) :
    Refines (s.changePriority t priority) (a.changePriority t priority) := by
  rw [Kernel.changePriority, Tasks.changePriority, h.task]
  split
  · rename_i hready
    have hne : t ≠ a.current := fun heq => inv.current_not_mem (heq ▸ (inv.ready t).mpr hready)
    have hremove := h.removeThread (t := t) inv.nodup (by rw [hready]; rintro ⟨⟩)
    have hset := hremove.setMask (t := t) inv.nodup.not_mem_erase fun k => { k with currentPriority := priority }
    have hinsert := hset.insertThread (t := t) (by
      rw [Tasks.setTask_self]
      intro heq
      cases hready.symm.trans heq)
    have hjoin : Tasks.admitTask t (Tasks.setTask t (fun k => { k with currentPriority := priority })
        { a with queue := a.queue.erase t }) = (a.requeue t).setTask t fun k => { k with currentPriority := priority } :=
      admitTask_of_ready hne (by rw [Tasks.setTask_self]; exact hready)
    rwa [hjoin] at hinsert
  · rename_i hready
    exact h.setMask (inv.not_mem_queue hready) fun k => { k with currentPriority := priority }

theorem Refines.wake (h : Refines s a) (inv : a.Inv) (hstat : (a.task t).stat = .suspend) :
    ∃ s', (s.timerStop t).threadTimeout t = some s' ∧ Refines s' (a.wake t) := by
  have hstop := h.timerStop (t := t) inv.distinct
  have hset : Refines ((s.timerStop t).setTask t fun k => { k with timedOut := true })
      ((a.setTask t fun k => { k with timedOut := true }).rouse t) := hstop.setTask rfl id
  have inv' : ((a.setTask t fun k => { k with timedOut := true }).rouse t).Inv := (inv.setTask rfl).rouse t
  have hstat' : (((a.setTask t fun k => { k with timedOut := true }).rouse t).task t).stat = .suspend := by
    rw [Tasks.rouse_task, Tasks.setTask_self]
    exact hstat
  have hunlink := hset.unlink (inv'.not_mem_queue (by rw [hstat']; rintro ⟨⟩))
  refine ⟨_, ?_, (hset.insertThread (by rw [hstat']; rintro ⟨⟩)).schedule (inv'.admitTask (.inl hstat') Tasks.not_mem_rouse)⟩
  rw [threadTimeout, hstop.task, Tasks.rouse_task, if_pos hstat, hunlink]

omit [DecidableEq T] in
theorem due_of_arrange {w : T × Nat} {q : List (T × Nat)} (harrange : StableInsert.arrange Prod.snd a.sleepers = w :: q) :
    (w.2 ≤ a.now → ∃ l, a.due = w.1 :: l) ∧ (a.now < w.2 → a.due = []) := by
  have hsorted := StableInsert.sorted_arrange Prod.snd a.sleepers
  rw [harrange] at hsorted
  rw [Tasks.due, harrange]
  constructor
  · intro hle
    rw [List.filter_cons, if_pos (decide_eq_true hle)]
    exact ⟨_, rfl⟩
  · intro hlt
    rw [List.map_eq_nil_iff, List.filter_eq_nil_iff]
    intro x hx hle
    have hx' : w.2 ≤ x.2 := by
      rcases List.mem_cons.mp hx with rfl | hx
      · exact Nat.le_refl _
      · exact (List.pairwise_cons.mp hsorted).1 x hx
    exact Nat.not_le.mpr hlt (hx'.trans (of_decide_eq_true hle))

/-- The loop takes the due timers off the list one by one, and the first that is not due ends it. -/
theorem Refines.timerCheckLoop (h : Refines s a) (inv : a.Inv) {l : List T} (hdue : a.due = l) {fuel : Nat}
    (hfuel : l.length ≤ fuel) : ∃ s', timerCheckLoop fuel s = some s' ∧ Refines s' (l.foldl Tasks.wake a) := by
  induction l generalizing s a fuel with
  | nil =>
    cases fuel with
    | zero => exact ⟨s, rfl, h⟩
    | succ fuel =>
      refine ⟨s, ?_, h⟩
      rw [Kernel.timerCheckLoop, h.timers]
      cases harrange : StableInsert.arrange Prod.snd a.sleepers with
      | nil => rfl
      | cons w q =>
        have hmem : w ∈ a.sleepers := (StableInsert.arrange_perm Prod.snd _).mem_iff.mp (harrange ▸ List.mem_cons_self)
        have hlt : a.now < w.2 := by
          by_contra hle
          obtain ⟨l, hl⟩ := (due_of_arrange harrange).1 (Nat.not_lt.mp hle)
          cases hdue.symm.trans hl
        rw [List.map_cons]
        dsimp only
        rw [h.timeout w hmem, h.tick, if_neg]
        rw [lt_half_iff (hlt.trans_le (Nat.le_add_right _ _)) (inv.ends w hmem).le]
        exact Nat.not_le.mpr hlt
  | cons t l ih =>
    obtain ⟨fuel, rfl⟩ : ∃ n, fuel = n + 1 := Nat.exists_eq_succ_of_ne_zero (Nat.pos_iff_ne_zero.mp (Nat.zero_lt_of_lt hfuel))
    cases harrange : StableInsert.arrange Prod.snd a.sleepers with
    | nil =>
      rw [Tasks.due, harrange] at hdue
      cases hdue
    | cons w q =>
      have hmem : w ∈ a.sleepers := (StableInsert.arrange_perm Prod.snd _).mem_iff.mp (harrange ▸ List.mem_cons_self)
      have hle : w.2 ≤ a.now := by
        by_contra hlt
        cases hdue.symm.trans ((due_of_arrange harrange).2 (Nat.not_le.mp hlt))
      obtain ⟨l', hl'⟩ := (due_of_arrange harrange).1 hle
      have ht : t = w.1 := (List.cons.inj (hdue.symm.trans hl')).1
      subst ht
      obtain ⟨s', hs', href⟩ := h.wake inv (inv.asleep w hmem)
      obtain ⟨s'', hs'', href'⟩ := ih href (inv.wake (inv.asleep w hmem)) (Tasks.due_wake inv hdue)
        (Nat.le_of_succ_le_succ hfuel)
      refine ⟨s'', ?_, href'⟩
      have hstarted : (s.thread w.1).timer.activated = true := (h.activated w.1).mpr (List.mem_map.mpr ⟨w, hmem, rfl⟩)
      have hnear : a.now < w.2 + Tasks.sleepMax := by
        have hawaited := inv.awaited w hmem
        refine hawaited.trans_lt (Nat.add_lt_add_left ?_ _)
        split <;> decide
      rw [Kernel.timerStop, if_pos hstarted] at hs'
      rw [Kernel.timerCheckLoop, h.timers, harrange, List.map_cons]
      dsimp only
      rw [h.timeout w hmem, h.tick, if_pos ((lt_half_iff hnear (inv.ends w hmem).le).mpr hle), hs', Option.bind_some]
      exact hs''

theorem Refines.timerCheck (h : Refines s a) (inv : a.Inv) :
    ∃ s', s.timerCheck = some s' ∧ Refines s' (a.due.foldl Tasks.wake a) := by
  refine h.timerCheckLoop inv rfl ?_
  rw [h.timers, List.length_map, Tasks.due, List.length_map]
  exact List.length_filter_le _ _

theorem tickIncrease_eq (s : Kernel T) : s.tickIncrease =
    { s.setTask s.currentThread Task.useTick with
      tick := s.tick + 1
      phase := some (if (s.thread s.currentThread).remainingTick - 1 = 0 then .schedule else .check) } := by
  by_cases hused : (s.thread s.currentThread).remainingTick - 1 = 0
  · simp only [tickIncrease, Kernel.setTask, setThread, Function.update_self, Function.update_idem, Task.useTick, hused, if_true]
  · simp only [tickIncrease, Kernel.setTask, setThread, Function.update_self, Task.useTick, hused, if_false]

theorem Refines.tickIncrease (h : Refines s a) : Refines s.tickIncrease a.tick := by
  have hset : Refines (s.setTask a.current Task.useTick) (a.setTask a.current Task.useTick) :=
    h.setTask (by rw [Task.useTick]; split <;> rfl) fun hstat => by rwa [Task.useTick_stat] at hstat
  have htick : s.tick + 1 = BitVec.ofNat 32 (a.now + 1) := by
    rw [h.tick, BitVec.ofNat_add]
    rfl
  rw [tickIncrease_eq, h.current, h.task]
  exact ⟨htick, hset.task, hset.current, hset.lock, rfl, hset.table, hset.group, hset.mask, hset.timers, hset.timeout,
    hset.activated⟩

/-- The kernel and what it is for, with what holds of it between two steps. -/
def Follows (s : Kernel T) (a : Tasks T) : Prop := Refines s a ∧ a.Inv

omit [DecidableEq T] in
theorem rel_ite {p p' : Prop} [Decidable p] [Decidable p'] (hp : p ↔ p') {x : Option (Kernel T)} {y : Option (Tasks T)}
    (hxy : p' → Option.Rel Follows x y) : Option.Rel Follows (if p then x else none) (if p' then y else none) := by
  by_cases h : p'
  · rw [if_pos h, if_pos (hp.mpr h)]
    exact hxy h
  · rw [if_neg h, if_neg (mt hp.mp h)]
    exact .none

/-- The kernel can do a step when its purpose allows it, and no assertion of the code fails. -/
theorem Follows.step (h : Follows s a) (l : KernelLabel T) : Option.Rel Follows (s.step l) (a.step l) := by
  obtain ⟨href, inv⟩ := h
  have hidle : s.phase = none ↔ a.phase = none := by rw [href.phase]
  cases l with
  | startup t =>
    change Option.Rel Follows (if s.phase = none then s.threadStartup t else none)
      (if a.phase = none ∧ (a.task t).stat = .init then some (a.admitTask t) else none)
    rw [ite_and]
    refine rel_ite hidle fun _ => ?_
    split
    · rename_i hstat
      obtain ⟨s', hs', href'⟩ := href.startup inv hstat
      rw [hs']
      exact .some ⟨href', inv.admitTask (.inr hstat) (inv.not_sleeper (by rw [hstat]; rintro ⟨⟩))⟩
    · rename_i hstat
      rw [threadStartup, href.task, if_neg hstat]
      exact .none
  | suspend => exact rel_ite hidle fun _ => .some ⟨href.suspend inv, inv.suspend⟩
  | sleep tick =>
    change Option.Rel Follows (if s.phase = none then s.threadSleep tick else none)
      (if a.phase = none ∧ tick < rtTickMax / 2 then some (a.sleep tick.toNat) else none)
    rw [ite_and]
    refine rel_ite hidle fun hphase => ?_
    split
    · rename_i htick
      obtain ⟨s', hs', href'⟩ := href.sleep inv hphase htick
      rw [hs']
      exact .some ⟨href', inv.sleep htick⟩
    · rw [threadSleep, if_neg ‹_›]
      exact .none
  | woken =>
    refine rel_ite hidle fun _ => .some ⟨?_, inv.setTask rfl⟩
    rw [threadWoken, href.current]
    exact href.setTask rfl id
  | resume t => exact .some ⟨href.resume inv t, inv.resume t⟩
  | schedule => exact .some ⟨href.schedule inv, inv.schedule⟩
  | yield =>
    refine rel_ite hidle fun _ => .some ⟨?_, (inv.setTask rfl).schedule⟩
    rw [threadYield, href.current]
    exact (href.setTask rfl id).schedule (inv.setTask rfl)
  | changePriority t priority =>
    exact rel_ite hidle fun _ => .some ⟨href.changePriority inv t priority, inv.changePriority t priority⟩
  | enterCritical =>
    refine rel_ite hidle fun _ => .some ⟨?_, inv.of_stat (fun _ => rfl) rfl rfl rfl rfl rfl⟩
    exact { href with lock := congrArg (· + 1) href.lock }
  | exitCritical =>
    refine rel_ite hidle fun _ => .some ⟨?_, inv.of_stat (fun _ => rfl) rfl rfl rfl rfl rfl⟩
    exact { href with lock := congrArg (· - 1) href.lock }
  | tick => exact rel_ite hidle fun hphase => .some ⟨href.tickIncrease, inv.tick hphase⟩
  | tickSchedule =>
    refine rel_ite (by rw [href.phase]) fun hphase => .some ⟨{ href.schedule inv with phase := rfl }, ?_⟩
    exact inv.step (l := .tickSchedule) (if_pos hphase)
  | timerCheck =>
    refine rel_ite (by rw [href.phase]) fun hphase => ?_
    obtain ⟨s', hs', href'⟩ := href.timerCheck inv
    rw [hs']
    exact .some ⟨{ href' with phase := rfl }, inv.timerCheck⟩

variable {main idle : T}

theorem follows_start (hne : main ≠ idle) (now : Nat) (priority : T → Fin 32) (slice : T → BitVec 32) :
    Follows (start (BitVec.ofNat 32 now) main idle priority slice) (.start now main idle priority slice) := by
  refine ⟨⟨rfl, fun _ => rfl, rfl, rfl, rfl, fun p => ?_, fun p => ?_, fun t ht => ?_, rfl, nofun, fun t => ⟨nofun, nofun⟩⟩,
    ⟨⟨List.nodup_singleton idle, fun t => ?_, fun t ht => ?_, nofun, List.nodup_nil, nofun, nofun⟩, .inl (if_pos rfl)⟩⟩
  · change (if p = priority idle then [idle] else []) = [idle].filter fun t => priority t = p
    rw [List.filter_singleton]
    by_cases hp : p = priority idle
    · rw [if_pos hp, decide_eq_true hp.symm]
      rfl
    · rw [if_neg hp, decide_eq_false (Ne.symm hp)]
      rfl
  · change (1#32 <<< (priority idle).val).getLsbD p.val = true ↔ ∃ t ∈ [idle], priority t = p
    rw [getLsbD_one_shiftLeft, decide_eq_true_iff]
    simp only [List.mem_singleton, exists_eq_left]
    exact eq_comm
  · change (if t = main ∨ t = idle then 1#32 <<< (priority t).val else 0) = _
    refine if_pos ?_
    by_contra hnot
    obtain ⟨hmain, hidle⟩ := not_or.mp hnot
    exact ht ((if_neg hmain).trans (if_neg hidle))
  · change t ∈ [idle] ↔ (if t = main then _ else _) = _
    rw [List.mem_singleton]
    by_cases hmain : t = main
    · rw [if_pos hmain, hmain]
      exact ⟨fun h => absurd h hne, nofun⟩
    · rw [if_neg hmain]
      by_cases hidle : t = idle
      · rw [if_pos hidle]
        exact ⟨fun _ => rfl, fun _ => hidle⟩
      · rw [if_neg hidle]
        exact ⟨fun h => absurd h hidle, nofun⟩
  · by_contra hmain
    change t ≠ main at hmain
    change (if t = main then ThreadStat.running else if t = idle then .ready else .init) = _ at ht
    rw [if_neg hmain] at ht
    split at ht <;> cases ht

theorem follows_exec (hne : main ≠ idle) (now : Nat) (priority : T → Fin 32) (slice : T → BitVec 32)
    (ls : List (KernelLabel T)) :
    Option.Rel Follows (exec step (start (BitVec.ofNat 32 now) main idle priority slice) ls)
      (exec Tasks.step (.start now main idle priority slice) ls) :=
  exec_rel (fun _ _ l h => Follows.step h l) (follows_start hne now priority slice) ls

omit [DecidableEq T] in
theorem rel_imp {R R' : Kernel T → Tasks T → Prop} (himp : ∀ s a, R s a → R' s a) {x : Option (Kernel T)} {y : Option (Tasks T)}
    (hxy : Option.Rel R x y) : Option.Rel R' x y := by
  cases hxy with
  | none => exact .none
  | some h => exact .some (himp _ _ h)

/-- Whatever the threads and the interrupts do, the kernel goes through the steps of one queue of ready threads and of one
    list of sleepers, on a clock that does not wrap, and its assertions fail for no other calls than a start of a thread
    that was started and a sleep that is too long. The lock of the scheduler is nested less than 2 ^ 15 deep. -/
theorem scheduler_refines (hne : main ≠ idle) (now : Nat) (priority : T → Fin 32) (slice : T → BitVec 32)
    (ls : List (KernelLabel T)) :
    Option.Rel Refines (exec step (start (BitVec.ofNat 32 now) main idle priority slice) ls)
      (exec Tasks.step (.start now main idle priority slice) ls) :=
  rel_imp (fun _ _ => And.left) (follows_exec hne now priority slice ls)

/-- The main thread, the idle thread and another one, at the priorities 10, 31 and 5. -/
def threePriorities : Option Bool → Fin 32
  | none => ⟨10, by decide⟩
  | some false => Fin.last 31
  | some true => ⟨5, by decide⟩

/-- The third thread is started, preempts the main thread, sleeps over the wrap of the tick and preempts it again. -/
def preemptingRun : List (KernelLabel (Option Bool)) :=
  [.startup (some true), .schedule, .sleep 2#32, .schedule, .tick, .timerCheck, .tick, .timerCheck]

theorem scheduler_refines_preempts :
    ∃ s a, exec step (start (BitVec.ofNat 32 (2 ^ 32 - 1)) none (some false) threePriorities fun _ => 10#32) preemptingRun =
        some s ∧
      exec Tasks.step (.start (2 ^ 32 - 1) none (some false) threePriorities fun _ => 10#32) preemptingRun = some a ∧
      s.Refines a ∧ a.now = 2 ^ 32 + 1 ∧ a.current = some true := by
  have hrel := scheduler_refines (show (none : Option Bool) ≠ some false from nofun) (2 ^ 32 - 1) threePriorities (fun _ => 10#32) preemptingRun
  obtain ⟨a, ha, hnow, hcur⟩ := exists_of_any (P := fun a : Tasks (Option Bool) => a.now = 2 ^ 32 + 1 ∧ a.current = some true)
    (o := exec Tasks.step (.start (2 ^ 32 - 1) none (some false) threePriorities fun _ => 10#32) preemptingRun) (by decide +kernel)
  rw [ha] at hrel
  generalize hs : exec step (start (BitVec.ofNat 32 (2 ^ 32 - 1)) none (some false) threePriorities fun _ => 10#32)
    preemptingRun = o at hrel
  cases hrel with
  | some h => exact ⟨_, a, rfl, ha, h, hnow, hcur⟩

end Kernel

end RodActuator.Rtos
