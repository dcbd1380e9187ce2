import RodActuator.Rtos.Scheduler

/-! Runs of the threads: the scheduler lets a thread of the highest priority run, and a thread sleeps as many ticks as it
    asked for. -/

namespace RodActuator.Rtos
open Transition

/-- The call suspends the current thread. -/
def KernelLabel.blocks {T : Type*} : KernelLabel T → Bool
  | .suspend | .sleep _ => true
  | _ => false

namespace Tasks
variable {T : Type*} [DecidableEq T] {a b : Tasks T} {t u next : T} {f : Task → Task} {l : KernelLabel T}

/-! ### A thread that is awake -/

def Awake (a : Tasks T) (t : T) : Prop := (a.task t).stat = .ready ∨ (a.task t).stat = .running

theorem Awake.setTask (h : a.Awake t) (hf : (f (a.task u)).stat = (a.task u).stat) : (a.setTask u f).Awake t := by
  rw [Awake, setTask_stat hf]
  exact h

theorem Awake.of_set (hf : (f (a.task u)).stat = .ready ∨ (f (a.task u)).stat = .running) (h : t = u ∨ a.Awake t) :
    (a.setTask u f).Awake t := by
  by_cases hu : t = u
  · rw [Awake, hu, setTask_self]
    exact hf
  · rw [Awake, setTask_ne hu]
    exact h.resolve_left hu

theorem Awake.admitTask (h : t = u ∨ a.Awake t) : (a.admitTask u).Awake t := by
  rw [Tasks.admitTask]
  split
  · exact Awake.of_set (.inr rfl) h
  · exact Awake.of_set (a := a.enqueue u) (.inl rfl) h

theorem Awake.take (h : a.Awake t) : (a.take next).Awake t :=
  Awake.of_set (a := { a with queue := a.queue.erase next, current := next }) (.inr rfl) (.inr h)

theorem Awake.schedule (h : a.Awake t) : a.schedule.Awake t := by
  rw [Tasks.schedule]
  split
  · exact h
  · split
    · exact h
    · split
      · exact h.setTask rfl
      · rw [switchTo]
        split
        · exact Awake.take (Awake.of_set (a := a.enqueue a.current) (.inl rfl) (.inr h))
        · exact h.take

theorem Awake.resume (h : a.Awake t) (u : T) : (a.resume u).Awake t := by
  rw [Tasks.resume]
  split
  · exact Awake.admitTask (a := a.rouse u) (.inr h)
  · exact h

theorem Awake.wake (h : t = u ∨ a.Awake t) : (a.wake u).Awake t := by
  refine Awake.schedule (Awake.admitTask ?_)
  refine h.imp id fun h => ?_
  exact Awake.setTask (a := a) (f := fun k => { k with timedOut := true }) h rfl

theorem Awake.foldl_wake {l : List T} (h : t ∈ l ∨ a.Awake t) : (l.foldl Tasks.wake a).Awake t := by
  induction l generalizing a with
  | nil => exact h.resolve_left List.not_mem_nil
  | cons u l ih =>
    refine ih ?_
    rcases h with hmem | h
    · rcases List.mem_cons.mp hmem with rfl | hmem
      · exact .inr (Awake.wake (.inl rfl))
      · exact .inl hmem
    · exact .inr (Awake.wake (.inr h))

theorem Awake.suspend (h : a.Awake t) (hne : a.current ≠ t) : a.suspend.Awake t := by
  rw [Tasks.suspend]
  split
  · rw [Awake, rouse_task, setTask_ne hne.symm]
    exact h
  · exact h

/-- Only by its own call does a thread fall asleep. -/
theorem Awake.step (h : a.Awake t) (hl : l.blocks = true → a.current ≠ t) (hstep : a.step l = some b) : b.Awake t := by
  cases l with
  | startup u =>
    obtain ⟨-, ⟨⟩⟩ := Option.ite_none_right_eq_some.mp hstep
    exact Awake.admitTask (.inr h)
  | suspend =>
    obtain ⟨-, ⟨⟩⟩ := Option.ite_none_right_eq_some.mp hstep
    exact h.suspend (hl rfl)
  | sleep tick =>
    obtain ⟨-, ⟨⟩⟩ := Option.ite_none_right_eq_some.mp hstep
    exact Awake.suspend (a := a.setTask a.current fun k => { k with timedOut := false }) (h.setTask rfl) (hl rfl)
  | woken =>
    obtain ⟨-, ⟨⟩⟩ := Option.ite_none_right_eq_some.mp hstep
    exact h.setTask rfl
  | resume u =>
    cases hstep
    exact h.resume u
  | schedule =>
    cases hstep
    exact h.schedule
  | yield =>
    obtain ⟨-, ⟨⟩⟩ := Option.ite_none_right_eq_some.mp hstep
    exact (h.setTask rfl).schedule
  | changePriority u priority =>
    obtain ⟨-, ⟨⟩⟩ := Option.ite_none_right_eq_some.mp hstep
    rw [Tasks.changePriority]
    split
    · exact Awake.setTask (a := a.requeue u) h rfl
    · exact h.setTask rfl
  | enterCritical =>
    obtain ⟨-, ⟨⟩⟩ := Option.ite_none_right_eq_some.mp hstep
    exact h
  | exitCritical =>
    obtain ⟨-, ⟨⟩⟩ := Option.ite_none_right_eq_some.mp hstep
    exact h
  | tick =>
    obtain ⟨-, ⟨⟩⟩ := Option.ite_none_right_eq_some.mp hstep
    exact h.setTask (Task.useTick_stat _)
  | tickSchedule =>
    obtain ⟨-, ⟨⟩⟩ := Option.ite_none_right_eq_some.mp hstep
    exact h.schedule
  | timerCheck =>
    obtain ⟨-, ⟨⟩⟩ := Option.ite_none_right_eq_some.mp hstep
    exact Awake.foldl_wake (.inr h)

/-! ### The highest priority -/

/-- The scheduler lets a thread run of which no ready one has a higher priority, as long as any thread is awake. -/
theorem Inv.schedule_highest (h : Inv a) (hlock : a.lock = 0) (hawake : a.Awake u) :
    (a.schedule.task a.schedule.current).stat = .running ∧
      ∀ t ∈ a.schedule.queue, a.schedule.priority a.schedule.current ≤ a.schedule.priority t := by
  rw [Tasks.schedule]
  split
  · -- Nobody is ready, so the one who is awake runs.
    rename_i hfront
    have hnil : a.queue = [] := List.argmin_eq_none.mp hfront
    have hrun : (a.task u).stat = .running := hawake.resolve_left fun hready => by
      have hmem := (h.ready u).mpr hready
      rw [hnil] at hmem
      cases hmem
    refine ⟨(h.running u hrun) ▸ hrun, fun t ht => ?_⟩
    rw [hnil] at ht
    cases ht
  · rename_i next hfront
    have hfirst : ∀ t ∈ a.queue, a.priority next ≤ a.priority t := fun t ht => front_le hfront ht
    rw [if_neg (not_not.mpr hlock)]
    split
    · rename_i hkeep
      obtain ⟨hrun, hkeep⟩ := hkeep
      refine ⟨(setTask_stat (t := a.current) (f := fun k => { k with yield := false }) rfl _).trans hrun, fun t ht => ?_⟩
      have hle : a.priority a.current ≤ a.priority next := hkeep.elim Nat.le_of_lt fun heq => heq.1.le
      rw [setTask_priority rfl, setTask_priority rfl]
      exact hle.trans (hfirst t ht)
    · rename_i hkeep
      have hself : ∀ b : Tasks T, ((b.take next).task (b.take next).current).stat = .running := fun b => by
        change ((Tasks.setTask next _ _).task next).stat = _
        rw [setTask_self]
      have hprio : ∀ (b : Tasks T) (t : T), (b.take next).priority t = b.priority t := fun b t => setTask_priority rfl t
      rw [Tasks.switchTo]
      split
      · rename_i hrun
        refine ⟨hself _, fun t ht => ?_⟩
        rw [hprio, hprio]
        change Tasks.priority (Tasks.setTask a.current _ _) next ≤ Tasks.priority (Tasks.setTask a.current _ _) t
        rw [setTask_priority rfl, setTask_priority rfl]
        rcases List.mem_append.mp (List.mem_of_mem_erase ht) with ht | ht
        · exact hfirst t ht
        · rw [List.mem_singleton.mp ht]
          exact Nat.not_lt.mp fun hlt => hkeep ⟨hrun, .inl hlt⟩
      · refine ⟨hself _, fun t ht => ?_⟩
        rw [hprio, hprio]
        exact hfirst t (List.mem_of_mem_erase ht)

/-! ### The time of a sleep -/

/-- Only a check of the timers, a resumption and its own calls take a sleeper off the list. -/
theorem mem_sleepers_step {w : T × Nat} (hw : w ∈ a.sleepers) (hcheck : l ≠ .timerCheck) (hresume : l ≠ .resume w.1)
    (hl : l.blocks = true → a.current ≠ w.1) (hstep : a.step l = some b) : w ∈ b.sleepers := by
  have hsuspend : ∀ {a : Tasks T}, w ∈ a.sleepers → a.current ≠ w.1 → w ∈ a.suspend.sleepers := fun hw hne => by
    rw [suspend]
    split
    · exact mem_rouse.mpr ⟨hw, hne.symm⟩
    · exact hw
  cases l with
  | startup u =>
    obtain ⟨-, ⟨⟩⟩ := Option.ite_none_right_eq_some.mp hstep
    rw [(admitTask_time u a).sleepers]
    exact hw
  | suspend =>
    obtain ⟨-, ⟨⟩⟩ := Option.ite_none_right_eq_some.mp hstep
    exact hsuspend hw (hl rfl)
  | sleep tick =>
    obtain ⟨-, ⟨⟩⟩ := Option.ite_none_right_eq_some.mp hstep
    refine List.mem_append_left _ (mem_rouse.mpr ⟨hsuspend hw (hl rfl), (hl rfl).symm⟩)
  | woken =>
    obtain ⟨-, ⟨⟩⟩ := Option.ite_none_right_eq_some.mp hstep
    exact hw
  | resume u =>
    cases hstep
    rw [resume]
    split
    · rw [(admitTask_time u _).sleepers]
      exact mem_rouse.mpr ⟨hw, fun heq => hresume (heq ▸ rfl)⟩
    · exact hw
  | schedule =>
    cases hstep
    rw [(schedule_time a).sleepers]
    exact hw
  | yield =>
    obtain ⟨-, ⟨⟩⟩ := Option.ite_none_right_eq_some.mp hstep
    rw [(schedule_time _).sleepers]
    exact hw
  | changePriority u priority =>
    obtain ⟨-, ⟨⟩⟩ := Option.ite_none_right_eq_some.mp hstep
    rw [changePriority]
    split <;> exact hw
  | enterCritical =>
    obtain ⟨-, ⟨⟩⟩ := Option.ite_none_right_eq_some.mp hstep
    exact hw
  | exitCritical =>
    obtain ⟨-, ⟨⟩⟩ := Option.ite_none_right_eq_some.mp hstep
    exact hw
  | tick =>
    obtain ⟨-, ⟨⟩⟩ := Option.ite_none_right_eq_some.mp hstep
    exact hw
  | tickSchedule =>
    obtain ⟨-, ⟨⟩⟩ := Option.ite_none_right_eq_some.mp hstep
    change w ∈ a.schedule.sleepers
    rw [(schedule_time a).sleepers]
    exact hw
  | timerCheck => exact absurd rfl hcheck

/-- The ticks whose timers were checked and, between a tick and its check, the tick itself. -/
def Checked (c : Nat) (a : Tasks T) : Prop := a.now = c + if a.phase = none then 0 else 1

theorem clock_step (htick : l ≠ .tick) (hschedule : l ≠ .tickSchedule) (hcheck : l ≠ .timerCheck) (hstep : a.step l = some b) :
    b.now = a.now ∧ b.phase = a.phase := by
  cases l with
  | startup u =>
    obtain ⟨-, ⟨⟩⟩ := Option.ite_none_right_eq_some.mp hstep
    exact ⟨(admitTask_time u a).now, (admitTask_time u a).phase⟩
  | suspend =>
    obtain ⟨-, ⟨⟩⟩ := Option.ite_none_right_eq_some.mp hstep
    exact ⟨suspend_now, suspend_phase⟩
  | sleep tick =>
    obtain ⟨-, ⟨⟩⟩ := Option.ite_none_right_eq_some.mp hstep
    exact ⟨suspend_now (a := a.setTask _ _), suspend_phase (a := a.setTask _ _)⟩
  | woken =>
    obtain ⟨-, ⟨⟩⟩ := Option.ite_none_right_eq_some.mp hstep
    exact ⟨rfl, rfl⟩
  | resume u =>
    cases hstep
    rw [resume]
    split
    · exact ⟨(admitTask_time u (a.rouse u)).now, (admitTask_time u (a.rouse u)).phase⟩
    · exact ⟨rfl, rfl⟩
  | schedule =>
    cases hstep
    exact ⟨(schedule_time a).now, (schedule_time a).phase⟩
  | yield =>
    obtain ⟨-, ⟨⟩⟩ := Option.ite_none_right_eq_some.mp hstep
    exact ⟨(schedule_time _).now, (schedule_time _).phase⟩
  | changePriority u priority =>
    obtain ⟨-, ⟨⟩⟩ := Option.ite_none_right_eq_some.mp hstep
    rw [changePriority]
    split <;> exact ⟨rfl, rfl⟩
  | enterCritical =>
    obtain ⟨-, ⟨⟩⟩ := Option.ite_none_right_eq_some.mp hstep
    exact ⟨rfl, rfl⟩
  | exitCritical =>
    obtain ⟨-, ⟨⟩⟩ := Option.ite_none_right_eq_some.mp hstep
    exact ⟨rfl, rfl⟩
  | tick => exact absurd rfl htick
  | tickSchedule => exact absurd rfl hschedule
  | timerCheck => exact absurd rfl hcheck

theorem Checked.step {c : Nat} (h : Checked c a) (inv : a.Inv) (hstep : a.step l = some b) :
    Checked (if l = .timerCheck then c + 1 else c) b := by
  by_cases htick : l = .tick
  · subst htick
    obtain ⟨hphase, ⟨⟩⟩ := Option.ite_none_right_eq_some.mp hstep
    rw [Checked, if_pos hphase] at h
    exact congrArg (· + 1) h
  by_cases hschedule : l = .tickSchedule
  · subst hschedule
    obtain ⟨hphase, ⟨⟩⟩ := Option.ite_none_right_eq_some.mp hstep
    rw [Checked, hphase] at h
    exact (schedule_time a).now.trans h
  by_cases hcheck : l = .timerCheck
  · subst hcheck
    obtain ⟨hphase, ⟨⟩⟩ := Option.ite_none_right_eq_some.mp hstep
    rw [Checked, hphase] at h
    exact (inv.wake_due rfl).2.1.trans h
  obtain ⟨hnow, hphase⟩ := clock_step htick hschedule hcheck hstep
  rw [if_neg hcheck, Checked, hnow, hphase]
  exact h

/-- A thread that fell asleep at `start` for `n` ticks, after `c` checks of the timers. -/
structure Sleeping (t : T) (start n c : Nat) (a : Tasks T) : Prop where
  checked : Checked (start + c) a
  asleep : c < max 1 n → (t, start + n) ∈ a.sleepers
  awake : max 1 n ≤ c → a.Awake t

theorem Sleeping.step {start n c : Nat} (h : Sleeping t start n c a) (inv : a.Inv) (hresume : l ≠ .resume t)
    (hl : l.blocks = true → a.current ≠ t) (hstep : a.step l = some b) :
    Sleeping t start n (if l = .timerCheck then c + 1 else c) b := by
  have hchecked := h.checked.step inv hstep
  by_cases hcheck : l = .timerCheck
  · subst hcheck
    rw [if_pos rfl] at hchecked ⊢
    obtain ⟨hphase, ⟨⟩⟩ := Option.ite_none_right_eq_some.mp hstep
    have hnow : a.now = start + c + 1 := by
      have hnow := h.checked
      rwa [Checked, hphase] at hnow
    refine ⟨hchecked, fun hc => ?_, fun hc => ?_⟩
    · -- There are more ticks to come.
      have hmem := h.asleep (Nat.lt_of_succ_lt hc)
      refine ((inv.wake_due rfl).2.2.2 (t, start + n)).mpr ⟨hmem, ?_⟩
      rw [hnow]
      omega
    · change (a.due.foldl Tasks.wake a).Awake t
      refine Awake.foldl_wake ?_
      rcases Nat.lt_or_ge c (max 1 n) with hlt | hge
      · exact .inl (mem_due.mpr ⟨start + n, h.asleep hlt, by omega⟩)
      · exact .inr (h.awake hge)
  · rw [if_neg hcheck] at hchecked ⊢
    exact ⟨hchecked, fun hc => mem_sleepers_step (h.asleep hc) hcheck hresume hl hstep, fun hc => (h.awake hc).step hl hstep⟩

theorem sleeping_sleep (hphase : a.phase = none) (n : Nat) : Sleeping a.current a.now n 0 (a.sleep n) := by
  have hcur : ((a.setTask a.current fun k => { k with timedOut := false }).suspend).current = a.current := suspend_current
  have hnow : ((a.setTask a.current fun k => { k with timedOut := false }).suspend).now = a.now := suspend_now
  refine ⟨?_, fun _ => ?_, fun hle => ?_⟩
  · change (Tasks.suspend _).now = a.now + 0 + if (Tasks.suspend _).phase = none then 0 else 1
    rw [hnow, suspend_phase]
    exact (if_pos hphase).symm ▸ rfl
  · refine List.mem_append_right _ (List.mem_singleton.mpr ?_)
    change _ = ((Tasks.suspend _).current, (Tasks.suspend _).now + n)
    rw [hcur, hnow]
  · exact absurd hle (by omega)

end Tasks

namespace Kernel
variable {T : Type*} [DecidableEq T] {s s' s₀ s₁ : Kernel T} {a : Tasks T} {main idle : T} {ls pre : List (KernelLabel T)}

theorem Follows.next (h : Follows s a) {l : KernelLabel T} (hstep : s.step l = some s') :
    ∃ b, a.step l = some b ∧ Follows s' b := by
  have hrel := h.step l
  rw [hstep] at hrel
  generalize a.step l = o at hrel
  cases hrel with
  | some h' => exact ⟨_, rfl, h'⟩

theorem follows_of_exec (hne : main ≠ idle) {now : Nat} {priority : T → Fin 32} {slice : T → BitVec 32}
    (hexec : exec step (start (BitVec.ofNat 32 now) main idle priority slice) ls = some s) : ∃ a, Follows s a := by
  have hrel := follows_exec hne now priority slice ls
  rw [hexec] at hrel
  generalize exec Tasks.step _ ls = o at hrel
  cases hrel with
  | some h => exact ⟨_, h⟩

/-- As long as the idle thread does not block, a call of the scheduler that is not locked lets a thread run than which no
    ready one has a higher priority, and no other thread counts as running. -/
theorem highest_priority_runs (hne : main ≠ idle) {now : Nat} {priority : T → Fin 32} {slice : T → BitVec 32}
    (run : Run step (fun s l => l.blocks = true → s.currentThread ≠ idle)
      (start (BitVec.ofNat 32 now) main idle priority slice) ls s) (hlock : s.lockNest = 0) :
    (∀ t, (s.schedule.thread t).stat = .running ↔ t = s.schedule.currentThread) ∧
      ∀ t, (s.schedule.thread t).stat = .ready →
        (s.schedule.thread s.schedule.currentThread).currentPriority ≤ (s.schedule.thread t).currentPriority := by
  obtain ⟨a, ⟨href, inv⟩, hawake⟩ : ∃ a, Follows s a ∧ a.Awake idle := by
    refine run.invariant (I := fun s => ∃ a, Follows s a ∧ a.Awake idle) ?_ fun s l s' hs hl hstep => ?_
    · exact ⟨_, follows_start hne now priority slice, .inl ((if_neg hne.symm).trans (if_pos rfl))⟩
    · obtain ⟨a, h, hawake⟩ := hs
      obtain ⟨b, hb, h'⟩ := h.next hstep
      exact ⟨b, h', hawake.step (fun hblocks => h.1.current ▸ hl hblocks) hb⟩
  have href' := href.schedule inv
  have inv' := inv.schedule
  obtain ⟨hrun, hhighest⟩ := inv.schedule_highest (href.lock ▸ hlock) hawake
  refine ⟨fun t => ⟨fun ht => ?_, fun ht => ?_⟩, fun t ht => ?_⟩
  · rw [href'.task] at ht
    rw [href'.current]
    exact inv'.running t ht
  · rw [ht, href'.current, href'.task]
    exact hrun
  · rw [href'.task] at ht
    rw [href'.current, href'.task, href'.task]
    exact hhighest t ((inv'.ready t).mpr ht)

theorem highest_priority_runs_preempts : ∃ s : Kernel (Option Bool), s.currentThread = none ∧
    s.schedule.currentThread = some true ∧ ∀ t, (s.schedule.thread t).stat = .ready →
      (s.schedule.thread s.schedule.currentThread).currentPriority ≤ (s.schedule.thread t).currentPriority := by
  obtain ⟨s, hexec, hcur, hnext, hlock⟩ := exists_of_any
    (P := fun s : Kernel (Option Bool) => s.currentThread = none ∧ s.schedule.currentThread = some true ∧ s.lockNest = 0)
    (o := exec (guarded step fun s l => l.blocks = true → s.currentThread ≠ some false)
      (start (BitVec.ofNat 32 0) none (some false) threePriorities fun _ => 10#32) [.startup (some true)]) (by decide +kernel)
  exact ⟨s, hcur, hnext, (highest_priority_runs (show (none : Option Bool) ≠ some false from nofun) (Run.of_exec hexec) hlock).2⟩

/-- A thread that sleeps for `n` ticks, less than half of `RT_TICK_MAX`, whatever the tick is, and is not resumed by another
    one wakes when the timers of the threads are checked at the `n`-th tick behind its call, or at the first if `n` is zero,
    and not before. -/
theorem sleep_on_time (hne : main ≠ idle) {now : Nat} {priority : T → Fin 32} {slice : T → BitVec 32}
    (hpre : exec step (start (BitVec.ofNat 32 now) main idle priority slice) pre = some s₀) {n : BitVec 32}
    (hsleep : s₀.step (.sleep n) = some s₁)
    (run : Run step (fun s l => l ≠ .resume s₀.currentThread ∧ (l.blocks = true → s.currentThread ≠ s₀.currentThread)) s₁ ls s) :
    (s.thread s₀.currentThread).stat = .suspend ↔ ls.count .timerCheck < max 1 n.toNat := by
  obtain ⟨a₀, h₀⟩ := follows_of_exec hne hpre
  obtain ⟨a₁, ha₁, h₁⟩ := h₀.next hsleep
  obtain ⟨⟨hphase, -⟩, ⟨⟩⟩ := Option.ite_none_right_eq_some.mp ha₁
  obtain ⟨a, h, hsleeping⟩ : ∃ a, Follows s a ∧ a.Sleeping s₀.currentThread a₀.now n.toNat (ls.count .timerCheck) := by
    rw [h₀.1.current] at run ⊢
    induction run with
    | nil => exact ⟨_, h₁, Tasks.sleeping_sleep hphase n.toNat⟩
    | @snoc ls _ _ l _ hok hstep ih =>
      obtain ⟨a, h, hsleeping⟩ := ih
      obtain ⟨b, hb, h'⟩ := h.next hstep
      refine ⟨b, h', ?_⟩
      have hnext := hsleeping.step h.2 hok.1 (fun hblocks => h.1.current ▸ hok.2 hblocks) hb
      have hcount : (ls ++ [l]).count .timerCheck =
          if l = .timerCheck then ls.count .timerCheck + 1 else ls.count .timerCheck := by
        rw [List.count_append, List.count_singleton]
        by_cases hl : l = .timerCheck
        · rw [if_pos hl, if_pos (beq_iff_eq.mpr hl)]
        · rw [if_neg hl, if_neg (mt beq_iff_eq.mp hl)]
          rfl
      rwa [hcount]
  rw [h.1.task]
  constructor
  · intro hstat
    by_contra hle
    have hawake := hsleeping.awake (Nat.not_lt.mp hle)
    rw [Tasks.Awake, hstat] at hawake
    rcases hawake with hawake | hawake <;> cases hawake
  · intro hlt
    exact h.2.asleep _ (hsleeping.asleep hlt)

/-- A sleep of two ticks over the wrap. -/
theorem sleep_on_time_wrap : ∃ s₀ s₁ s : Kernel (Option Bool), s₀.tick = 0xFFFFFFFF#32 ∧ s₀.step (.sleep 2#32) = some s₁ ∧
    s.tick = 1#32 ∧ ((s.thread s₀.currentThread).stat = .suspend ↔
      [KernelLabel.schedule, .tick, .timerCheck, .tick, .timerCheck].count (.timerCheck : KernelLabel (Option Bool)) < max 1 2) := by
  obtain ⟨s₀, hpre, htick, hrest⟩ := exists_of_any
    (P := fun s₀ : Kernel (Option Bool) => s₀.tick = 0xFFFFFFFF#32 ∧ (s₀.step (.sleep 2#32)).any fun s₁ =>
      (exec (guarded step fun s l => l ≠ .resume s₀.currentThread ∧ (l.blocks = true → s.currentThread ≠ s₀.currentThread)) s₁
        [.schedule, .tick, .timerCheck, .tick, .timerCheck]).any fun s => s.tick = 1#32)
    (o := exec step (start (BitVec.ofNat 32 (2 ^ 32 - 1)) none (some false) threePriorities fun _ => 10#32)
      [.startup (some true), .schedule]) (by decide +kernel)
  obtain ⟨s₁, hsleep, hrest⟩ := (Option.any_eq_true _ _).mp hrest
  obtain ⟨s, hexec, hwrap⟩ := (Option.any_eq_true _ _).mp hrest
  exact ⟨s₀, s₁, s, htick, hsleep, of_decide_eq_true hwrap,
    sleep_on_time (show (none : Option Bool) ≠ some false from nofun) hpre hsleep (Run.of_exec hexec)⟩

end Kernel

end RodActuator.Rtos
