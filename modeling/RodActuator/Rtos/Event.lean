import RodActuator.Lib.Transition
import RodActuator.Rtos.MessageQueue

/-! The event set of the kernel (`rt-thread/src/ipc.c`). A send adds bits and resumes every suspended thread that has
    what it waits for; a receiver that asks for it clears the bits it gets. A history of what was sent and what was
    received tells the bits that are set. -/

namespace RodActuator.Rtos
open Transition

/-- `RT_EVENT_FLAG_AND`, or else `RT_EVENT_FLAG_OR`, and `RT_EVENT_FLAG_CLEAR`. -/
structure EventOption where
  isAnd : Bool
  clear : Bool
  deriving DecidableEq, Repr

/-- The condition of a receiver. -/
def EventOption.test (option : EventOption) (want set : BitVec 32) : Bool :=
  if option.isAnd then set &&& want = want else set &&& want ≠ 0

/-- A suspended thread with its `event_set` and `event_info`. -/
structure EventWaiter (T : Type*) where
  thread : T
  want : BitVec 32
  option : EventOption
  deriving DecidableEq, Repr

/-- What was sent, and what a receiver got of the bits that it wanted. -/
inductive EventItem (T : Type*) where
  | sent (bits : BitVec 32)
  | got (thread : T) (want bits : BitVec 32) (clear : Bool)
  deriving DecidableEq, Repr

/-- `struct rt_event`, the threads that it resumed and that have not run on yet, each with the bits of its `event_set`, and
    what has happened so far. -/
structure EventSet (T : Type*) where
  set : BitVec 32
  suspended : List (EventWaiter T)
  ready : List (T × BitVec 32)
  log : List (EventItem T)
  deriving DecidableEq, Repr

def EventItem.delivery {T : Type*} : EventItem T → Option (T × BitVec 32)
  | .sent _ => none
  | .got thread _ bits _ => some (thread, bits)

inductive EventLabel (T : Type*) where
  | send (bits : BitVec 32)
  | recv (thread : T) (want : BitVec 32) (option : EventOption) (wait : Bool)
  | run (thread : T)

namespace EventSet
variable {T : Type*}

/-- The bits that receivers got, in order. -/
def got (ev : EventSet T) : List (BitVec 32) := (ev.log.filterMap EventItem.delivery).map Prod.snd

/-- `rt_event_create`. -/
def create : EventSet T := ⟨0, [], [], []⟩

/-- The loop of `rt_event_send` over the suspended threads: the bits that are left, the threads that stay suspended and
    what the others got. -/
def scan (set : BitVec 32) : List (EventWaiter T) → BitVec 32 × List (EventWaiter T) × List (EventItem T)
  | [] => (set, [], [])
  | w :: ws =>
    if w.option.test w.want set then
      let got := w.want &&& set
      let r := scan (if w.option.clear then set &&& ~~~got else set) ws
      (r.1, r.2.1, .got w.thread w.want got w.option.clear :: r.2.2)
    else
      let r := scan set ws
      (r.1, w :: r.2.1, r.2.2)

/-- `rt_event_send`; no bits are an error. -/
def send (bits : BitVec 32) (ev : EventSet T) : EventSet T :=
  if bits = 0 then ev
  else
    let r := scan (ev.set ||| bits) ev.suspended
    ⟨r.1, r.2.1, ev.ready ++ r.2.2.filterMap EventItem.delivery, ev.log ++ .sent bits :: r.2.2⟩

/-- `rt_event_recv` up to the point where the thread returns or is suspended. -/
def recv (flag : IpcFlag) (prio : T → Nat) (thread : T) (want : BitVec 32) (option : EventOption) (wait : Bool)
    (ev : EventSet T) : EventSet T :=
  if want = 0 then ev
  else if option.test want ev.set then
    { ev with
      set := if option.clear then ev.set &&& ~~~want else ev.set
      log := ev.log ++ [.got thread want (ev.set &&& want) option.clear] }
  else if wait then
    { ev with suspended := ipcListSuspend flag (fun w => prio w.thread) ⟨thread, want, option⟩ ev.suspended }
  else ev

/-- The rest of `rt_event_recv` in a thread that was resumed. -/
def runOn [DecidableEq T] (thread : T) (ev : EventSet T) : EventSet T :=
  { ev with ready := ev.ready.eraseP fun r => r.1 = thread }

/-- A thread that is suspended or has not run on yet calls nothing. -/
def step [DecidableEq T] (flag : IpcFlag) (prio : T → Nat) (ev : EventSet T) : EventLabel T → Option (EventSet T)
  | .send bits => some (ev.send bits)
  | .recv thread want option wait =>
    if (∃ w ∈ ev.suspended, w.thread = thread) ∨ ∃ r ∈ ev.ready, r.1 = thread then none
    else some (ev.recv flag prio thread want option wait)
  | .run thread => if ∃ r ∈ ev.ready, r.1 = thread then some (ev.runOn thread) else none

end EventSet

/-! ### What the history tells -/

namespace EventItem
variable {T : Type*}

def apply (pending : BitVec 32) : EventItem T → BitVec 32
  | .sent bits => pending ||| bits
  | .got _ _ bits clear => if clear then pending &&& ~~~bits else pending

/-- The bits that were sent and not cleared since. -/
def pending (log : List (EventItem T)) : BitVec 32 := log.foldl apply 0

/-- Each receiver got just the wanted bits that were pending, and not none. -/
def Justified (set : BitVec 32) : List (EventItem T) → Prop
  | [] => True
  | .sent bits :: log => Justified (set ||| bits) log
  | .got thread want bits clear :: log =>
    bits = want &&& set ∧ bits ≠ 0 ∧ Justified (apply set (.got thread want bits clear)) log

theorem justified_append {set : BitVec 32} {log log' : List (EventItem T)} :
    Justified set (log ++ log') ↔ Justified set log ∧ Justified (log.foldl apply set) log' := by
  induction log generalizing set with
  | nil => simp [Justified]
  | cons item log ih =>
    cases item with
    | sent bits => exact ih
    | got thread want bits clear =>
      simp only [List.cons_append, Justified, List.foldl_cons, ih, and_assoc]

/-- A bit that is not pending at the end was pending at none of the later points, unless it was sent in between. -/
theorem sent_of_pending {set : BitVec 32} {log : List (EventItem T)} {i : Nat}
    (hset : set.getLsbD i = false) (hend : (log.foldl apply set).getLsbD i = true) :
    ∃ bits, .sent bits ∈ log ∧ bits.getLsbD i = true := by
  induction log generalizing set with
  | nil => rw [List.foldl_nil, hset] at hend; cases hend
  | cons item log ih =>
    by_cases hstep : (apply set item).getLsbD i = true
    · cases item with
      | sent bits =>
        rw [apply, BitVec.getLsbD_or, hset, Bool.false_or] at hstep
        exact ⟨bits, List.mem_cons_self, hstep⟩
      | got thread want bits clear =>
        rw [apply] at hstep
        split at hstep
        · rw [BitVec.getLsbD_and, hset, Bool.false_and] at hstep
          cases hstep
        · rw [hset] at hstep
          cases hstep
    · obtain ⟨bits, hmem, hbit⟩ := ih (Bool.eq_false_of_not_eq_true hstep) hend
      exact ⟨bits, List.mem_cons_of_mem item hmem, hbit⟩

end EventItem

namespace EventSet
open EventItem
variable {T : Type*}

/-- The bits are those that the history leaves, every receiver got what was there for it, and no suspended thread has
    what it waits for. -/
structure Faithful (ev : EventSet T) : Prop where
  set_eq : ev.set = pending ev.log
  justified : Justified 0 ev.log
  asleep : ∀ w ∈ ev.suspended, w.want ≠ 0 ∧ w.option.test w.want ev.set = false

/-- Fewer bits satisfy no more receivers. -/
theorem test_mono {option : EventOption} {want set set' : BitVec 32}
    (hle : ∀ i, set'.getLsbD i = true → set.getLsbD i = true) (h : option.test want set = false) :
    option.test want set' = false := by
  unfold EventOption.test at h ⊢
  split
  · rename_i hand
    rw [if_pos hand] at h
    refine decide_eq_false fun hall => of_decide_eq_false h (BitVec.eq_of_getLsbD_eq fun i _ => ?_)
    have hbit := congrArg (fun b => b.getLsbD i) hall
    simp only [BitVec.getLsbD_and] at hbit ⊢
    cases hw : want.getLsbD i with
    | false => exact Bool.and_false _
    | true =>
      rw [hw, Bool.and_true] at hbit
      rw [hle i hbit, Bool.and_true]
  · rename_i hor
    rw [if_neg hor] at h
    have hzero : set &&& want = 0 := of_not_not (of_decide_eq_false h)
    refine decide_eq_false (not_not.mpr (BitVec.eq_of_getLsbD_eq fun i _ => ?_))
    have hbit := congrArg (fun b => b.getLsbD i) hzero
    simp only [BitVec.getLsbD_and] at hbit ⊢
    rw [← hbit]
    cases hs : set'.getLsbD i with
    | false => rw [Bool.false_and, hbit]; simp
    | true => rw [hle i hs]

theorem getLsbD_of_clear {set bits : BitVec 32} {i : Nat} (h : (set &&& ~~~bits).getLsbD i = true) :
    set.getLsbD i = true := by
  rw [BitVec.getLsbD_and, Bool.and_eq_true] at h
  exact h.1

theorem got_ne_zero {option : EventOption} {want set : BitVec 32} (hwant : want ≠ 0) (h : option.test want set = true) :
    want &&& set ≠ 0 := by
  rw [BitVec.and_comm]
  unfold EventOption.test at h
  split at h
  · rwa [of_decide_eq_true h]
  · exact of_decide_eq_true h

theorem and_not_and (set want : BitVec 32) : set &&& ~~~(want &&& set) = set &&& ~~~want := by
  refine BitVec.eq_of_getLsbD_eq fun i hi => ?_
  simp only [BitVec.getLsbD_and, BitVec.getLsbD_not, hi, decide_true, Bool.true_and]
  cases set.getLsbD i <;> simp

/-- What the loop of a send does to the suspended threads. -/
theorem scan_spec {set : BitVec 32} {ws : List (EventWaiter T)} (hwant : ∀ w ∈ ws, w.want ≠ 0) :
    (scan set ws).1 = (scan set ws).2.2.foldl apply set ∧ Justified set (scan set ws).2.2 ∧
      (∀ i, (scan set ws).1.getLsbD i = true → set.getLsbD i = true) ∧ (scan set ws).2.1.Sublist ws ∧
      ∀ w ∈ (scan set ws).2.1, w.option.test w.want (scan set ws).1 = false := by
  induction ws generalizing set with
  | nil => exact ⟨rfl, trivial, fun _ h => h, List.Sublist.refl _, by simp [scan]⟩
  | cons w ws ih =>
    have hrest : ∀ w ∈ ws, w.want ≠ 0 := fun w' hw' => hwant w' (List.mem_cons_of_mem w hw')
    rw [scan]
    split
    · rename_i htest
      have hset : (if w.option.clear then set &&& ~~~(w.want &&& set) else set) =
          apply set (.got w.thread w.want (w.want &&& set) w.option.clear) := rfl
      obtain ⟨heq, hjust, hle, hsub, hasleep⟩ :=
        @ih (if w.option.clear then set &&& ~~~(w.want &&& set) else set) hrest
      refine ⟨heq, ⟨rfl, got_ne_zero (hwant w List.mem_cons_self) htest, hjust⟩, fun i hi => ?_, hsub.cons w, hasleep⟩
      have hbit := hle i hi
      split at hbit
      · exact getLsbD_of_clear hbit
      · exact hbit
    · rename_i htest
      obtain ⟨heq, hjust, hle, hsub, hasleep⟩ := @ih set hrest
      refine ⟨heq, hjust, hle, hsub.cons_cons w, fun w' hw' => ?_⟩
      rcases List.mem_cons.mp hw' with rfl | hw'
      · exact test_mono hle (Bool.eq_false_of_not_eq_true htest)
      · exact hasleep w' hw'

theorem Faithful.send {ev : EventSet T} (h : Faithful ev) (bits : BitVec 32) : Faithful (ev.send bits) := by
  unfold EventSet.send
  split
  · exact h
  · obtain ⟨heq, hjust, -, hsub, hasleep⟩ := @scan_spec _ (ev.set ||| bits) _ fun w hw =>
      (h.asleep w hw).1
    have hstart : apply (pending ev.log) (.sent bits : EventItem T) = ev.set ||| bits := by rw [h.set_eq]; rfl
    refine ⟨?_, justified_append.mpr ⟨h.justified, ?_⟩, fun w hw => ⟨(h.asleep w (hsub.subset hw)).1, hasleep w hw⟩⟩
    · rw [pending, List.foldl_append, List.foldl_cons, ← pending, hstart]
      exact heq
    · show Justified (pending ev.log ||| bits) _
      rw [← h.set_eq]
      exact hjust

theorem Faithful.recv {ev : EventSet T} (h : Faithful ev) (flag : IpcFlag) (prio : T → Nat) (thread : T)
    (want : BitVec 32) (option : EventOption) (wait : Bool) : Faithful (ev.recv flag prio thread want option wait) := by
  unfold EventSet.recv
  split
  · exact h
  · rename_i hwant
    split
    · rename_i htest
      refine ⟨?_, justified_append.mpr ⟨h.justified, ?_⟩, fun w hw => ⟨(h.asleep w hw).1, ?_⟩⟩
      · rw [pending, List.foldl_append, ← pending, ← h.set_eq, BitVec.and_comm ev.set want, ← and_not_and]
        rfl
      · show _ ∧ _ ∧ _
        rw [BitVec.and_comm ev.set want, ← pending, ← h.set_eq]
        exact ⟨rfl, got_ne_zero hwant htest, trivial⟩
      · refine test_mono (fun i hi => ?_) (h.asleep w hw).2
        split at hi
        · exact getLsbD_of_clear hi
        · exact hi
    · rename_i htest
      split
      · refine ⟨h.set_eq, h.justified, fun w hw => ?_⟩
        rcases List.mem_cons.mp ((ipcListSuspend_perm _ _ _ _).mem_iff.mp hw) with rfl | hw
        · exact ⟨hwant, Bool.eq_false_of_not_eq_true htest⟩
        · exact h.asleep w hw
      · exact h

theorem Faithful.step [DecidableEq T] {flag : IpcFlag} {prio : T → Nat} {ev ev' : EventSet T} (h : Faithful ev)
    {l : EventLabel T} (hstep : ev.step flag prio l = some ev') : Faithful ev' := by
  cases l with
  | send bits =>
    cases hstep
    exact h.send bits
  | recv thread want option wait =>
    simp only [EventSet.step] at hstep
    split at hstep
    · cases hstep
    · cases hstep
      exact h.recv flag prio thread want option wait
  | run thread =>
    simp only [EventSet.step] at hstep
    split at hstep
    · cases hstep
      exact ⟨h.set_eq, h.justified, h.asleep⟩
    · cases hstep

/-- A bit that two receivers got, the first of them clearing it, was sent again in between. -/
theorem Faithful.resent {ev : EventSet T} (h : Faithful ev) {before between after : List (EventItem T)}
    {t t' : T} {want want' bits bits' : BitVec 32} {clear : Bool} {i : Nat}
    (hlog : ev.log = before ++ .got t want bits true :: (between ++ .got t' want' bits' clear :: after))
    (hbit : bits.getLsbD i = true) (hbit' : bits'.getLsbD i = true) :
    ∃ sent, .sent sent ∈ between ∧ sent.getLsbD i = true := by
  have hjust := h.justified
  rw [hlog, justified_append] at hjust
  obtain ⟨-, hjust⟩ := hjust.2.2
  obtain ⟨-, hgot, -⟩ := justified_append.mp hjust
  have hclear : (apply (before.foldl apply 0) (.got t want bits true)).getLsbD i = false := by simp [apply, hbit]
  refine sent_of_pending hclear ?_
  rw [hgot, BitVec.getLsbD_and, Bool.and_eq_true] at hbit'
  exact hbit'.2

/-- For every order of sends and receives of any threads, which wait forever or not at all: no bit that was sent is lost,
    none is got twice by receivers that clear it, and no thread sleeps on what it waits for. -/
theorem event_faithful [DecidableEq T] (flag : IpcFlag) (prio : T → Nat) {ls : List (EventLabel T)} {ev : EventSet T}
    (run : exec (step flag prio) (create : EventSet T) ls = some ev) :
    Faithful ev ∧ ∀ before t want bits between t' want' bits' clear after i,
      ev.log = before ++ .got t want bits true :: (between ++ .got t' want' bits' clear :: after) →
      bits.getLsbD i = true → bits'.getLsbD i = true → ∃ sent, .sent sent ∈ between ∧ sent.getLsbD i = true := by
  have h : Faithful ev := (Run.of_exec_step run).invariant ⟨rfl, by simp [create, Justified], by simp [create]⟩
    fun ev l ev' h _ hstep => h.step hstep
  exact ⟨h, fun _ _ _ _ _ _ _ _ _ _ _ hlog => h.resent hlog⟩

/-- One receiver waits for two bits and another one for either; the first bit goes to the second receiver. -/
theorem event_faithful_two : ∃ ev : EventSet Bool, Faithful ev ∧ ev.set = 2#32 ∧
    ev.suspended.map EventWaiter.thread = [false] ∧ ev.ready = [(true, 1#32)] := by
  obtain ⟨ev, hev, hset, hrest⟩ : ∃ ev : EventSet Bool, exec (step .fifo fun _ => 0) create
      [.recv false 3#32 ⟨true, true⟩ true, .recv true 3#32 ⟨false, true⟩ true, .send 1#32, .send 2#32] = some ev ∧
        ev.set = 2#32 ∧ ev.suspended.map EventWaiter.thread = [false] ∧ ev.ready = [(true, 1#32)] :=
    exists_of_any (by decide)
  exact ⟨ev, (event_faithful .fifo (fun _ => 0) hev).1, hset, hrest⟩

end EventSet

end RodActuator.Rtos
