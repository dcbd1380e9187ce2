import RodActuator.Rtos.Event
import RodActuator.Sys.World

/-! The threads over the event set of the kernel. The thread of the state machine is suspended in `rt_event_recv` while no
    event that it waits for is there, and the send that brings one hands it over; later events are left in the set
    until the thread asks again. To the rest of the program this is the set of pending events that the thread takes
    as a whole. -/

namespace RodActuator.Sys
open Rtos Rod Binary32 Transition

/-- The threads but for the events, with the event set of the system. -/
structure EventWorld where
  world : World
  evt : EventSet Unit

inductive EventAct where
  | act (l : Label)
  | recv
  | run
  deriving DecidableEq, Repr

namespace EventWorld

/-- `RT_EVENT_FLAG_OR | RT_EVENT_FLAG_CLEAR`. -/
def smOption : EventOption := ⟨false, true⟩

def boot (dirInvert : Bool) (pos : Position) : EventWorld where
  world := { World.boot dirInvert pos with pending := 0 }
  evt := EventSet.create.send (SysEvt.mask .initDone ||| SysEvt.mask .cmdWorkEnable)

/-- `Sys_State_Dispatch` begins with the received events. -/
def received (mask : BitVec 32) (w : World) : World := { w with sm := { w.sm with branches := System.branchesOf mask } }

/-- The actions of the threads, where the events of each are sent to the event set; the call of `rt_event_recv` in
    `sys_sm_thread_entry`; and the rest of the call after the thread was suspended. -/
def step (F : Binary32) (cfg : Power.VoltCfg) (s : EventWorld) : EventAct → Option EventWorld
  | .act l =>
    if l = .dispatch then none
    else (s.world.step F cfg l).map fun w => ⟨{ w with pending := 0 }, s.evt.send w.pending⟩
  | .recv =>
    if s.evt.suspended = [] ∧ s.evt.ready = [] ∧ s.world.sm.effects = [] ∧ s.world.sm.branches = [] then
      some {
        world := if smOption.test sysSmWaitEvents s.evt.set then received (s.evt.set &&& sysSmWaitEvents) s.world
          else s.world
        evt := s.evt.recv .fifo (fun _ => 0) () sysSmWaitEvents smOption true }
    else none
  | .run =>
    match s.evt.ready with
    | r :: _ => some ⟨received r.2 s.world, s.evt.runOn ()⟩
    | [] => none

end EventWorld

/-! ### The thread of the state machine and the pending events

    The other threads and the interrupts look at neither of them. -/

/-- Other effects and branches, and more pending events. -/
def World.overlay (sm : SmThread → SmThread) (bits : BitVec 32) (w : World) : World :=
  { w with sm := sm w.sm, pending := bits ||| w.pending }

section
variable (sm : SmThread → SmThread) (bits : BitVec 32) (w : World)

@[simp] theorem World.overlay_polOuts : (w.overlay sm bits).polOuts = w.polOuts := rfl

@[simp] theorem World.overlay_rod : (w.overlay sm bits).rod = w.rod := rfl

@[simp] theorem World.overlay_hwStarted : (w.overlay sm bits).hwStarted = w.hwStarted := rfl

theorem World.doRodAct_overlay (F : Binary32) (now : BitVec 32) (rest : List RodAct) (a : RodAct) :
    (w.overlay sm bits).doRodAct F now rest a = (w.doRodAct F now rest a).overlay sm bits := by
  cases a with
  | out o => cases o <;> rfl
  | integrate | calibrate | read | update => rfl

theorem World.step_overlay (F : Binary32) (cfg : Power.VoltCfg) {l : Label} (hl : l ≠ .dispatch)
    (hsm : ∀ now, l ≠ .sm now) : (w.overlay sm bits).step F cfg l = (w.step F cfg l).map (World.overlay sm bits) := by
  cases l with
  | dispatch => exact absurd rfl hl
  | sm now => exact absurd rfl (hsm now)
  | event b => simp [step, overlay, BitVec.or_assoc]
  | post now msg urgent => rfl
  | recv =>
    show w.arb.recv.map _ = (w.arb.recv.map _).map _
    rw [Option.map_map]
    rfl
  | process now =>
    show (w.arb.process now).map _ = ((w.arb.process now).map _).map _
    rw [Option.map_map]
    rfl
  | tick mean =>
    cases hhw : w.hwStarted with
    | false => simp only [step, overlay_hwStarted, hhw, Bool.false_eq_true, if_false, Option.map_none]
    | true => simp [step, hhw, overlay, BitVec.or_assoc]
  | scan pin =>
    by_cases houts : w.polOuts = []
    · simp only [step, overlay_polOuts, houts, if_true, Option.map_some]
      rfl
    · simp only [step, overlay_polOuts, houts, if_false, Option.map_none]
  | polOut now =>
    cases houts : w.polOuts with
    | nil => simp only [step, overlay_polOuts, houts, Option.map_none]
    | cons o rest =>
      cases o with
      | sysEvent b => simp [step, houts, overlay, BitVec.or_assoc]
      | arbSendCommand msg =>
        simp only [step, overlay_polOuts, houts, Option.map_some]
        rfl
  | rodTick delta tick =>
    by_cases hacts : w.rod.acts = []
    · simp only [step, overlay_rod, hacts, if_true, Option.map_some]
      rfl
    · simp only [step, overlay_rod, hacts, if_false, Option.map_none]
  | rod now =>
    cases hacts : w.rod.acts with
    | nil => simp only [step, overlay_rod, hacts, Option.map_none]
    | cons a rest => simp only [step, overlay_rod, hacts, Option.map_some, doRodAct_overlay]

/-- The thread of the state machine looks at no pending events but in a dispatch. -/
theorem World.step_sm_overlay (F : Binary32) (cfg : Power.VoltCfg) (now : BitVec 32) :
    (w.overlay id bits).step F cfg (.sm now) = (w.step F cfg (.sm now)).map (World.overlay id bits) := by
  have hsm : (w.overlay id bits).sm = w.sm := rfl
  cases heff : w.sm.effects with
  | cons e rest =>
    simp only [step, hsm, heff, Option.map_some]
    cases e <;> rfl
  | nil =>
    cases hbr : w.sm.branches with
    | cons e rest =>
      simp only [step, hsm, heff, hbr, Option.map_some]
      rfl
    | nil => simp only [step, hsm, heff, hbr, Option.map_none]

end

/-! ### The simulation -/

/-- What the threads see of the event set: the thread of the state machine runs, is suspended because none of its events is
    there, or has got events with which it will run on. -/
inductive EventWorld.Shows (s : EventWorld) : World → Prop where
  | running (hpending : s.world.pending = 0) (hsusp : s.evt.suspended = []) (hready : s.evt.ready = []) :
      Shows s (s.world.overlay id s.evt.set)
  | suspended (hpending : s.world.pending = 0) (hsusp : s.evt.suspended = [⟨(), sysSmWaitEvents, smOption⟩])
      (hready : s.evt.ready = []) (hbetween : s.world.Between) (hnone : s.evt.set &&& sysSmWaitEvents = 0) :
      Shows s (s.world.overlay id s.evt.set)
  | ready (hpending : s.world.pending = 0) (hsusp : s.evt.suspended = []) {mask : BitVec 32}
      (hready : s.evt.ready = [((), mask)]) (hbetween : s.world.Between) :
      Shows s (s.world.overlay (fun sm => { sm with branches := System.branchesOf mask }) s.evt.set)

/-- The threads with the masks dispatched so far, which are what `rt_event_recv` has given. -/
def EventWorld.ShowsMasks (s : EventWorld) (t : World × List (BitVec 32)) : Prop := s.Shows t.1 ∧ t.2 = s.evt.got

/-- What the other threads do is the same; the dispatches are up to the thread of the state machine. -/
def EventAct.seen : EventAct → List Label
  | .act l => [l]
  | .recv | .run => []

def Label.seen (l : Label) : List Label := if l = .dispatch then [] else [l]

theorem Label.seen_of_ne {l : Label} (hl : l ≠ .dispatch) : l.seen = [l] := if_neg hl

/-- The steps of the threads with the masks that were dispatched so far. -/
def World.stepMasks (F : Binary32) (cfg : Power.VoltCfg) (t : World × List (BitVec 32)) (l : Label) :
    Option (World × List (BitVec 32)) :=
  (t.1.step F cfg l).map fun w => (w, t.2 ++ if l = .dispatch then [t.1.pending &&& sysSmWaitEvents] else [])

theorem World.stepMasks_of_ne {F : Binary32} {cfg : Power.VoltCfg} {w w' : World} {l : Label} (masks : List (BitVec 32))
    (hl : l ≠ .dispatch) (h : w.step F cfg l = some w') : World.stepMasks F cfg (w, masks) l = some (w', masks) := by
  rw [stepMasks, h, Option.map_some, if_neg hl, List.append_nil]

theorem World.stepMasks_dispatch {F : Binary32} {cfg : Power.VoltCfg} {w w' : World} (masks : List (BitVec 32))
    (h : w.step F cfg .dispatch = some w') :
    World.stepMasks F cfg (w, masks) .dispatch = some (w', masks ++ [w.pending &&& sysSmWaitEvents]) := by
  rw [stepMasks, h, Option.map_some, if_pos rfl]

theorem World.step_sm_kept {F : Binary32} {cfg : Power.VoltCfg} {w w' : World} {l : Label} (hl : l ≠ .dispatch)
    (hsm : ∀ now, l ≠ .sm now) (h : w.step F cfg l = some w') : w'.sm = w.sm := by
  -- A step that looks at nothing of the thread leaves it at whatever it was replaced by.
  have hover := World.step_overlay (fun _ => w.sm) 0 w F cfg hl hsm
  rw [h, Option.map_some, show w.overlay (fun _ => w.sm) 0 = w by simp [World.overlay], h] at hover
  exact (congrArg World.sm (Option.some.inj hover)).trans rfl

theorem World.overlay_sent (sm : SmThread → SmThread) (bits : BitVec 32) (w : World) :
    World.overlay sm (bits ||| w.pending) { w with pending := 0 } = w.overlay sm bits := by
  simp [World.overlay]

section
variable {F : Binary32} {cfg : Power.VoltCfg} {s s' : EventWorld} {w : World}

theorem got_of_log {evt evt' : EventSet Unit} {bits : BitVec 32} (items : List (EventItem Unit))
    (h : evt'.log = evt.log ++ .sent bits :: items) :
    evt'.got = evt.got ++ (items.filterMap EventItem.delivery).map Prod.snd := by
  rw [EventSet.got, h, List.filterMap_append, List.map_append]
  rfl

theorem send_of_running {evt : EventSet Unit} (hsusp : evt.suspended = []) (bits : BitVec 32) :
    (evt.send bits).set = evt.set ||| bits ∧ (evt.send bits).suspended = [] ∧ (evt.send bits).ready = evt.ready ∧
      (evt.send bits).got = evt.got := by
  unfold EventSet.send
  split
  · rename_i hbits
    rw [hbits]
    exact ⟨(BitVec.or_zero).symm, hsusp, rfl, rfl⟩
  · rw [hsusp]
    exact ⟨rfl, rfl, List.append_nil _, (got_of_log [] rfl).trans (List.append_nil _)⟩

theorem send_of_suspended {evt : EventSet Unit} (hsusp : evt.suspended = [⟨(), sysSmWaitEvents, EventWorld.smOption⟩])
    (hready : evt.ready = []) (hnone : evt.set &&& sysSmWaitEvents = 0) (bits : BitVec 32) :
    ((evt.set ||| bits) &&& sysSmWaitEvents = 0 ∧ (evt.send bits).set = evt.set ||| bits ∧
        (evt.send bits).suspended = [⟨(), sysSmWaitEvents, EventWorld.smOption⟩] ∧ (evt.send bits).ready = [] ∧
        (evt.send bits).got = evt.got) ∨
      ((evt.set ||| bits) &&& sysSmWaitEvents ≠ 0 ∧ (evt.send bits).set = (evt.set ||| bits) &&& ~~~sysSmWaitEvents ∧
        (evt.send bits).suspended = [] ∧ (evt.send bits).ready = [((), (evt.set ||| bits) &&& sysSmWaitEvents)] ∧
        (evt.send bits).got = evt.got ++ [(evt.set ||| bits) &&& sysSmWaitEvents]) := by
  unfold EventSet.send
  split
  · rename_i hbits
    have hor : evt.set ||| (0 : BitVec 32) = evt.set := BitVec.or_zero
    rw [hbits, hor]
    exact .inl ⟨hnone, rfl, hsusp, hready, rfl⟩
  · rw [hsusp, hready]
    by_cases hzero : (evt.set ||| bits) &&& sysSmWaitEvents = 0
    · have htest : EventWorld.smOption.test sysSmWaitEvents (evt.set ||| bits) = false :=
        decide_eq_false (not_not.mpr hzero)
      have hscan : EventSet.scan (evt.set ||| bits) [⟨(), sysSmWaitEvents, EventWorld.smOption⟩] =
          (evt.set ||| bits, [⟨(), sysSmWaitEvents, EventWorld.smOption⟩], []) := by
        simp only [EventSet.scan, htest, Bool.false_eq_true, if_false]
      rw [hscan]
      exact .inl ⟨hzero, rfl, rfl, rfl, (got_of_log [] rfl).trans (List.append_nil _)⟩
    · have htest : EventWorld.smOption.test sysSmWaitEvents (evt.set ||| bits) = true := decide_eq_true hzero
      have hclear : EventWorld.smOption.clear = true := rfl
      have hscan : EventSet.scan (evt.set ||| bits) [⟨(), sysSmWaitEvents, EventWorld.smOption⟩] =
          ((evt.set ||| bits) &&& ~~~sysSmWaitEvents, [],
            [.got () sysSmWaitEvents ((evt.set ||| bits) &&& sysSmWaitEvents) true]) := by
        simp only [EventSet.scan, htest, hclear, if_true]
        rw [EventSet.and_not_and, BitVec.and_comm sysSmWaitEvents]
      rw [hscan]
      exact .inr ⟨hzero, rfl, rfl, rfl, got_of_log [.got () sysSmWaitEvents _ true] rfl⟩

/-- An action of another thread or, while it runs, of the thread of the state machine. -/
theorem EventWorld.Shows.act (h : s.Shows w) {l : Label} (hl : l ≠ .dispatch) {w₁ : World}
    (hstep : s.world.step F cfg l = some w₁) :
    ∃ ls w', exec (World.stepMasks F cfg) (w, s.evt.got) ls = some (w', (s.evt.send w₁.pending).got) ∧
      ls.flatMap Label.seen = [l] ∧ EventWorld.Shows ⟨{ w₁ with pending := 0 }, s.evt.send w₁.pending⟩ w' := by
  have hidle : s.world.Between → ∀ now, l ≠ .sm now := by
    rintro ⟨heff, hbr⟩ now rfl
    simp only [World.step, heff, hbr] at hstep
    cases hstep
  cases h with
  | running hpending hsusp hready =>
    have hw : (s.world.overlay id s.evt.set).step F cfg l = some (w₁.overlay id s.evt.set) := by
      by_cases hsm : ∃ now, l = .sm now
      · obtain ⟨now, rfl⟩ := hsm
        rw [World.step_sm_overlay, hstep]
        rfl
      · rw [World.step_overlay _ _ _ _ _ hl (not_exists.mp hsm), hstep]
        rfl
    obtain ⟨hset, hsusp', hready', hgot⟩ := send_of_running hsusp w₁.pending
    refine ⟨[l], w₁.overlay id s.evt.set, ?_, by simp [Label.seen_of_ne hl], ?_⟩
    · rw [exec, List.foldlM_cons, World.stepMasks_of_ne _ hl hw, hgot]
      rfl
    · rw [← World.overlay_sent, ← hset]
      exact .running rfl hsusp' (hready'.trans hready)
  | suspended hpending hsusp hready hbetween hnone =>
    have hsm := hidle hbetween
    have hw : (s.world.overlay id s.evt.set).step F cfg l = some (w₁.overlay id s.evt.set) := by
      rw [World.step_overlay _ _ _ _ _ hl hsm, hstep]
      rfl
    have hkept := World.step_sm_kept hl hsm hstep
    have hbetween' : w₁.Between := by
      unfold World.Between
      rw [hkept]
      exact hbetween
    rcases send_of_suspended hsusp hready hnone w₁.pending with ⟨hzero, hset, hsusp', hready', hgot⟩ |
        ⟨hwait, hset, hsusp', hready', hgot⟩
    · refine ⟨[l], w₁.overlay id s.evt.set, ?_, by simp [Label.seen_of_ne hl], ?_⟩
      · rw [exec, List.foldlM_cons, World.stepMasks_of_ne _ hl hw, hgot]
        rfl
      · rw [← World.overlay_sent, ← hset]
        exact .suspended rfl hsusp' hready' hbetween' (hset ▸ hzero)
    · -- The send hands the events over: this is the dispatch.
      have hdispatch : (w₁.overlay id s.evt.set).step F cfg .dispatch = some
          (World.overlay (fun sm => { sm with branches := System.branchesOf ((s.evt.set ||| w₁.pending) &&& sysSmWaitEvents) })
            (s.evt.send w₁.pending).set { w₁ with pending := 0 }) := by
        have hcond : (w₁.overlay id s.evt.set).sm.effects = [] ∧ (w₁.overlay id s.evt.set).sm.branches = [] ∧
            (w₁.overlay id s.evt.set).pending &&& sysSmWaitEvents ≠ 0 := ⟨hbetween'.1, hbetween'.2, hwait⟩
        rw [World.step, if_pos hcond, hset]
        simp [World.overlay]
      refine ⟨[l, .dispatch], _, ?_, by simp [Label.seen, hl], .ready rfl hsusp' hready' hbetween'⟩
      rw [exec, List.foldlM_cons, World.stepMasks_of_ne _ hl hw, hgot]
      show (World.stepMasks F cfg (w₁.overlay id s.evt.set, s.evt.got) .dispatch).bind _ = _
      rw [World.stepMasks_dispatch _ hdispatch]
      rfl
  | @ready hpending hsusp mask hready hbetween =>
    have hsm := hidle hbetween
    have hkept := World.step_sm_kept hl hsm hstep
    have hbetween' : w₁.Between := by
      unfold World.Between
      rw [hkept]
      exact hbetween
    obtain ⟨hset, hsusp', hready', hgot⟩ := send_of_running hsusp w₁.pending
    refine ⟨[l], w₁.overlay (fun sm => { sm with branches := System.branchesOf mask }) s.evt.set, ?_,
      by simp [Label.seen_of_ne hl], ?_⟩
    · have hw := World.step_overlay (fun sm => { sm with branches := System.branchesOf mask }) s.evt.set s.world F cfg hl
        hsm
      rw [hstep] at hw
      rw [exec, List.foldlM_cons, World.stepMasks_of_ne _ hl hw, hgot]
      rfl
    · rw [← World.overlay_sent, ← hset]
      exact .ready rfl hsusp' (hready'.trans hready) hbetween'

theorem EventWorld.Shows.recv (h : s.Shows w) (hstep : s.step F cfg .recv = some s') :
    ∃ ls w', exec (World.stepMasks F cfg) (w, s.evt.got) ls = some (w', s'.evt.got) ∧ ls.flatMap Label.seen = [] ∧
      s'.Shows w' := by
  simp only [EventWorld.step] at hstep
  split at hstep
  · rename_i hcond
    obtain ⟨hsusp, hready, heff, hbr⟩ := hcond
    cases hstep
    cases h with
    | suspended _ hsusp' => rw [hsusp] at hsusp'; cases hsusp'
    | ready _ _ hready' => rw [hready] at hready'; cases hready'
    | running hpending =>
      unfold EventSet.recv
      rw [if_neg (show sysSmWaitEvents ≠ 0 by decide)]
      by_cases hzero : s.evt.set &&& sysSmWaitEvents = 0
      · have htest : EventWorld.smOption.test sysSmWaitEvents s.evt.set = false := decide_eq_false (not_not.mpr hzero)
        simp only [htest, Bool.false_eq_true, if_false, if_true]
        refine ⟨[], _, rfl, rfl, .suspended hpending ?_ hready ⟨heff, hbr⟩ hzero⟩
        rw [hsusp]
        rfl
      · have htest : EventWorld.smOption.test sysSmWaitEvents s.evt.set = true := decide_eq_true hzero
        have hclear : EventWorld.smOption.clear = true := rfl
        simp only [htest, hclear, if_true]
        have hdispatch : (s.world.overlay id s.evt.set).step F cfg .dispatch = some
            ((EventWorld.received (s.evt.set &&& sysSmWaitEvents) s.world).overlay id
              (s.evt.set &&& ~~~sysSmWaitEvents)) := by
          have hcond : (s.world.overlay id s.evt.set).sm.effects = [] ∧ (s.world.overlay id s.evt.set).sm.branches = [] ∧
              (s.world.overlay id s.evt.set).pending &&& sysSmWaitEvents ≠ 0 := by
            refine ⟨heff, hbr, ?_⟩
            simp only [World.overlay, hpending]
            rwa [show s.evt.set ||| (0 : BitVec 32) = s.evt.set from BitVec.or_zero]
          rw [World.step, if_pos hcond]
          simp [World.overlay, EventWorld.received, hpending]
        refine ⟨[.dispatch], (EventWorld.received (s.evt.set &&& sysSmWaitEvents) s.world).overlay id
          (s.evt.set &&& ~~~sysSmWaitEvents), ?_, rfl, ?_⟩
        · have hmask : (s.world.overlay id s.evt.set).pending &&& sysSmWaitEvents = s.evt.set &&& sysSmWaitEvents := by
            rw [World.overlay, hpending]
            exact congrArg (· &&& sysSmWaitEvents) BitVec.or_zero
          rw [exec, List.foldlM_cons, World.stepMasks_dispatch _ hdispatch, hmask]
          simp [EventSet.got, EventItem.delivery]
        exact .running (s := ⟨EventWorld.received _ s.world, _⟩) hpending hsusp hready
  · cases hstep

theorem EventWorld.Shows.run (h : s.Shows w) (hstep : s.step F cfg .run = some s') :
    s'.Shows w ∧ s'.evt.got = s.evt.got := by
  simp only [EventWorld.step] at hstep
  split at hstep
  · rename_i r rest hr
    cases hstep
    cases h with
    | running _ _ hready => rw [hready] at hr; cases hr
    | suspended _ _ hready => rw [hready] at hr; cases hr
    | ready hpending hsusp hready =>
      rw [hready] at hr
      cases hr
      refine ⟨.running (s := ⟨EventWorld.received _ s.world, s.evt.runOn ()⟩) hpending hsusp ?_, rfl⟩
      rw [EventSet.runOn, hready]
      rfl
  · cases hstep

/-- With the event set of the kernel, in which the thread of the state machine sleeps and wakes, every run of the threads
    is one in which it takes all pending events at once, and the masks that are dispatched are those that `rt_event_recv`
    gives it: nothing that holds in every such run is lost. -/
theorem event_world_refines (F : Binary32) (cfg : Power.VoltCfg) (dirInvert : Bool) (pos : Position) {acts : List EventAct}
    (run : exec (EventWorld.step F cfg) (.boot dirInvert pos) acts = some s) :
    ∃ ls w, exec (World.stepMasks F cfg) (World.boot dirInvert pos, []) ls = some (w, s.evt.got) ∧
      ls.flatMap Label.seen = acts.flatMap EventAct.seen ∧ s.Shows w := by
  have hsim : ∀ (s : EventWorld) (t : World × List (BitVec 32)) (a : EventAct) (s' : EventWorld),
      s.ShowsMasks t → EventWorld.step F cfg s a = some s' →
      ∃ ls t', exec (World.stepMasks F cfg) t ls = some t' ∧ ls.flatMap Label.seen = a.seen ∧ s'.ShowsMasks t' := by
    rintro s ⟨w, _⟩ a s' ⟨h, rfl⟩ hstep
    cases a with
    | act l =>
      simp only [EventWorld.step] at hstep
      split at hstep
      · cases hstep
      · rename_i hl
        obtain ⟨w₁, hw₁, rfl⟩ := Option.map_eq_some_iff.mp hstep
        obtain ⟨ls, w', hexec, hseen, hshows⟩ := h.act hl hw₁
        exact ⟨ls, _, hexec, hseen, hshows, rfl⟩
    | recv =>
      obtain ⟨ls, w', hexec, hseen, hshows⟩ := h.recv hstep
      exact ⟨ls, _, hexec, hseen, hshows, rfl⟩
    | run =>
      obtain ⟨hshows, hgot⟩ := h.run hstep
      exact ⟨[], _, rfl, rfl, hshows, hgot.symm⟩
  have hstart : (EventWorld.boot dirInvert pos).ShowsMasks (World.boot dirInvert pos, []) := by
    refine ⟨?_, rfl⟩
    have hset : (EventSet.create.send (SysEvt.mask .initDone ||| SysEvt.mask .cmdWorkEnable) : EventSet Unit).set ||| 0 =
        SysEvt.mask .initDone ||| SysEvt.mask .cmdWorkEnable := by decide
    have hboot : (EventWorld.boot dirInvert pos).world.overlay id (EventWorld.boot dirInvert pos).evt.set =
        World.boot dirInvert pos := congrArg (fun p => { World.boot dirInvert pos with pending := p }) hset
    show (EventWorld.boot dirInvert pos).Shows (World.boot dirInvert pos)
    rw [← hboot]
    exact .running rfl rfl rfl
  obtain ⟨ls, t, hexec, hseen, hshows, hgot⟩ := exec_simulates_many hsim hstart run
  exact ⟨ls, t.1, hgot ▸ hexec, hseen, hshows⟩

/-- The thread takes the events of the start, handles them and sleeps, and a bit that an interrupt sends wakes it. -/
def wokenRun : List EventAct :=
  [.recv] ++ List.replicate 7 (.act (.sm 0)) ++ [.recv, .act (.event (SysEvt.mask .emergency)), .run]

theorem event_world_refines_woken : ∃ (s : EventWorld) (ls : List Label) (w : World),
    exec (World.stepMasks ieee World.defaultVolt) (World.boot false World.startPosition, []) ls =
        some (w, [SysEvt.mask .initDone ||| SysEvt.mask .cmdWorkEnable, SysEvt.mask .emergency]) ∧
      ls.flatMap Label.seen = wokenRun.flatMap EventAct.seen ∧ s.Shows w := by
  obtain ⟨s, hs, hgot⟩ : ∃ s : EventWorld, exec (EventWorld.step ieee World.defaultVolt)
      (.boot false World.startPosition) wokenRun = some s ∧ s.evt.got =
        [SysEvt.mask .initDone ||| SysEvt.mask .cmdWorkEnable, SysEvt.mask .emergency] := exists_of_any (by decide +kernel)
  obtain ⟨ls, w, hw, hseen, hshows⟩ := event_world_refines ieee World.defaultVolt false World.startPosition hs
  rw [hgot] at hw
  exact ⟨s, ls, w, hw, hseen, hshows⟩

end

end RodActuator.Sys
