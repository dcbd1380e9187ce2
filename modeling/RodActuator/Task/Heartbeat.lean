import Mathlib.Data.BitVec
import RodActuator.Lib.Transition

/-! Task creation and the starvation check (`Task/task_set.c`). Each task that is created has a slot with the tick of its
    last beat. The check reads the tick once and then visits the slots one by one, and a task of a higher priority may beat
    in between. -/

namespace RodActuator.Task
open Transition

def taskStackMin : Nat := 256
def rtThreadPriorityMax : Nat := 32
def taskSetBeatSlots : Nat := 12
def taskSetBeatTimeoutMs : Nat := 5000

/-- `TaskBeatItem_t`; a thread is a value of `T`. -/
structure BeatItem (T : Type*) where
  name : String
  tcb : T
  prio : BitVec 8
  beatMs : BitVec 32
  lastBeat : BitVec 32
  deriving DecidableEq, Repr

/-- What the check prints for a starved task. -/
structure Starved where
  name : String
  prio : BitVec 8
  stale : BitVec 32
  beatMs : BitVec 32
  deriving DecidableEq, Repr

/-- The arguments of `Task_Set_Create`; `entry` tells whether it is not `RT_NULL`. -/
structure TaskArgs where
  name : Option String
  entry : Bool
  stack : BitVec 32
  prio : BitVec 8
  beatMs : BitVec 32
  deriving DecidableEq, Repr

namespace TaskArgs

/-- The check of the arguments; the name that it lets through. -/
def valid (a : TaskArgs) : Option String :=
  match a.name with
  | none => none
  | some name =>
    if a.entry = false ∨ a.stack.toNat < taskStackMin ∨ a.prio = 0 ∨ rtThreadPriorityMax - 1 ≤ a.prio.toNat then none
    else some name

end TaskArgs

section
variable {T : Type*}

/-- `Task_Set_Create`: the thread that it returns and the slots; `thread` is what `rt_thread_create` and
    `rt_thread_startup` give. -/
def taskSetCreate (a : TaskArgs) (thread : Option T) (tick : BitVec 32) (slots : List (BeatItem T)) :
    Option T × List (BeatItem T) :=
  match a.valid, thread with
  | some name, some t =>
    (some t, if slots.length < taskSetBeatSlots then slots ++ [⟨name, t, a.prio, a.beatMs, tick⟩] else slots)
  | _, _ => (none, slots)

/-- `Task_Set_Beat`: the first slot of the thread is refreshed. -/
def taskSetBeat [DecidableEq T] (self : T) (tick : BitVec 32) : List (BeatItem T) → List (BeatItem T)
  | [] => []
  | s :: slots => if s.tcb = self then { s with lastBeat := tick } :: slots else s :: taskSetBeat self tick slots

/-- One turn of the loop of `Task_Set_StarvationCheck`. -/
def BeatItem.check (now : BitVec 32) (s : BeatItem T) : Option Starved :=
  if s.beatMs ≠ 0 ∧ s.lastBeat ≠ 0 then
    let stale := now - s.lastBeat
    if taskSetBeatTimeoutMs < stale.toNat then some ⟨s.name, s.prio, stale, s.beatMs⟩ else none
  else none

end

/-! ### Tasks over time -/

/-- A task that was created. -/
structure TaskInfo (T : Type*) where
  name : String
  tcb : T
  prio : BitVec 8
  beatMs : BitVec 32
  deriving DecidableEq, Repr

/-- The slots with the true time, whose low 32 bits are the tick, a check that is under way, with the time that it read and
    the slot that comes next, every task that was created, and the signs of life, the newest first: a task shows one when
    it is created and when it beats. -/
structure TaskWorld (T : Type*) where
  slots : List (BeatItem T)
  now : Nat
  check : Option (Nat × Nat)
  tasks : List (TaskInfo T)
  signs : List (T × Nat)
  deriving Repr

inductive TaskAct (T : Type*) where
  | create (a : TaskArgs) (thread : Option T)
  | beat (self : T)
  | tick
  | checkStart
  | checkNext

namespace TaskWorld
variable {T : Type*}

def start (now : Nat) : TaskWorld T := ⟨[], now, none, [], []⟩

def tickNow (w : TaskWorld T) : BitVec 32 := BitVec.ofNat 32 w.now

/-- What the check that is under way prints next. -/
def verdict (w : TaskWorld T) : Option Starved :=
  match w.check with
  | none => none
  | some (read, i) => w.slots[i]?.bind (BeatItem.check (BitVec.ofNat 32 read))

def create (a : TaskArgs) (thread : Option T) (w : TaskWorld T) : TaskWorld T :=
  let r := taskSetCreate a thread w.tickNow w.slots
  let w' := { w with slots := r.2 }
  match r.1, a.name with
  | some t, some name =>
    { w' with tasks := w.tasks ++ [⟨name, t, a.prio, a.beatMs⟩], signs := (t, w.now) :: w.signs }
  | _, _ => w'

def beat [DecidableEq T] (self : T) (w : TaskWorld T) : TaskWorld T :=
  { w with slots := taskSetBeat self w.tickNow w.slots, signs := (self, w.now) :: w.signs }

/-- The check visits a slot, or ends behind the last one. -/
def checkNext (w : TaskWorld T) : TaskWorld T :=
  { w with check := w.check.bind fun c => if c.2 < w.slots.length then some (c.1, c.2 + 1) else none }

/-- The thread that `rt_thread_create` gives is none of those that exist; no thread ends. -/
def step [DecidableEq T] (w : TaskWorld T) : TaskAct T → Option (TaskWorld T)
  | .create a thread => if ∃ t ∈ thread, ∃ k ∈ w.tasks, k.tcb = t then none else some (w.create a thread)
  | .beat self => some (w.beat self)
  | .tick => some { w with now := w.now + 1 }
  | .checkStart => if w.check = none then some { w with check := some (w.now, 0) } else none
  | .checkNext => if w.check = none then none else some w.checkNext

/-- When the thread last showed a sign of life. -/
def lastSign [DecidableEq T] (signs : List (T × Nat)) (thread : T) : Option Nat :=
  (signs.find? fun e => e.1 = thread).map Prod.snd

end TaskWorld

/-- The slot of a task. -/
def TaskInfo.slot {T : Type*} [DecidableEq T] (signs : List (T × Nat)) (k : TaskInfo T) : BeatItem T :=
  ⟨k.name, k.tcb, k.prio, k.beatMs, BitVec.ofNat 32 ((TaskWorld.lastSign signs k.tcb).getD 0)⟩

section
variable {T : Type*}

/-- A creation returns a thread and takes a slot while there is one, or it returns none and takes none. -/
theorem taskSetCreate_cases (a : TaskArgs) (thread : Option T) (tick : BitVec 32) (slots : List (BeatItem T)) :
    (∃ name t, a.name = some name ∧ thread = some t ∧ taskSetCreate a thread tick slots =
      (some t, if slots.length < taskSetBeatSlots then slots ++ [⟨name, t, a.prio, a.beatMs, tick⟩] else slots)) ∨
    taskSetCreate a thread tick slots = (none, slots) := by
  unfold taskSetCreate
  cases hvalid : a.valid with
  | none => exact .inr rfl
  | some name =>
    cases thread with
    | none => exact .inr rfl
    | some t =>
      refine .inl ⟨name, t, ?_, rfl, rfl⟩
      unfold TaskArgs.valid at hvalid
      cases hname : a.name with
      | none =>
        rw [hname] at hvalid
        cases hvalid
      | some n =>
        rw [hname] at hvalid
        dsimp only at hvalid
        split at hvalid
        · cases hvalid
        · exact hvalid

variable [DecidableEq T] {signs : List (T × Nat)} {k : TaskInfo T} {ks : List (TaskInfo T)} {self : T} {now : Nat}
open TaskWorld (lastSign)

theorem lastSign_self : lastSign ((self, now) :: signs) self = some now := by
  rw [lastSign, List.find?_cons, decide_eq_true (rfl : self = self)]
  rfl

theorem lastSign_other {t : T} (hne : self ≠ t) : lastSign ((self, now) :: signs) t = lastSign signs t := by
  rw [lastSign, List.find?_cons_of_neg (by simpa using hne)]
  rfl

theorem TaskInfo.slot_other (hne : self ≠ k.tcb) : k.slot ((self, now) :: signs) = k.slot signs := by
  rw [TaskInfo.slot, lastSign_other hne]
  rfl

theorem map_slot_other (hne : ∀ k ∈ ks, self ≠ k.tcb) :
    ks.map (TaskInfo.slot ((self, now) :: signs)) = ks.map (TaskInfo.slot signs) :=
  List.map_congr_left fun k hk => TaskInfo.slot_other (hne k hk)

/-- A beat puts the new sign into the slot of the task, which has one slot. -/
theorem taskSetBeat_map (distinct : (ks.map TaskInfo.tcb).Nodup) :
    taskSetBeat self (BitVec.ofNat 32 now) (ks.map (TaskInfo.slot signs)) =
      ks.map (TaskInfo.slot ((self, now) :: signs)) := by
  induction ks with
  | nil => rfl
  | cons k ks ih =>
    rw [List.map_cons, List.nodup_cons] at distinct
    have hslot : (k.slot signs).tcb = k.tcb := rfl
    rw [List.map_cons, List.map_cons, taskSetBeat, hslot]
    by_cases hself : k.tcb = self
    · have hrest : ∀ n ∈ ks, self ≠ n.tcb := fun n hn h => distinct.1 (hself.trans h ▸ List.mem_map_of_mem hn)
      rw [if_pos hself, map_slot_other hrest]
      subst hself
      rw [TaskInfo.slot, TaskInfo.slot, lastSign_self]
      rfl
    · rw [if_neg hself, ih distinct.2, TaskInfo.slot_other fun h => hself h.symm]

end

namespace TaskWorld
variable {T : Type*} [DecidableEq T] {w w' : TaskWorld T} {k : TaskInfo T} {read i sign : Nat}

/-- The slots are those of the first tasks, with their last signs of life. -/
structure Inv (w : TaskWorld T) : Prop where
  slots : w.slots = (w.tasks.take taskSetBeatSlots).map (TaskInfo.slot w.signs)
  distinct : (w.tasks.map TaskInfo.tcb).Nodup
  signed : ∀ k ∈ w.tasks, ∃ sign, lastSign w.signs k.tcb = some sign

theorem Inv.beat (inv : Inv w) (self : T) : Inv (w.beat self) := by
  refine ⟨?_, inv.distinct, fun k hk => ?_⟩
  · show taskSetBeat self w.tickNow w.slots = _
    rw [inv.slots]
    exact taskSetBeat_map (List.Nodup.sublist ((List.take_sublist ..).map _) inv.distinct)
  · by_cases hself : self = k.tcb
    · exact ⟨w.now, hself ▸ lastSign_self⟩
    · obtain ⟨sign, hsign⟩ := inv.signed k hk
      exact ⟨sign, (lastSign_other hself).trans hsign⟩

theorem Inv.create (inv : Inv w) (hfresh : ∀ n ∈ w.tasks, k.tcb ≠ n.tcb) :
    Inv { w with
      slots := if w.slots.length < taskSetBeatSlots then
        w.slots ++ [⟨k.name, k.tcb, k.prio, k.beatMs, w.tickNow⟩] else w.slots
      tasks := w.tasks ++ [k]
      signs := (k.tcb, w.now) :: w.signs } := by
  refine ⟨?_, ?_, fun n hn => ?_⟩
  · have hold : w.slots = (w.tasks.take taskSetBeatSlots).map (TaskInfo.slot ((k.tcb, w.now) :: w.signs)) :=
      inv.slots.trans (map_slot_other fun n hn => hfresh n (List.mem_of_mem_take hn)).symm
    have hlen : w.slots.length = min taskSetBeatSlots w.tasks.length := by rw [hold, List.length_map, List.length_take]
    show (if w.slots.length < taskSetBeatSlots then _ else w.slots) = _
    by_cases hroom : w.tasks.length < taskSetBeatSlots
    · rw [if_pos (by omega), hold, List.take_of_length_le (by omega), List.take_of_length_le (by simp; omega),
        List.map_append, List.map_singleton, TaskInfo.slot, lastSign_self]
      rfl
    · rw [if_neg (by omega), List.take_append_of_le_length (by omega), hold]
  · rw [List.map_append]
    refine List.nodup_append.mpr ⟨inv.distinct, List.nodup_singleton _, fun a ha b hb hab => ?_⟩
    obtain ⟨n, hn, rfl⟩ := List.mem_map.mp ha
    exact hfresh n hn (hab.trans (List.mem_singleton.mp hb)).symm
  · rcases List.mem_append.mp hn with hn | hn
    · obtain ⟨sign, hsign⟩ := inv.signed n hn
      exact ⟨sign, (lastSign_other (hfresh n hn)).trans hsign⟩
    · rw [List.mem_singleton.mp hn]
      exact ⟨w.now, lastSign_self⟩

theorem Inv.step (inv : Inv w) {act : TaskAct T} (hstep : w.step act = some w') : Inv w' := by
  cases act with
  | create a thread =>
    obtain ⟨hfresh, hw⟩ := Option.ite_none_left_eq_some.mp hstep
    cases hw
    unfold TaskWorld.create
    rcases taskSetCreate_cases a thread w.tickNow w.slots with ⟨name, t, hname, rfl, h⟩ | h
    · rw [h, hname]
      exact inv.create (k := ⟨name, t, a.prio, a.beatMs⟩) fun n hn heq => hfresh ⟨t, rfl, n, hn, heq.symm⟩
    · rw [h]
      exact ⟨inv.slots, inv.distinct, inv.signed⟩
  | beat self =>
    cases hstep
    exact inv.beat self
  | tick =>
    cases hstep
    exact ⟨inv.slots, inv.distinct, inv.signed⟩
  | checkStart =>
    obtain ⟨-, hw⟩ := Option.ite_none_right_eq_some.mp hstep
    cases hw
    exact ⟨inv.slots, inv.distinct, inv.signed⟩
  | checkNext =>
    obtain ⟨-, hw⟩ := Option.ite_none_left_eq_some.mp hstep
    cases hw
    exact ⟨inv.slots, inv.distinct, inv.signed⟩

theorem inv_start (now : Nat) : Inv (start now : TaskWorld T) := ⟨rfl, List.nodup_nil, by rintro k ⟨⟩⟩

/-- What a visit tells of a task that last showed a sign of life at `sign`. -/
theorem check_slot (hsign : lastSign w.signs k.tcb = some sign) : (k.slot w.signs).check (BitVec.ofNat 32 read) =
    if k.beatMs ≠ 0 ∧ BitVec.ofNat 32 sign ≠ 0 then
      if taskSetBeatTimeoutMs < (BitVec.ofNat 32 read - BitVec.ofNat 32 sign).toNat then
        some ⟨k.name, k.prio, BitVec.ofNat 32 read - BitVec.ofNat 32 sign, k.beatMs⟩ else none
    else none := by
  rw [TaskInfo.slot, hsign]
  rfl

theorem Inv.verdict (inv : Inv w) (hcheck : w.check = some (read, i)) (hk : w.tasks[i]? = some k) :
    w.verdict = if i < taskSetBeatSlots then (k.slot w.signs).check (BitVec.ofNat 32 read) else none := by
  rw [TaskWorld.verdict, hcheck]
  dsimp only
  rw [inv.slots, List.getElem?_map, List.getElem?_take]
  split
  · rw [hk]
    rfl
  · rfl

theorem ofNat_eq_zero_iff : BitVec.ofNat 32 sign = 0 ↔ 2 ^ 32 ∣ sign := by
  rw [← BitVec.toNat_inj, BitVec.toNat_ofNat, Nat.dvd_iff_mod_eq_zero]
  rfl

/-- Where a check that read the tick at `read` visits the slot of a periodic task, it names the task if its last sign of
    life is more than 5000 ticks old, but less than 2 ^ 32. It also names a task that has beaten since the tick was read. A
    task whose last sign fell on the tick 0 is never named, and one behind the twelve slots is never visited. -/
theorem starvation_named {now : Nat} {acts : List (TaskAct T)}
    (run : Run TaskWorld.step (fun _ _ => True) (start now) acts w) (hcheck : w.check = some (read, i))
    (hk : w.tasks[i]? = some k) : ∃ sign, lastSign w.signs k.tcb = some sign ∧
      (∀ s ∈ w.verdict, i < taskSetBeatSlots ∧ s.name = k.name ∧ s.prio = k.prio ∧ s.beatMs = k.beatMs) ∧
      (i < taskSetBeatSlots → sign ≤ read → read < sign + 2 ^ 32 →
        (w.verdict.isSome ↔ k.beatMs ≠ 0 ∧ ¬2 ^ 32 ∣ sign ∧ sign + taskSetBeatTimeoutMs < read)) ∧
      (i < taskSetBeatSlots → read < sign → sign + taskSetBeatTimeoutMs < read + 2 ^ 32 →
        (w.verdict.isSome ↔ k.beatMs ≠ 0 ∧ ¬2 ^ 32 ∣ sign)) := by
  have inv : Inv w := run.invariant (inv_start now) fun _ _ _ ht _ hstep => ht.step hstep
  obtain ⟨sign, hsign⟩ := inv.signed k (List.mem_of_getElem? hk)
  have hverdict := inv.verdict hcheck hk
  rw [check_slot hsign] at hverdict
  have hstale : (BitVec.ofNat 32 read - BitVec.ofNat 32 sign).toNat = (2 ^ 32 - sign % 2 ^ 32 + read % 2 ^ 32) % 2 ^ 32 := by
    rw [BitVec.toNat_sub, BitVec.toNat_ofNat, BitVec.toNat_ofNat]
  have hsome : i < taskSetBeatSlots → (w.verdict.isSome ↔ k.beatMs ≠ 0 ∧ ¬2 ^ 32 ∣ sign ∧
      taskSetBeatTimeoutMs < (BitVec.ofNat 32 read - BitVec.ofNat 32 sign).toNat) := by
    intro hi
    rw [hverdict, if_pos hi, ← ofNat_eq_zero_iff, ← and_assoc]
    by_cases hperiodic : k.beatMs ≠ 0 ∧ BitVec.ofNat 32 sign ≠ 0
    · rw [if_pos hperiodic, and_iff_right hperiodic]
      exact Option.isSome_ite
    · rw [if_neg hperiodic]
      exact ⟨fun h => (by cases h), fun h => absurd h.1 hperiodic⟩
  refine ⟨sign, hsign, fun s hs => ?_, fun hi hle hlt => ?_, fun hi hlt hgap => ?_⟩
  · rw [hverdict] at hs
    obtain ⟨hi, hs⟩ := Option.mem_ite_none_right.mp hs
    obtain ⟨-, hs⟩ := Option.mem_ite_none_right.mp hs
    obtain ⟨-, hs⟩ := Option.mem_ite_none_right.mp hs
    cases hs
    exact ⟨hi, rfl, rfl, rfl⟩
  · rw [hsome hi, hstale]
    have hold : (2 ^ 32 - sign % 2 ^ 32 + read % 2 ^ 32) % 2 ^ 32 = read - sign := by omega
    rw [hold, Nat.lt_sub_iff_add_lt']
  · rw [hsome hi, hstale]
    have hahead : taskSetBeatTimeoutMs < (2 ^ 32 - sign % 2 ^ 32 + read % 2 ^ 32) % 2 ^ 32 := by
      unfold taskSetBeatTimeoutMs at hgap ⊢
      omega
    rw [and_iff_left hahead]

/-- The canary beats one tick after a check has read the tick. -/
def overtakingRun : List (TaskAct Nat) :=
  [.create ⟨some "canary", true, 256, 2, 500⟩ (some 7), .checkStart, .tick, .beat 7]

theorem starvation_named_overtaking : ∃ w : TaskWorld Nat, w.check = some (10, 0) ∧ w.verdict.isSome := by
  obtain ⟨w, hexec, hcheck, hk, hsign⟩ : ∃ w, exec TaskWorld.step (start 10) overtakingRun = some w ∧
      w.check = some (10, 0) ∧ w.tasks[0]? = some ⟨"canary", 7, 2, 500⟩ ∧ lastSign w.signs 7 = some 11 :=
    exists_of_any (by decide)
  obtain ⟨sign, hlast, -, -, hnamed⟩ := starvation_named (Run.of_exec_step hexec) hcheck hk
  cases hsign.symm.trans hlast
  exact ⟨w, hcheck, (hnamed (by decide) (by decide) (by decide)).mpr ⟨by decide, by decide⟩⟩

end TaskWorld

end RodActuator.Task
