import Mathlib.Data.List.Chain
import Mathlib.Data.BitVec
import RodActuator.Lib.Transition

/-! The table of the modules (`Dev/dev_registry.c`). The device thread calls the task of every enabled module once its
    period has passed since the last call, by a 32-bit tick counter that wraps. -/

namespace RodActuator.Task
open Transition

/-- `SysModule_t`; a function is a value of `F`, and `none` is `RT_NULL`. -/
structure SysModule (F : Type*) where
  name : String
  init : Option F
  task : Option F
  periodMs : BitVec 16
  threadEntry : Option F
  threadStack : BitVec 16
  prio : BitVec 8
  lastTick : BitVec 32
  enabled : BitVec 8
  deriving DecidableEq, Repr

/-- What the registry calls for a module. -/
inductive ModuleCall (F : Type*) where
  | init (name : String) (f : F)
  | create (name : String) (entry : F) (stack : BitVec 16) (prio : BitVec 8)
  | task (name : String) (f : F)
  deriving DecidableEq, Repr

def ModuleCall.name {F : Type*} : ModuleCall F → String
  | .init name _ | .create name _ _ _ | .task name _ => name

def ModuleCall.isTask {F : Type*} : ModuleCall F → Bool
  | .task _ _ => true
  | _ => false

def maxRegModules : Nat := 16

/-- `s_modules` up to `s_module_num`. -/
structure Registry (F : Type*) where
  modules : List (SysModule F)
  room : modules.length ≤ maxRegModules
  distinct : (modules.map SysModule.name).Nodup

section
variable {F : Type*}

/-- `SYS_MODULE_REGISTER`. -/
def sysModuleRegister (name : String) (init task : Option F) (prio : BitVec 8) (period : BitVec 16) : SysModule F :=
  ⟨name, init, task, period, none, 0, prio, 0, 1⟩

namespace SysModule

/-- What `Dev_Registry_Add` calls for a module that it takes. -/
def added (m : SysModule F) : List (ModuleCall F) :=
  (m.init.map (ModuleCall.init m.name)).toList ++
    (m.threadEntry.map fun entry => ModuleCall.create m.name entry m.threadStack m.prio).toList

/-- `tick - m->last_tick`. -/
def waited (m : SysModule F) (tick : BitVec 32) : Nat := (tick - m.lastTick).toNat

def due (m : SysModule F) (tick : BitVec 32) : Bool := m.periodMs = 0 || m.periodMs.toNat ≤ m.waited tick

/-- One turn of the loop of `Dev_Registry_UpdateAll`. -/
def update (tick : BitVec 32) (m : SysModule F) : SysModule F × Option (ModuleCall F) :=
  if m.enabled = 0 then (m, none)
  else match m.task with
    | none => (m, none)
    | some f => if m.due tick then ({ m with lastTick := tick }, some (.task m.name f)) else (m, none)

@[simp] theorem update_name (tick : BitVec 32) (m : SysModule F) : (m.update tick).1.name = m.name := by
  unfold update
  split
  · rfl
  · split
    · rfl
    · split <;> rfl

end SysModule

namespace Registry

def empty : Registry F := ⟨[], Nat.zero_le _, List.nodup_nil⟩

/-- `Dev_Registry_Add`. -/
def add (module : Option (SysModule F)) (r : Registry F) : Int × Registry F × List (ModuleCall F) :=
  match module with
  | none => (-1, r, [])
  | some m =>
    if hroom : r.modules.length < maxRegModules then
      if hnew : m.name ∉ r.modules.map SysModule.name then
        (0, ⟨r.modules ++ [m], by rw [List.length_append]; exact hroom, by
          rw [List.map_append]
          exact List.nodup_append.mpr ⟨r.distinct, List.nodup_singleton _, fun a ha b hb hab =>
            hnew (List.mem_singleton.mp hb ▸ hab ▸ ha)⟩⟩, m.added)
      else (-1, r, [])
    else (-1, r, [])

/-- `Dev_Registry_InitAll`. -/
def initAll (r : Registry F) : List (ModuleCall F) :=
  r.modules.filterMap fun m => m.init.map (ModuleCall.init m.name)

/-- `Dev_Registry_UpdateAll`. -/
def updateAll (tick : BitVec 32) (r : Registry F) : Registry F × List (ModuleCall F) :=
  (⟨r.modules.map fun m => (m.update tick).1, by simpa using r.room, by simpa [Function.comp_def] using r.distinct⟩,
    r.modules.filterMap fun m => (m.update tick).2)

/-- A module is appended and its functions are called, or nothing happens at all. -/
theorem add_cases (m : SysModule F) (r : Registry F) :
    ((r.add (some m)).1 = 0 ∧ m.name ∉ r.modules.map SysModule.name ∧ (r.add (some m)).2.1.modules = r.modules ++ [m] ∧
      (r.add (some m)).2.2 = m.added) ∨ r.add (some m) = (-1, r, []) := by
  unfold add
  by_cases hroom : r.modules.length < maxRegModules
  · by_cases hnew : m.name ∉ r.modules.map SysModule.name
    · refine .inl ⟨?_, hnew, ?_, ?_⟩ <;> simp only [hroom, hnew, dif_pos, not_false_eq_true]
    · exact .inr (by simp only [hroom, hnew, dif_pos, dif_neg, not_false_eq_true])
  · exact .inr (by simp only [hroom, dif_neg, not_false_eq_true])

end Registry
end

/-! ### The modules over time -/

/-- The registry with the true time, whose low 32 bits are the tick, the time of the latest update, when each module was
    added and what was called so far, each list with the newest first. -/
structure ModuleWorld (F : Type*) where
  registry : Registry F
  now : Nat
  last : Nat
  born : List (String × Nat)
  log : List (Nat × ModuleCall F)

inductive ModuleAct (F : Type*) where
  | add (module : Option (SysModule F))
  | initAll
  | updateAll
  | tick

namespace ModuleWorld
variable {F : Type*}

/-- The device thread starts its loop. -/
def start (now : Nat) : ModuleWorld F := ⟨.empty, now, now, [], []⟩

def called (w : ModuleWorld F) (calls : List (ModuleCall F)) : ModuleWorld F :=
  { w with log := calls.reverse.map (w.now, ·) ++ w.log }

def add (module : Option (SysModule F)) (w : ModuleWorld F) : ModuleWorld F :=
  let r := w.registry.add module
  let w' := { w with registry := r.2.1 }.called r.2.2
  match module with
  | some m => if r.1 = 0 then { w' with born := (m.name, w.now) :: w.born } else w'
  | none => w'

def updateAll (w : ModuleWorld F) : ModuleWorld F :=
  let r := w.registry.updateAll (BitVec.ofNat 32 w.now)
  { w with registry := r.1, last := w.now }.called r.2

def step (w : ModuleWorld F) : ModuleAct F → Option (ModuleWorld F)
  | .add module => some (w.add module)
  | .initAll => some (w.called w.registry.initAll)
  | .updateAll => some w.updateAll
  | .tick => some { w with now := w.now + 1 }

/-- The device thread comes round within `d` ticks. -/
def Timely (d : Nat) (w : ModuleWorld F) : ModuleAct F → Prop
  | .tick => w.now + 1 ≤ w.last + d
  | _ => True

instance decidableTimely (d : Nat) (w : ModuleWorld F) (act : ModuleAct F) : Decidable (Timely d w act) :=
  match act with
  | .tick => inferInstanceAs (Decidable (_ ≤ _))
  | .add _ | .initAll | .updateAll => .isTrue trivial

end ModuleWorld

/-- The calls for the module, the newest first. -/
def ModuleWorld.calls {F : Type*} (w : ModuleWorld F) (name : String) : List (Nat × ModuleCall F) :=
  w.log.filter fun e => e.2.name = name

/-- When the task of the module ran, the newest time first. -/
def ModuleWorld.times {F : Type*} (w : ModuleWorld F) (name : String) : List Nat :=
  ((w.calls name).filter fun e => e.2.isTask).map Prod.fst

/-- The calls of the task of a module that was added at `born`, with the period `p` and updates at most `d` apart: none is
    less than a period after the one before, and each comes with the first update a period later. -/
structure OnSchedule (p d born now : Nat) (times : List Nat) : Prop where
  apart : times.IsChain fun t s => s + p ≤ t ∧ t < s + max p 1 + d
  first : ∀ t ∈ times.getLast?, t ≤ born + p + 2 * d
  served : ∀ t ∈ times.head?, now < t + max p 1 + d
  waiting : times = [] → now ≤ born + p + 2 * d

/-! ### One module -/

section
variable {F : Type*} {d last now born : Nat} {m : SysModule F} {times : List Nat}

/-- A task runs, or the module stays as it is. -/
theorem SysModule.update_cases (tick : BitVec 32) (m : SysModule F) :
    (∃ f, m.enabled ≠ 0 ∧ m.task = some f ∧ m.due tick = true ∧
      m.update tick = ({ m with lastTick := tick }, some (.task m.name f))) ∨
    (m.update tick = (m, none) ∧ (m.enabled ≠ 0 → m.task.isSome → m.due tick = false)) := by
  unfold SysModule.update
  by_cases hen : m.enabled = 0
  · exact .inr ⟨by rw [if_pos hen], fun h => absurd hen h⟩
  rw [if_neg hen]
  cases htask : m.task with
  | none => exact .inr ⟨rfl, fun _ h => by cases h⟩
  | some f =>
    cases hdue : m.due tick with
    | false => exact .inr ⟨by simp only [Bool.false_eq_true, if_false], fun _ _ => rfl⟩
    | true => exact .inl ⟨f, hen, rfl, rfl, by simp only [if_true]⟩

theorem SysModule.mem_update {tick : BitVec 32} {c : ModuleCall F} (hc : c ∈ (m.update tick).2) : c.name = m.name := by
  rcases m.update_cases tick with ⟨f, -, -, -, h⟩ | ⟨h, -⟩
  · rw [h] at hc
    cases hc
    rfl
  · rw [h] at hc
    cases hc

theorem SysModule.due_iff (m : SysModule F) (tick : BitVec 32) :
    m.due tick = true ↔ m.periodMs.toNat = 0 ∨ m.periodMs.toNat ≤ m.waited tick := by
  rw [SysModule.due, Bool.or_eq_true, decide_eq_true_iff, decide_eq_true_iff, ← BitVec.toNat_inj]
  rfl

theorem SysModule.mem_added {c : ModuleCall F} (hc : c ∈ m.added) : c.name = m.name ∧ c.isTask = false := by
  rw [SysModule.added, List.mem_append, Option.mem_toList, Option.mem_toList] at hc
  rcases hc with hc | hc
  · obtain ⟨f, -, rfl⟩ := Option.map_eq_some_iff.mp hc
    exact ⟨rfl, rfl⟩
  · obtain ⟨f, -, rfl⟩ := Option.map_eq_some_iff.mp hc
    exact ⟨rfl, rfl⟩

/-- The counter wraps, what a module has waited does not, up to a round of the counter. -/
theorem SysModule.waited_add {k : Nat} (h : m.waited (BitVec.ofNat 32 last) + k < 2 ^ 32) :
    m.waited (BitVec.ofNat 32 (last + k)) = m.waited (BitVec.ofNat 32 last) + k := by
  have hlast := m.lastTick.isLt
  simp only [SysModule.waited, BitVec.toNat_sub, BitVec.toNat_ofNat] at h ⊢
  omega

theorem SysModule.waited_self (h : m.lastTick = BitVec.ofNat 32 now) : m.waited (BitVec.ofNat 32 now) = 0 := by
  rw [SysModule.waited, h, BitVec.sub_self]
  rfl

/-- What holds of a module that has a task and is enabled, after an update at `last`. -/
structure Awaits (d last : Nat) (m : SysModule F) (born : Nat) (times : List Nat) : Prop where
  apart : times.IsChain fun t s => s + m.periodMs.toNat ≤ t ∧ t < s + max m.periodMs.toNat 1 + d
  first : ∀ t ∈ times.getLast?, t ≤ born + m.periodMs.toNat + 2 * d
  ran : ∀ t ∈ times.head?, t ≤ last ∧ m.waited (BitVec.ofNat 32 last) = last - t ∧
    (last = t ∨ last < t + m.periodMs.toNat)
  fresh : times = [] → last ≤ born ∨ (m.waited (BitVec.ofNat 32 last) < m.periodMs.toNat ∧
    last ≤ born + d + m.waited (BitVec.ofNat 32 last))

theorem Awaits.onSchedule (h : Awaits d last m born times) (hd : 0 < d) (hnow : now ≤ last + d) :
    OnSchedule m.periodMs.toNat d born now times := by
  refine ⟨h.apart, h.first, fun t ht => ?_, fun hnil => ?_⟩
  · obtain ⟨-, -, hlast⟩ := h.ran t ht
    omega
  · rcases h.fresh hnil with hlast | ⟨hwaited, hlast⟩ <;> omega

/-- What a module that had its last update at `last` has waited for at the next one. -/
theorem Awaits.waited (h : Awaits d last m born times) (hroom : d + 2 ^ 16 ≤ 2 ^ 32) (hle : last ≤ now)
    (hnow : now ≤ last + d) :
    (∀ t ∈ times.head?, m.waited (BitVec.ofNat 32 now) = now - t) ∧
      (times = [] → ¬last ≤ born → m.waited (BitVec.ofNat 32 now) = m.waited (BitVec.ofNat 32 last) + (now - last)) := by
  have hp := m.periodMs.isLt
  obtain ⟨k, rfl⟩ := Nat.exists_eq_add_of_le hle
  refine ⟨fun t ht => ?_, fun hnil hborn => ?_⟩
  · obtain ⟨htle, hwaited, hlast⟩ := h.ran t ht
    rw [SysModule.waited_add (by omega), hwaited]
    omega
  · rcases h.fresh hnil with hlast | ⟨hwaited, hlast⟩
    · exact absurd hlast hborn
    · rw [SysModule.waited_add (by omega)]
      omega

theorem Awaits.run (h : Awaits d last m born times) (hroom : d + 2 ^ 16 ≤ 2 ^ 32) (hle : last ≤ now)
    (hnow : now ≤ last + d) (hdue : m.due (BitVec.ofNat 32 now) = true) :
    Awaits d now { m with lastTick := BitVec.ofNat 32 now } born (now :: times) := by
  obtain ⟨hhead, -⟩ := h.waited hroom hle hnow
  have hdue := (m.due_iff _).mp hdue
  refine ⟨?_, fun t ht => ?_, fun t ht => ?_, fun hnil => by cases hnil⟩
  · refine h.apart.cons fun t ht => ?_
    obtain ⟨htle, -, hlast⟩ := h.ran t ht
    have hwaited := hhead t ht
    show t + m.periodMs.toNat ≤ now ∧ now < t + max m.periodMs.toNat 1 + d
    omega
  · cases htimes : times with
    | nil =>
      rw [htimes] at ht
      cases ht
      show now ≤ born + m.periodMs.toNat + 2 * d
      rcases h.fresh htimes with hlast | ⟨hwaited, hlast⟩ <;> omega
    | cons s ts =>
      rw [htimes, List.getLast?_cons_cons] at ht
      exact h.first t (htimes ▸ ht)
  · cases ht
    exact ⟨le_rfl, by rw [SysModule.waited_self rfl, Nat.sub_self], .inl rfl⟩

theorem Awaits.skip (h : Awaits d last m born times) (hroom : d + 2 ^ 16 ≤ 2 ^ 32) (hle : last ≤ now)
    (hnow : now ≤ last + d) (hdue : m.due (BitVec.ofNat 32 now) = false) : Awaits d now m born times := by
  obtain ⟨hhead, hfresh⟩ := h.waited hroom hle hnow
  have hdue : ¬(m.periodMs.toNat = 0 ∨ m.periodMs.toNat ≤ m.waited (BitVec.ofNat 32 now)) :=
    fun hdue' => by rw [(m.due_iff _).mpr hdue'] at hdue; cases hdue
  refine ⟨h.apart, h.first, fun t ht => ?_, fun hnil => .inr ?_⟩
  · obtain ⟨htle, -, -⟩ := h.ran t ht
    have hwaited := hhead t ht
    omega
  · by_cases hborn : last ≤ born
    · omega
    · have hwaited := hfresh hnil hborn
      rcases h.fresh hnil with hlast | ⟨-, hlast⟩ <;> omega

end

/-! ### All modules -/

namespace ModuleWorld
variable {F : Type*} {d : Nat} {w : ModuleWorld F} {m : SysModule F} {born : Nat}

/-- What holds of a module that was added at `born`; the first call for it is that of its init function. -/
structure Tracks (d : Nat) (w : ModuleWorld F) (m : SysModule F) (born : Nat) : Prop where
  known : (m.name, born) ∈ w.born
  init : ∀ f, m.init = some f → (w.calls m.name).getLast? = some (born, .init m.name f)
  awaits : m.enabled ≠ 0 → m.task.isSome → Awaits d w.last m born (w.times m.name)

structure Inv (d : Nat) (w : ModuleWorld F) : Prop where
  le : w.last ≤ w.now
  near : w.now ≤ w.last + d
  names : ∀ e ∈ w.log, e.2.name ∈ w.registry.modules.map SysModule.name
  tracks : ∀ m ∈ w.registry.modules, ∃ born, Tracks d w m born

/-- The calls are what `w'` has logged after `w`. -/
def Logs (w w' : ModuleWorld F) (cs : List (ModuleCall F)) : Prop := w'.log = cs.reverse.map (w.now, ·) ++ w.log

variable {w' : ModuleWorld F} {cs : List (ModuleCall F)}

theorem Logs.calls (h : Logs w w' cs) (name : String) :
    w'.calls name = ((cs.filter fun c => c.name = name).reverse.map (w.now, ·)) ++ w.calls name := by
  rw [ModuleWorld.calls, h, List.filter_append, List.filter_map, List.filter_reverse]
  rfl

theorem Logs.times (h : Logs w w' cs) (name : String) : w'.times name =
    ((cs.filter fun c => c.name = name).filter ModuleCall.isTask).reverse.map (fun _ => w.now) ++ w.times name := by
  rw [ModuleWorld.times, h.calls, List.filter_append, List.map_append, List.filter_map, List.map_map, List.filter_reverse]
  rfl

theorem Logs.times_of_no_task (h : Logs w w' cs) (hno : ∀ c ∈ cs, c.isTask = false) (name : String) :
    w'.times name = w.times name := by
  rw [h.times, List.filter_eq_nil_iff.mpr fun c hc => by
    rw [hno c (List.mem_filter.mp hc).1]
    exact Bool.false_ne_true]
  rfl

/-- Calls that come to a module later leave its first call as it is. -/
theorem Tracks.later {m' : SysModule F} (h : Tracks d w m born) (hlogs : Logs w w' cs) (hname : m'.name = m.name)
    (hinit : m'.init = m.init) (hborn : (m.name, born) ∈ w'.born)
    (hawaits : m'.enabled ≠ 0 → m'.task.isSome → Awaits d w'.last m' born (w'.times m.name)) :
    Tracks d w' m' born := by
  refine ⟨hname ▸ hborn, fun f hf => ?_, by rwa [hname]⟩
  rw [hname, hlogs.calls, List.getLast?_append, h.init f (hinit ▸ hf), Option.some_or]

/-- The world is extended by a module and its first calls, or stays as it is. -/
theorem add_cases (w : ModuleWorld F) (m : SysModule F) :
    (m.name ∉ w.registry.modules.map SysModule.name ∧ (w.add (some m)).registry.modules = w.registry.modules ++ [m] ∧
      (w.add (some m)).now = w.now ∧ (w.add (some m)).last = w.last ∧ (w.add (some m)).born = (m.name, w.now) :: w.born ∧
      Logs w (w.add (some m)) m.added) ∨ w.add (some m) = w := by
  rcases w.registry.add_cases m with ⟨hzero, hnew, hmodules, hcalls⟩ | hrej
  · have hw : w.add (some m) = { ({ w with registry := (w.registry.add (some m)).2.1 }.called
        (w.registry.add (some m)).2.2) with born := (m.name, w.now) :: w.born } := if_pos hzero
    refine .inl ⟨hnew, ?_⟩
    rw [hw, hcalls]
    exact ⟨hmodules, rfl, rfl, rfl, rfl⟩
  · refine .inr ?_
    unfold ModuleWorld.add
    rw [hrej]
    rfl

theorem Inv.calls_eq_nil (inv : Inv d w) {name : String} (hnew : name ∉ w.registry.modules.map SysModule.name) :
    w.calls name = [] := by
  refine List.filter_eq_nil_iff.mpr fun e he hname => hnew ?_
  rw [← of_decide_eq_true hname]
  exact inv.names e he

theorem Inv.log_names (inv : Inv d w) (hlogs : Logs w w' cs) {names : List String}
    (hsub : w.registry.modules.map SysModule.name ⊆ names) (hcalls : ∀ c ∈ cs, c.name ∈ names) :
    ∀ e ∈ w'.log, e.2.name ∈ names := by
  intro e he
  rw [hlogs] at he
  rcases List.mem_append.mp he with he | he
  · obtain ⟨c, hc, rfl⟩ := List.mem_map.mp he
    exact hcalls c (List.mem_reverse.mp hc)
  · exact hsub (inv.names e he)

theorem Inv.initAll (inv : Inv d w) : Inv d (w.called w.registry.initAll) := by
  have hlogs : Logs w (w.called w.registry.initAll) w.registry.initAll := rfl
  have hmem : ∀ c ∈ w.registry.initAll, c.isTask = false ∧ c.name ∈ w.registry.modules.map SysModule.name := by
    intro c hc
    obtain ⟨m, hm, hinit⟩ := List.mem_filterMap.mp hc
    obtain ⟨f, -, rfl⟩ := Option.map_eq_some_iff.mp hinit
    exact ⟨rfl, List.mem_map_of_mem hm⟩
  refine ⟨inv.le, inv.near, inv.log_names hlogs (List.Subset.refl _) fun c hc => (hmem c hc).2, fun m hm => ?_⟩
  obtain ⟨born, tracks⟩ := inv.tracks m hm
  refine ⟨born, tracks.later hlogs rfl rfl tracks.known fun hen htask => ?_⟩
  rw [hlogs.times_of_no_task fun c hc => (hmem c hc).1]
  exact tracks.awaits hen htask

theorem Inv.add (inv : Inv d w) (m : SysModule F) : Inv d (w.add (some m)) := by
  rcases w.add_cases m with ⟨hnew, hmodules, hnow, hlast, hborn, hlogs⟩ | hsame
  · have htimes := hlogs.times_of_no_task fun c hc => (SysModule.mem_added hc).2
    refine ⟨by rw [hlast, hnow]; exact inv.le, by rw [hlast, hnow]; exact inv.near, ?_, fun n hn => ?_⟩
    · rw [hmodules, List.map_append]
      refine inv.log_names hlogs (List.subset_append_left ..) fun c hc => ?_
      rw [(SysModule.mem_added hc).1]
      exact List.mem_append_right _ (List.mem_singleton_self _)
    rw [hmodules] at hn
    rcases List.mem_append.mp hn with hn | hn
    · obtain ⟨born, tracks⟩ := inv.tracks n hn
      refine ⟨born, tracks.later hlogs rfl rfl (hborn ▸ List.mem_cons_of_mem _ tracks.known) fun hen htask => ?_⟩
      rw [htimes, hlast]
      exact tracks.awaits hen htask
    · obtain rfl := List.mem_singleton.mp hn
      have hnil := inv.calls_eq_nil hnew
      refine ⟨w.now, hborn ▸ List.mem_cons_self, fun f hf => ?_, fun _ _ => ?_⟩
      · rw [hlogs.calls, hnil, List.append_nil, List.filter_eq_self.mpr fun c hc =>
          decide_eq_true (SysModule.mem_added hc).1, SysModule.added, hf, List.reverse_append, List.map_append,
          List.getLast?_append]
        rfl
      · rw [htimes, hlast, ModuleWorld.times, hnil]
        exact ⟨.nil, nofun, nofun, fun _ => .inl inv.le⟩
  · rw [hsame]
    exact inv

/-- A module has at most its own call among those of an update. -/
theorem filter_update {ms : List (SysModule F)} (distinct : (ms.map SysModule.name).Nodup) (hm : m ∈ ms)
    (tick : BitVec 32) : (ms.filterMap fun m => (m.update tick).2).filter (fun c => c.name = m.name) =
      (m.update tick).2.toList := by
  induction ms with
  | nil => cases hm
  | cons n ms ih =>
    rw [List.map_cons, List.nodup_cons] at distinct
    rw [show (n :: ms).filterMap (fun m => (m.update tick).2) =
      (n.update tick).2.toList ++ ms.filterMap (fun m => (m.update tick).2) by
        rw [List.filterMap_cons]; cases (n.update tick).2 <;> rfl, List.filter_append]
    rcases List.mem_cons.mp hm with rfl | hm
    · rw [List.filter_eq_self.mpr fun c hc => decide_eq_true (SysModule.mem_update (Option.mem_toList.mp hc)),
        List.filter_eq_nil_iff.mpr, List.append_nil]
      intro c hc hname
      obtain ⟨k, hk, hc⟩ := List.mem_filterMap.mp hc
      rw [SysModule.mem_update hc] at hname
      exact distinct.1 (of_decide_eq_true hname ▸ List.mem_map_of_mem hk)
    · rw [ih distinct.2 hm, List.filter_eq_nil_iff.mpr, List.nil_append]
      intro c hc hname
      rw [SysModule.mem_update (Option.mem_toList.mp hc)] at hname
      exact distinct.1 (of_decide_eq_true hname ▸ List.mem_map_of_mem hm)

theorem Inv.updateAll (inv : Inv d w) (hroom : d + 2 ^ 16 ≤ 2 ^ 32) : Inv d w.updateAll := by
  have hlogs : Logs w w.updateAll (w.registry.modules.filterMap fun m => (m.update (BitVec.ofNat 32 w.now)).2) := rfl
  have hnames : w.updateAll.registry.modules.map SysModule.name = w.registry.modules.map SysModule.name :=
    (List.map_map ..).trans (List.map_congr_left fun m _ => m.update_name _)
  refine ⟨le_rfl, Nat.le_add_right .., ?_, fun m' hm' => ?_⟩
  · rw [hnames]
    refine inv.log_names hlogs (List.Subset.refl _) fun c hc => ?_
    obtain ⟨m, hm, hc⟩ := List.mem_filterMap.mp hc
    rw [SysModule.mem_update hc]
    exact List.mem_map_of_mem hm
  · obtain ⟨m, hm, rfl⟩ := List.mem_map.mp hm'
    obtain ⟨born, tracks⟩ := inv.tracks m hm
    have htimes := hlogs.times m.name
    rw [filter_update w.registry.distinct hm] at htimes
    refine ⟨born, ?_⟩
    rcases m.update_cases (BitVec.ofNat 32 w.now) with ⟨f, hen, htask, hdue, h⟩ | ⟨h, hskip⟩
    · rw [h] at htimes ⊢
      refine tracks.later hlogs rfl rfl tracks.known fun _ _ => ?_
      rw [htimes]
      exact (tracks.awaits hen (by rw [htask]; rfl)).run hroom inv.le inv.near hdue
    · rw [h] at htimes ⊢
      refine tracks.later hlogs rfl rfl tracks.known fun hen htask => ?_
      rw [htimes]
      exact (tracks.awaits hen htask).skip hroom inv.le inv.near (hskip hen htask)

theorem Inv.step (inv : Inv d w) (hroom : d + 2 ^ 16 ≤ 2 ^ 32) {act : ModuleAct F} (timely : Timely d w act)
    (hstep : w.step act = some w') : Inv d w' := by
  cases act with
  | add module =>
    cases hstep
    cases module with
    | none => exact inv
    | some m => exact inv.add m
  | initAll =>
    cases hstep
    exact inv.initAll
  | updateAll =>
    cases hstep
    exact inv.updateAll hroom
  | tick =>
    cases hstep
    refine ⟨Nat.le_succ_of_le inv.le, timely, inv.names, fun m hm => ?_⟩
    obtain ⟨born, tracks⟩ := inv.tracks m hm
    exact ⟨born, tracks.known, tracks.init, tracks.awaits⟩

theorem inv_start (d now : Nat) : Inv d (start now : ModuleWorld F) :=
  ⟨le_rfl, Nat.le_add_right .., by rintro e ⟨⟩, by rintro m ⟨⟩⟩

/-- While the device thread comes round within `d` ticks, the task of every enabled module runs on the schedule of its
    period, also when the tick counter wraps, and not before the module's init function. -/
theorem tasks_on_schedule (hd : 0 < d) (hroom : d + 2 ^ 16 ≤ 2 ^ 32) {now : Nat} {acts : List (ModuleAct F)}
    (run : Run step (Timely d) (start now) acts w) (hm : m ∈ w.registry.modules) :
    ∃ born, (m.name, born) ∈ w.born ∧
      (∀ f, m.init = some f → (w.calls m.name).getLast? = some (born, .init m.name f)) ∧
      (m.enabled ≠ 0 → m.task.isSome → OnSchedule m.periodMs.toNat d born w.now (w.times m.name)) := by
  have inv : Inv d w := run.invariant (inv_start d now) fun _ _ _ ht hok hstep => ht.step hroom hok hstep
  obtain ⟨born, tracks⟩ := inv.tracks m hm
  refine ⟨born, tracks.known, tracks.init, fun hen htask => ?_⟩
  exact (tracks.awaits hen htask).onSchedule hd inv.near

/-- A module with a period of 2 while the tick wraps. -/
def wrapRun : List (ModuleAct Nat) :=
  .add (some (sysModuleRegister "adc" (some 0) none 1 0)) :: .add (some (sysModuleRegister "monitor" (some 1) (some 2) 3 2)) ::
    (List.replicate 6 [.tick, .updateAll]).flatten

theorem tasks_on_schedule_wrap :
    ∃ w : ModuleWorld Nat, w.times "monitor" = [2 ^ 32 + 2, 2 ^ 32, 2 ^ 32 - 2] ∧
      OnSchedule 2 1 (2 ^ 32 - 3) w.now (w.times "monitor") := by
  obtain ⟨w, hexec, htimes, m, hm, hname, hen, htask, hp, hborn⟩ :
      ∃ w, exec (guarded step (Timely 1)) (start (2 ^ 32 - 3)) wrapRun = some w ∧
        w.times "monitor" = [2 ^ 32 + 2, 2 ^ 32, 2 ^ 32 - 2] ∧ ∃ m ∈ w.registry.modules, m.name = "monitor" ∧
          m.enabled ≠ 0 ∧ m.task.isSome ∧ m.periodMs = 2 ∧ ∀ e ∈ w.born, e.1 = "monitor" → e.2 = 2 ^ 32 - 3 :=
    exists_of_any (by decide)
  obtain ⟨born, hknown, -, hsched⟩ := tasks_on_schedule (by decide) (by decide) (Run.of_exec hexec) hm
  have hsched := hsched hen htask
  rw [hp, hname, show born = 2 ^ 32 - 3 from hborn _ hknown hname] at hsched
  exact ⟨w, htimes, hsched⟩

end ModuleWorld

end RodActuator.Task
