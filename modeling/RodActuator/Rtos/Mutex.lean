import RodActuator.Lib.Transition
import RodActuator.Rtos.MessageQueue

/-! The mutex of the kernel (`rt-thread/src/ipc.c`) and the threads that take it. A thread that holds the mutex while others
    wait for it runs at the highest of their priorities, and gets its own back when it releases it to the first of
    them. -/

namespace RodActuator.Rtos
open Transition

def rtMutexHoldMax : Nat := 255

def rtMutexValueMax : Nat := 65535

/-- `struct rt_mutex`; a lower number is a higher priority. -/
structure Mutex (T : Type*) where
  value : Nat
  owner : Option T
  originalPriority : Nat
  hold : Nat
  suspended : List T

/-- The mutex, the priorities of the threads, and how often each of them has taken the mutex and not released it: its calls
    of `rt_mutex_take` that returned success, less those of `rt_mutex_release`. -/
structure MutexState (T : Type*) where
  mutex : Mutex T
  currentPriority : T → Nat
  depth : T → Nat

inductive MutexLabel (T : Type*) where
  | take (t : T) (wait : Bool)
  | release (t : T)

namespace MutexState
variable {T : Type*} [DecidableEq T]

/-- After `rt_mutex_init`. -/
def create (base : T → Nat) : MutexState T := ⟨⟨1, none, 0xFF, 0, []⟩, base, fun _ => 0⟩

def addDepth (t : T) (s : MutexState T) : MutexState T :=
  { s with depth := Function.update s.depth t (s.depth t + 1) }

/-- `rt_mutex_take`, which waits for ever or not at all. A mutex of value zero has an owner. -/
def take (t : T) (wait : Bool) (s : MutexState T) : Option (MutexState T) :=
  if s.mutex.owner = some t then
    if s.mutex.hold < rtMutexHoldMax then
      some (addDepth t { s with mutex := { s.mutex with hold := s.mutex.hold + 1 } })
    else some s
  else if s.mutex.value > 0 then
    let mutex := { s.mutex with
      value := s.mutex.value - 1, owner := some t, originalPriority := s.currentPriority t }
    if mutex.hold < rtMutexHoldMax then
      some (addDepth t { s with mutex := { mutex with hold := mutex.hold + 1 } })
    else some { s with mutex := mutex }
  else if wait then
    match s.mutex.owner with
    | none => none
    | some o =>
      let priority := if s.currentPriority t < s.currentPriority o then
          Function.update s.currentPriority o (s.currentPriority t)
        else s.currentPriority
      some { s with
        mutex := { s.mutex with suspended := ipcListSuspend .prio priority t s.mutex.suspended }
        currentPriority := priority }
  else some s

/-- `rt_mutex_release`; only the owner may. -/
def release (t : T) (s : MutexState T) : MutexState T :=
  if s.mutex.owner = some t then
    let hold := s.mutex.hold - 1
    let depth := Function.update s.depth t (s.depth t - 1)
    if hold = 0 then
      let priority := if s.mutex.originalPriority ≠ s.currentPriority t then
          Function.update s.currentPriority t s.mutex.originalPriority
        else s.currentPriority
      match s.mutex.suspended with
      | u :: suspended =>
        -- The first waiting thread becomes the owner and returns from its call.
        { mutex := { s.mutex with
            owner := some u, originalPriority := priority u, hold := hold + 1, suspended := suspended }
          currentPriority := priority
          depth := Function.update depth u (depth u + 1) }
      | [] =>
        if s.mutex.value < rtMutexValueMax then
          { mutex := { s.mutex with
              value := s.mutex.value + 1, owner := none, originalPriority := 0xFF, hold := hold }
            currentPriority := priority
            depth := depth }
        else { s with mutex := { s.mutex with hold := hold }, currentPriority := priority }
    else { s with mutex := { s.mutex with hold := hold }, depth := depth }
  else s

/-- A suspended thread calls nothing. -/
def step (s : MutexState T) : MutexLabel T → Option (MutexState T)
  | .take t wait => if t ∈ s.mutex.suspended then none else s.take t wait
  | .release t => if t ∈ s.mutex.suspended then none else some (s.release t)

end MutexState

/-- A thread holds the mutex and inherits the highest priority of those that wait. -/
structure Held {T : Type*} (base : T → Nat) (s : MutexState T) (o : T) : Prop where
  owner : s.mutex.owner = some o
  value : s.mutex.value = 0
  hold_pos : 0 < s.mutex.hold
  hold_le : s.mutex.hold ≤ rtMutexHoldMax
  original : s.mutex.originalPriority = base o
  depth_owner : s.depth o = s.mutex.hold
  depth_other : ∀ t, t ≠ o → s.depth t = 0
  priority_other : ∀ t, t ≠ o → s.currentPriority t = base t
  priority_le : s.currentPriority o ≤ base o ∧ ∀ t ∈ s.mutex.suspended, s.currentPriority o ≤ base t
  priority_eq : s.currentPriority o = base o ∨ ∃ t ∈ s.mutex.suspended, s.currentPriority o = base t
  notMem : o ∉ s.mutex.suspended
  nodup : s.mutex.suspended.Nodup
  sorted : s.mutex.suspended.Pairwise fun t u => base t ≤ base u

/-- No thread holds the mutex, none waits for it, and all run at their own priorities. -/
structure Free {T : Type*} (base : T → Nat) (s : MutexState T) : Prop where
  owner : s.mutex.owner = none
  value : s.mutex.value = 1
  hold : s.mutex.hold = 0
  depth : ∀ t, s.depth t = 0
  priority : s.currentPriority = base
  suspended : s.mutex.suspended = []

def Sound {T : Type*} (base : T → Nat) (s : MutexState T) : Prop := Free base s ∨ ∃ o, Held base s o

section
variable {T : Type*} [DecidableEq T] {base : T → Nat} {s s' : MutexState T} {o t : T}

theorem Free.take (h : Free base s) (t : T) (wait : Bool) :
    ∃ s', s.take t wait = some s' ∧ Held base s' t ∧ s'.mutex.hold = 1 ∧ s'.mutex.suspended = [] := by
  have howner : s.mutex.owner ≠ some t := by rw [h.owner]; exact (Option.some_ne_none t).symm
  have hvalue : s.mutex.value > 0 := by rw [h.value]; exact Nat.one_pos
  have hhold : s.mutex.hold < rtMutexHoldMax := by rw [h.hold]; decide
  unfold MutexState.take
  rw [if_neg howner, if_pos hvalue]
  simp only [hhold, if_true]
  refine ⟨_, rfl, ?_, by simp [MutexState.addDepth, h.hold], h.suspended⟩
  exact {
    owner := rfl
    value := by simp [MutexState.addDepth, h.value]
    hold_pos := Nat.succ_pos _
    hold_le := hhold
    original := congrFun h.priority t
    depth_owner := by simp [MutexState.addDepth, h.depth, h.hold]
    depth_other := fun u hu => by simp [MutexState.addDepth, hu, h.depth]
    priority_other := fun u _ => congrFun h.priority u
    priority_le := ⟨Nat.le_of_eq (congrFun h.priority t), by simp [MutexState.addDepth, h.suspended]⟩
    priority_eq := .inl (congrFun h.priority t)
    notMem := by simp [MutexState.addDepth, h.suspended]
    nodup := by simp [MutexState.addDepth, h.suspended]
    sorted := by simp [MutexState.addDepth, h.suspended] }

theorem Held.take_self (h : Held base s o) (wait : Bool) : ∃ s', s.take o wait = some s' ∧ Held base s' o := by
  unfold MutexState.take
  rw [if_pos h.owner]
  split
  · rename_i hmax
    refine ⟨_, rfl, { h with hold_pos := Nat.succ_pos _, hold_le := hmax, depth_owner := ?_, depth_other := ?_ }⟩
    · simp [MutexState.addDepth, h.depth_owner]
    · exact fun u hu => by simp [MutexState.addDepth, hu, h.depth_other u hu]
  · exact ⟨s, rfl, h⟩

/-- A thread that waits lends its priority to the owner. -/
theorem Held.take_other (h : Held base s o) (hto : t ≠ o) (ht : t ∉ s.mutex.suspended) (wait : Bool) :
    ∃ s', s.take t wait = some s' ∧ Held base s' o ∧ s'.mutex.hold = s.mutex.hold ∧
      ∀ u, u ∈ s'.mutex.suspended ↔ (u = t ∧ wait = true) ∨ u ∈ s.mutex.suspended := by
  have howner : s.mutex.owner ≠ some t := by
    rw [h.owner]
    exact fun heq => hto (Option.some.inj heq).symm
  have hvalue : ¬ s.mutex.value > 0 := by rw [h.value]; exact Nat.lt_irrefl 0
  unfold MutexState.take
  rw [if_neg howner, if_neg hvalue, h.owner]
  cases wait with
  | false => exact ⟨s, rfl, h, rfl, by simp⟩
  | true =>
    have htp := h.priority_other t hto
    -- The owner runs at the higher of the two priorities, the others at their own.
    have hpriority : ∀ u, (if s.currentPriority t < s.currentPriority o then
        Function.update s.currentPriority o (s.currentPriority t) else s.currentPriority) u =
          if u = o then min (s.currentPriority o) (base t) else base u := by
      intro u
      rw [htp]
      by_cases hu : u = o
      · subst hu
        rw [if_pos rfl]
        split
        · rw [Function.update_self]
          omega
        · omega
      · rw [if_neg hu]
        split
        · rw [Function.update_of_ne hu, h.priority_other u hu]
        · exact h.priority_other u hu
    obtain ⟨hle, hwait⟩ := h.priority_le
    simp only [if_true]
    generalize hp : (if s.currentPriority t < s.currentPriority o then
        Function.update s.currentPriority o (s.currentPriority t) else s.currentPriority) = priority at hpriority
    have howner : priority o = min (s.currentPriority o) (base t) := (hpriority o).trans (if_pos rfl)
    have hother : ∀ u, u ≠ o → priority u = base u := fun u hu => (hpriority u).trans (if_neg hu)
    have hperm := ipcListSuspend_perm .prio priority t s.mutex.suspended
    have hmem : ∀ u, u ∈ ipcListSuspend .prio priority t s.mutex.suspended ↔ u = t ∨ u ∈ s.mutex.suspended := fun u => by
      rw [hperm.mem_iff, List.mem_cons]
    refine ⟨_, rfl, { h with
      priority_other := hother
      priority_le := ⟨?_, fun u hu => ?_⟩
      priority_eq := ?_
      notMem := fun hmem' => ?_
      nodup := hperm.nodup_iff.mpr (List.nodup_cons.mpr ⟨ht, h.nodup⟩)
      sorted := ?_ }, rfl, fun u => by rw [hmem u]; simp⟩
    · show priority o ≤ base o
      omega
    · show priority o ≤ base u
      rcases (hmem u).mp hu with rfl | hu
      · omega
      · have := hwait u hu
        omega
    · show priority o = base o ∨ ∃ u ∈ _, priority o = base u
      rcases Nat.le_total (s.currentPriority o) (base t) with hlt | hlt
      · rw [howner, Nat.min_eq_left hlt]
        rcases h.priority_eq with heq | ⟨u, hu, heq⟩
        · exact .inl heq
        · exact .inr ⟨u, (hmem u).mpr (.inr hu), heq⟩
      · rw [howner, Nat.min_eq_right hlt]
        exact .inr ⟨t, (hmem t).mpr (.inl rfl), rfl⟩
    · rcases (hmem o).mp hmem' with heq | hmem'
      · exact hto heq.symm
      · exact h.notMem hmem'
    · have hself : ∀ u ∈ s.mutex.suspended, u ≠ o := fun u hu heq => h.notMem (heq ▸ hu)
      have hsorted : s.mutex.suspended.Pairwise fun u v => priority u ≤ priority v :=
        h.sorted.imp_of_mem fun hu hv hle => by rwa [hother _ (hself _ hu), hother _ (hself _ hv)]
      refine (StableInsert.sorted_insert priority t hsorted).imp_of_mem fun {u v} hu hv hle => ?_
      have hne : ∀ u ∈ ipcListSuspend .prio priority t s.mutex.suspended, u ≠ o := fun u hu => by
        rcases (hmem u).mp hu with rfl | hu
        · exact hto
        · exact hself u hu
      rwa [hother u (hne u hu), hother v (hne v hv)] at hle

theorem Held.release_nested (h : Held base s o) (hmore : 1 < s.mutex.hold) : Held base (s.release o) o := by
  have hne : s.mutex.hold - 1 ≠ 0 := by omega
  unfold MutexState.release
  rw [if_pos h.owner]
  simp only [hne, if_false]
  refine { h with hold_pos := ?_, hold_le := ?_, depth_owner := ?_, depth_other := fun u hu => ?_ }
  · exact Nat.pos_of_ne_zero hne
  · exact Nat.le_trans (Nat.sub_le _ _) h.hold_le
  · simp [h.depth_owner]
  · simp only [Function.update_of_ne hu, h.depth_other u hu]

/-- The last release frees the mutex, or the first of those that wait gets it. -/
theorem Held.release_last (h : Held base s o) (hone : s.mutex.hold = 1) :
    (s.mutex.suspended = [] ∧ Free base (s.release o)) ∨
      ∃ u suspended, s.mutex.suspended = u :: suspended ∧ (s.release o).mutex.suspended = suspended ∧
        Held base (s.release o) u ∧ (s.release o).mutex.hold = 1 := by
  have hpriority : (if s.mutex.originalPriority ≠ s.currentPriority o then
      Function.update s.currentPriority o s.mutex.originalPriority else s.currentPriority) = base := by
    funext u
    rw [h.original]
    by_cases hu : u = o
    · subst hu
      split
      · exact Function.update_self ..
      · rename_i heq
        exact (not_not.mp heq).symm
    · split
      · rw [Function.update_of_ne hu, h.priority_other u hu]
      · exact h.priority_other u hu
  have hleave : ∀ u, Function.update s.depth o (s.depth o - 1) u = 0 := by
    intro u
    by_cases hu : u = o
    · subst hu
      rw [Function.update_self, h.depth_owner, hone]
    · rw [Function.update_of_ne hu, h.depth_other u hu]
  have hzero : s.mutex.hold - 1 = 0 := by rw [hone]
  unfold MutexState.release
  rw [if_pos h.owner]
  simp only [hzero, if_true, hpriority]
  cases hsusp : s.mutex.suspended with
  | cons u suspended =>
    have hnodup := h.nodup
    have hsorted := h.sorted
    rw [hsusp] at hnodup hsorted
    obtain ⟨hfirst, hsorted⟩ := List.pairwise_cons.mp hsorted
    obtain ⟨hu, hnodup⟩ := List.nodup_cons.mp hnodup
    exact .inr ⟨u, suspended, rfl, rfl, {
      owner := rfl
      value := h.value
      hold_pos := Nat.one_pos
      hold_le := Nat.succ_le_of_lt (Nat.zero_lt_succ 254)
      original := rfl
      depth_owner := by simp [hleave]
      depth_other := fun v hv => by simp only [Function.update_of_ne hv, hleave]
      priority_other := fun _ _ => rfl
      priority_le := ⟨Nat.le_refl _, hfirst⟩
      priority_eq := .inl rfl
      notMem := hu
      nodup := hnodup
      sorted := hsorted }, rfl⟩
  | nil =>
    have hvalue : s.mutex.value < rtMutexValueMax := by rw [h.value]; decide
    simp only [hvalue, if_true]
    exact .inl ⟨trivial, rfl, by simp [h.value], rfl, hleave, rfl, rfl⟩

theorem Sound.step (h : Sound base s) {l : MutexLabel T} (hstep : s.step l = some s') : Sound base s' := by
  cases l with
  | take t wait =>
    simp only [MutexState.step] at hstep
    split at hstep
    · cases hstep
    · rename_i ht
      rcases h with hfree | ⟨o, hheld⟩
      · obtain ⟨s₁, htake, hheld, -⟩ := hfree.take t wait
        rw [htake] at hstep
        cases hstep
        exact .inr ⟨t, hheld⟩
      · have hnext : ∃ s', s.take t wait = some s' ∧ Held base s' o := by
          by_cases hto : t = o
          · exact hto ▸ hheld.take_self wait
          · obtain ⟨s', htake, hheld', -⟩ := hheld.take_other hto ht wait
            exact ⟨s', htake, hheld'⟩
        obtain ⟨s₁, htake, hheld'⟩ := hnext
        rw [htake] at hstep
        cases hstep
        exact .inr ⟨o, hheld'⟩
  | release t =>
    simp only [MutexState.step] at hstep
    split at hstep
    · cases hstep
    · cases hstep
      by_cases howner : s.mutex.owner = some t
      · rcases h with hfree | ⟨o, hheld⟩
        · rw [hfree.owner] at howner
          cases howner
        · obtain rfl : o = t := Option.some.inj (hheld.owner.symm.trans howner)
          by_cases hone : s.mutex.hold = 1
          · rcases hheld.release_last hone with ⟨-, hfree⟩ | ⟨u, -, -, -, hheld', -⟩
            · exact .inl hfree
            · exact .inr ⟨u, hheld'⟩
          · have hpos := hheld.hold_pos
            exact .inr ⟨o, hheld.release_nested (by omega)⟩
      · rw [MutexState.release, if_neg howner]
        exact h

/-- For every order of takes and releases of any threads, also nested ones, where a take waits forever or not at all: one
    thread at most is between its take and its release; a thread waits only while another is there, which runs at a
    priority no lower than its own; those that are not there run at their own; and no take finds a mutex without value and
    owner. -/
theorem mutex_sound (base : T → Nat) {ls : List (MutexLabel T)}
    (run : exec MutexState.step (MutexState.create base) ls = some s) :
    (∀ t u, 0 < s.depth t → 0 < s.depth u → t = u) ∧
      (∀ t ∈ s.mutex.suspended, s.depth t = 0 ∧ ∃ o, 0 < s.depth o ∧ s.currentPriority o ≤ base t) ∧
      (∀ t, s.depth t = 0 → s.currentPriority t = base t) ∧
      s.mutex.suspended.Pairwise (fun t u => base t ≤ base u) ∧
      ∀ t wait, t ∉ s.mutex.suspended → (s.take t wait).isSome := by
  have hinit : Sound base (MutexState.create base) := .inl ⟨rfl, rfl, rfl, fun _ => rfl, rfl, rfl⟩
  have h : Sound base s := (Run.of_exec_step run).invariant hinit fun s l s' h _ hstep => h.step hstep
  rcases h with hfree | ⟨o, hheld⟩
  · refine ⟨fun t u ht => ?_, ?_, fun t _ => congrFun hfree.priority t, ?_, fun t wait _ => ?_⟩
    · rw [hfree.depth t] at ht
      cases ht
    · rw [hfree.suspended]
      exact fun t ht => absurd ht List.not_mem_nil
    · rw [hfree.suspended]
      exact List.Pairwise.nil
    · obtain ⟨s', htake, -, -⟩ := hfree.take t wait
      exact htake ▸ rfl
  · have honly : ∀ t, 0 < s.depth t → t = o := fun t ht => of_not_not fun hto => by
      rw [hheld.depth_other t hto] at ht
      cases ht
    have hinside : 0 < s.depth o := by
      rw [hheld.depth_owner]
      exact hheld.hold_pos
    refine ⟨fun t u ht hu => (honly t ht).trans (honly u hu).symm, fun t ht => ⟨?_, o, hinside, hheld.priority_le.2 t ht⟩,
      fun t ht => hheld.priority_other t fun hto => ?_, hheld.sorted, fun t wait ht => ?_⟩
    · exact hheld.depth_other t fun hto => hheld.notMem (hto ▸ ht)
    · rw [hto] at ht
      omega
    · by_cases hto : t = o
      · obtain ⟨s', htake, -⟩ := hheld.take_self wait
        exact hto ▸ htake ▸ rfl
      · obtain ⟨s', htake, -⟩ := hheld.take_other hto ht wait
        exact htake ▸ rfl

/-- A thread of the priority 20 has taken the mutex twice when one of the priority 5 waits for it: it runs at 5. -/
theorem mutex_sound_inherits : ∃ s : MutexState Bool, s.depth false = 2 ∧ s.depth true = 0 ∧
    s.currentPriority false ≤ 5 := by
  obtain ⟨s, hs, hsusp, hdepth⟩ : ∃ s : MutexState Bool, exec MutexState.step
      (MutexState.create fun t : Bool => if t then 5 else 20) [.take false true, .take false true, .take true true] = some s ∧
        true ∈ s.mutex.suspended ∧ s.depth false = 2 := exists_of_any (by decide)
  obtain ⟨honly, hwaits, -⟩ := mutex_sound (fun t : Bool => if t then 5 else 20) hs
  obtain ⟨hzero, o, ho, hprio⟩ := hwaits true hsusp
  obtain rfl : false = o := honly false o (by omega) ho
  exact ⟨s, hdepth, hzero, hprio⟩

end

end RodActuator.Rtos
