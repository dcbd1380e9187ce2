import RodActuator.Rtos.Mutex

/-! Data under a mutex. A call changes the data step by step between a take and a release, and any other thread may run in
    between; to one that takes the mutex the data is always what the earlier calls made of it as a whole. -/

namespace RodActuator.Rtos
open Transition

/-- Data under a mutex, the call that each thread is in with the updates that it has still to do, and the calls in the order
    in which they got the mutex. -/
structure Guarded (T D E : Type*) where
  lock : MutexState T
  data : D
  call : T → Option (E × List (D → D))
  order : List E

inductive GuardedLabel (T E : Type*) where
  | enter (t : T) (e : E)
  | work (t : T)
  | leave (t : T)

namespace Guarded
variable {T D E : Type*} [DecidableEq T]

def create (base : T → Nat) (data : D) : Guarded T D E := ⟨.create base, data, fun _ => none, []⟩

/-- A call of the thread that has got the mutex comes next in the order. -/
def enroll (t : T) (s : Guarded T D E) : Guarded T D E := { s with order := s.order ++ ((s.call t).map Prod.fst).toList }

/-- A thread takes the mutex for a call and may have to wait for it; holding it, it does an update of the data; and when
    all are done, it releases the mutex. -/
def step (updates : E → List (D → D)) (s : Guarded T D E) : GuardedLabel T E → Option (Guarded T D E)
  | .enter t e =>
    if s.call t = none then
      (s.lock.step (.take t true)).map fun lock =>
        let s := { s with lock := lock, call := Function.update s.call t (some (e, updates e)) }
        if lock.mutex.owner = some t then s.enroll t else s
    else none
  | .work t =>
    match s.call t with
    | some (e, f :: rest) =>
      if 0 < s.lock.depth t then
        some { s with data := f s.data, call := Function.update s.call t (some (e, rest)) }
      else none
    | _ => none
  | .leave t =>
    match s.call t with
    | some (_, []) =>
      if 0 < s.lock.depth t then
        (s.lock.step (.release t)).map fun lock =>
          let s := { s with lock := lock, call := Function.update s.call t none }
          match lock.mutex.owner with
          | some u => s.enroll u
          | none => s
      else none
    | _ => none

/-- The data after the calls, each as a whole. -/
def serial (updates : E → List (D → D)) (data : D) (order : List E) : D :=
  order.foldl (fun d e => (updates e).foldl (fun d f => f d) d) data

/-- The updates of a thread that holds the mutex lead to what the calls make of the data, and those of a waiting thread are
    all still to be done. -/
structure Atomic (updates : E → List (D → D)) (data : D) (base : T → Nat) (s : Guarded T D E) : Prop where
  lock : (Free base s.lock ∧ s.data = serial updates data s.order) ∨
    ∃ o, Held base s.lock o ∧ s.lock.mutex.hold = 1 ∧ ∃ e rest, s.call o = some (e, rest) ∧
      rest.foldl (fun d f => f d) s.data = serial updates data s.order
  waiting : ∀ t ∈ s.lock.mutex.suspended, ∃ e, s.call t = some (e, updates e)

variable {updates : E → List (D → D)} {data : D} {base : T → Nat} {s s' : Guarded T D E} {t : T} {e : E}

theorem serial_concat (order : List E) (e : E) : serial updates data (order ++ [e]) =
    (updates e).foldl (fun d f => f d) (serial updates data order) := by
  rw [serial, List.foldl_append]
  rfl

theorem Atomic.enter (h : Atomic updates data base s) (hcall : s.call t = none) {lock : MutexState T}
    (hlock : s.lock.step (.take t true) = some lock) :
    let s := { s with lock := lock, call := Function.update s.call t (some (e, updates e)) }
    Atomic updates data base (if lock.mutex.owner = some t then s.enroll t else s) := by
  have hself : Function.update s.call t (some (e, updates e)) t = some (e, updates e) := Function.update_self ..
  simp only [MutexState.step] at hlock
  split at hlock
  · cases hlock
  · rename_i ht
    rcases h.lock with ⟨hfree, hdata⟩ | ⟨o, hheld, hone, e', rest, hcall', hrest⟩
    · obtain ⟨lock', htake, hheld, hone, hsusp⟩ := hfree.take t true
      rw [htake] at hlock
      cases hlock
      simp only [hheld.owner, if_true]
      refine ⟨.inr ⟨t, hheld, hone, e, updates e, hself, ?_⟩, fun u hu => ?_⟩
      · simp only [enroll, hself, Option.map_some, Option.toList_some, serial_concat, hdata]
      · exact absurd (hsusp ▸ hu) List.not_mem_nil
    · have hto : t ≠ o := fun heq => by rw [heq, hcall'] at hcall; cases hcall
      obtain ⟨lock', htake, hheld', hhold, hmem⟩ := hheld.take_other hto ht true
      rw [htake] at hlock
      cases hlock
      have howner : lock.mutex.owner ≠ some t := by
        rw [hheld'.owner]
        exact fun heq => hto (Option.some.inj heq).symm
      simp only [howner, if_false]
      refine ⟨.inr ⟨o, hheld', hhold.trans hone, e', rest, ?_, hrest⟩, fun u hu => ?_⟩
      · exact (Function.update_of_ne hto.symm ..).trans hcall'
      · rcases (hmem u).mp hu with ⟨rfl, -⟩ | hu
        · exact ⟨e, hself⟩
        · have hut : u ≠ t := fun heq => ht (heq ▸ hu)
          obtain ⟨e'', hcall''⟩ := h.waiting u hu
          exact ⟨e'', (Function.update_of_ne hut ..).trans hcall''⟩

omit [DecidableEq T] in
theorem Atomic.holder (h : Atomic updates data base s) (ht : 0 < s.lock.depth t) :
    Held base s.lock t ∧ s.lock.mutex.hold = 1 ∧ ∃ e rest, s.call t = some (e, rest) ∧
      rest.foldl (fun d f => f d) s.data = serial updates data s.order := by
  rcases h.lock with ⟨hfree, -⟩ | ⟨o, hheld, hone, hcall⟩
  · rw [hfree.depth t] at ht
    cases ht
  · have hto : t = o := of_not_not fun hto => by
      rw [hheld.depth_other t hto] at ht
      cases ht
    exact hto ▸ ⟨hheld, hone, hcall⟩

theorem Atomic.work (h : Atomic updates data base s) (ht : 0 < s.lock.depth t) {f : D → D} {rest : List (D → D)}
    (hcall : s.call t = some (e, f :: rest)) :
    Atomic updates data base { s with data := f s.data, call := Function.update s.call t (some (e, rest)) } := by
  obtain ⟨hheld, hone, e', rest', hcall', hrest⟩ := h.holder ht
  rw [hcall] at hcall'
  cases hcall'
  refine ⟨.inr ⟨t, hheld, hone, e, rest, Function.update_self .., hrest⟩, fun u hu => ?_⟩
  have hut : u ≠ t := fun heq => hheld.notMem (heq ▸ hu)
  obtain ⟨e', he'⟩ := h.waiting u hu
  exact ⟨e', (Function.update_of_ne hut ..).trans he'⟩

theorem Atomic.leave (h : Atomic updates data base s) (ht : 0 < s.lock.depth t) (hcall : s.call t = some (e, [])) :
    let s := { s with lock := s.lock.release t, call := Function.update s.call t none }
    Atomic updates data base (match s.lock.mutex.owner with
      | some u => s.enroll u
      | none => s) := by
  obtain ⟨hheld, hone, e', rest', hcall', hrest⟩ := h.holder ht
  rw [hcall] at hcall'
  cases hcall'
  have hkept : ∀ u ∈ s.lock.mutex.suspended, ∃ e, Function.update s.call t none u = some (e, updates e) := fun u hu => by
    have hut : u ≠ t := fun heq => hheld.notMem (heq ▸ hu)
    rw [Function.update_of_ne hut]
    exact h.waiting u hu
  rcases hheld.release_last hone with ⟨-, hfree⟩ | ⟨u, suspended, hsusp, hsusp', hheld', hone'⟩
  · simp only [hfree.owner]
    refine ⟨.inl ⟨hfree, hrest⟩, fun u hu => ?_⟩
    exact absurd (hfree.suspended ▸ hu) List.not_mem_nil
  · -- The first of those that waited does its call next.
    obtain ⟨e', he'⟩ := hkept u (hsusp ▸ List.mem_cons_self)
    simp only [hheld'.owner]
    refine ⟨.inr ⟨u, hheld', hone', e', updates e', he', ?_⟩, fun v hv => ?_⟩
    · rw [List.foldl_nil] at hrest
      simp only [enroll, he', Option.map_some, Option.toList_some, serial_concat, hrest]
    · rw [enroll, hsusp'] at hv
      exact hkept v (hsusp ▸ List.mem_cons_of_mem u hv)

theorem Atomic.step (h : Atomic updates data base s) {l : GuardedLabel T E} (hstep : s.step updates l = some s') :
    Atomic updates data base s' := by
  cases l with
  | enter t e =>
    simp only [Guarded.step] at hstep
    split at hstep
    · obtain ⟨lock, hlock, rfl⟩ := Option.map_eq_some_iff.mp hstep
      exact h.enter ‹_› hlock
    · cases hstep
  | work t =>
    simp only [Guarded.step] at hstep
    split at hstep
    · split at hstep
      · cases hstep
        exact h.work ‹_› ‹_›
      · cases hstep
    · cases hstep
  | leave t =>
    simp only [Guarded.step] at hstep
    split at hstep
    · rename_i hcall
      split at hstep
      · rename_i ht
        have hnot : t ∉ s.lock.mutex.suspended := (h.holder ht).1.notMem
        simp only [MutexState.step, hnot, if_false, Option.map_some] at hstep
        cases hstep
        exact h.leave ht hcall
      · cases hstep
    · cases hstep

theorem atomic_run (updates : E → List (D → D)) (data : D) (base : T → Nat) {ls : List (GuardedLabel T E)}
    (run : exec (Guarded.step updates) (create base data) ls = some s) : Atomic updates data base s := by
  refine (Run.of_exec_step run).invariant ⟨.inl ⟨?_, rfl⟩, ?_⟩ fun s l s' h _ hstep => h.step hstep
  · exact ⟨rfl, rfl, rfl, fun _ => rfl, rfl, rfl⟩
  · exact fun t ht => absurd ht List.not_mem_nil

end Guarded

end RodActuator.Rtos
