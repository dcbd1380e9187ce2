import RodActuator.Lib.LinkedList
import RodActuator.Lib.StableInsert
import RodActuator.Lib.Transition
import Mathlib.Data.BitVec

/-! The message queue of the kernel (`rt-thread/src/ipc.c`). The messages lie in the cells of a pool; a cell is in
    the list of the free ones, in the list of the messages, or in the hands of a thread between the two critical
    sections of a call. The interrupts are off only within these sections, so that the calls of several threads
    interleave at their borders. -/

namespace RodActuator.Rtos
open LinkedList

abbrev Byte : Type := BitVec 8

inductive IpcFlag where
  | fifo | prio
  deriving DecidableEq, Repr

/-- Where `_ipc_list_suspend` puts a thread; a lower number is a higher priority. -/
def ipcListSuspend {T : Type*} (flag : IpcFlag) (prio : T → Nat) (t : T) (list : List T) : List T :=
  match flag with
  | .fifo => list ++ [t]
  | .prio => StableInsert.insert prio t list

theorem ipcListSuspend_perm {T : Type*} (flag : IpcFlag) (prio : T → Nat) (t : T) (list : List T) :
    (ipcListSuspend flag prio t list).Perm (t :: list) := by
  cases flag with
  | fifo => exact List.perm_append_singleton t list
  | prio => exact StableInsert.insert_perm prio t list

def rtAlignSize : Nat := 4

/-- `RT_ALIGN`. -/
def rtAlign (size align : Nat) : Nat := (size + align - 1) / align * align

def rtMqEntryMax : Nat := 65535

/-- `struct rt_messagequeue` with its pool: the link of each cell and the bytes behind it. -/
structure MessageQueue (n : Nat) where
  msgSize : Nat
  next : Fin n → Option (Fin n)
  body : Fin n → List Byte
  msgQueueHead : Option (Fin n)
  msgQueueTail : Option (Fin n)
  msgQueueFree : Option (Fin n)
  entry : Nat

namespace MessageQueue
variable {n : Nat}

/-- The last thing that a call does to a cell: it becomes the first free one. -/
def putFree (c : Fin n) (mq : MessageQueue n) : MessageQueue n :=
  { mq with next := Function.update mq.next c mq.msgQueueFree, msgQueueFree := some c }

/-- No cell is in a list; the memory of the pool holds anything. -/
def blank (msgSize : Nat) (next : Fin n → Option (Fin n)) (body : Fin n → List Byte) : MessageQueue n where
  msgSize := rtAlign msgSize rtAlignSize
  next := next
  body := body
  msgQueueHead := none
  msgQueueTail := none
  msgQueueFree := none
  entry := 0

/-- `rt_mq_create`. -/
def create (msgSize : Nat) (next : Fin n → Option (Fin n)) (body : Fin n → List Byte) : MessageQueue n :=
  (List.finRange n).foldl (fun mq c => mq.putFree c) (blank msgSize next body)

theorem create_kept (msgSize : Nat) (next : Fin n → Option (Fin n)) (body : Fin n → List Byte) :
    (create msgSize next body).body = body ∧ (create msgSize next body).msgSize = rtAlign msgSize rtAlignSize := by
  have hkept : ∀ (cells : List (Fin n)) (mq : MessageQueue n),
      (cells.foldl (fun mq c => mq.putFree c) mq).body = mq.body ∧
        (cells.foldl (fun mq c => mq.putFree c) mq).msgSize = mq.msgSize := by
    intro cells
    induction cells with
    | nil => exact fun mq => ⟨rfl, rfl⟩
    | cons c cells ih => exact fun mq => ih (mq.putFree c)
  exact hkept (List.finRange n) (blank msgSize next body)

def takeFree (c : Fin n) (mq : MessageQueue n) : MessageQueue n := { mq with msgQueueFree := mq.next c }

/-- `rt_mq_send` clears the link of its cell, `rt_mq_urgent` does not; both copy the message behind it. -/
def copyIn (c : Fin n) (msg : List Byte) (urgent : Bool) (mq : MessageQueue n) : MessageQueue n :=
  { mq with
    next := if urgent then mq.next else Function.update mq.next c none
    body := Function.update mq.body c (msg ++ (mq.body c).drop msg.length) }

def linkTail (c : Fin n) (mq : MessageQueue n) : MessageQueue n :=
  { mq with
    next := match mq.msgQueueTail with
      | some tail => Function.update mq.next tail (some c)
      | none => mq.next
    msgQueueTail := some c
    msgQueueHead := if mq.msgQueueHead = none then some c else mq.msgQueueHead }

def linkHead (c : Fin n) (mq : MessageQueue n) : MessageQueue n :=
  { mq with
    next := Function.update mq.next c mq.msgQueueHead
    msgQueueHead := some c
    msgQueueTail := if mq.msgQueueTail = none then some c else mq.msgQueueTail }

def link (c : Fin n) (urgent : Bool) (mq : MessageQueue n) : MessageQueue n :=
  if urgent then mq.linkHead c else mq.linkTail c

def removeHead (c : Fin n) (mq : MessageQueue n) : MessageQueue n :=
  { mq with
    msgQueueHead := mq.next c
    msgQueueTail := if mq.msgQueueTail = some c then none else mq.msgQueueTail
    entry := if mq.entry > 0 then mq.entry - 1 else mq.entry }

def copyOut (c : Fin n) (size : Nat) (mq : MessageQueue n) : List Byte :=
  (mq.body c).take (if size > mq.msgSize then mq.msgSize else size)

end MessageQueue

/-! ### The calls of the threads -/

/-- What a call returned; a receiver has also got a message. -/
inductive Ret (M : Type*) where
  | ok | error | full | timeout
  | message (m : M)

/-- Where a thread is in the functions of the queue: in none of them, or behind one of the critical sections or
    copies, or suspended. -/
inductive Phase (n : Nat) where
  | idle (ret : Ret (List Byte))
  | taken (c : Fin n) (msg : List Byte) (urgent : Bool)
  | stored (c : Fin n) (msg : List Byte) (urgent : Bool)
  | waiting (size : Nat)
  | removed (c : Fin n) (size : Nat)
  | loaded (c : Fin n) (out : List Byte)

/-- The cell that a thread has in its hands. -/
def Phase.cell {n : Nat} : Phase n → Option (Fin n)
  | .taken c _ _ | .stored c _ _ | .removed c _ | .loaded c _ => some c
  | .idle _ | .waiting _ => none

/-- The pieces of the calls: of `rt_mq_send` and `rt_mq_urgent` the first critical section, the copy and the second
    one, of `rt_mq_recv` the same, and the second try of a thread that was resumed. -/
inductive MqLabel (T : Type*) where
  | take (t : T) (msg : List Byte) (urgent : Bool)
  | store (t : T)
  | link (t : T)
  | recv (t : T) (size : Nat) (wait : Bool)
  | retry (t : T)
  | load (t : T)
  | free (t : T)

/-- The queue, the threads in its functions, those that it has suspended, and those that it has resumed and that
    have not run on yet. -/
structure MqState (T : Type*) (n : Nat) where
  mq : MessageQueue n
  phase : T → Phase n
  suspended : List T
  resumed : List T

namespace MqState
variable {T : Type*} [DecidableEq T] {n : Nat}

def create (msgSize : Nat) (next : Fin n → Option (Fin n)) (body : Fin n → List Byte) : MqState T n :=
  ⟨.create msgSize next body, fun _ => .idle .ok, [], []⟩

def setPhase (t : T) (p : Phase n) (s : MqState T n) : MqState T n := { s with phase := Function.update s.phase t p }

/-- `_ipc_list_resume`, when a thread is suspended. -/
def resume (s : MqState T n) : MqState T n :=
  match s.suspended with
  | t :: suspended => { s with suspended := suspended, resumed := s.resumed ++ [t] }
  | [] => s

/-- Takes the first message out of the list, or waits for one. -/
def receive (flag : IpcFlag) (prio : T → Nat) (t : T) (size : Nat) (wait : Bool) (s : MqState T n) :
    Option (MqState T n) :=
  if s.mq.entry = 0 then
    if wait then some { s.setPhase t (.waiting size) with suspended := ipcListSuspend flag prio t s.suspended }
    else some (s.setPhase t (.idle .timeout))
  else
    s.mq.msgQueueHead.map fun c => { s.setPhase t (.removed c size) with mq := s.mq.removeHead c }

/-- A step of one thread. A send does not wait, and a receiver waits for ever or not at all. -/
def step (flag : IpcFlag) (prio : T → Nat) (s : MqState T n) : MqLabel T → Option (MqState T n)
  | .take t msg urgent =>
    match s.phase t with
    | .idle _ =>
      if msg.length > s.mq.msgSize then some (s.setPhase t (.idle .error))
      else match s.mq.msgQueueFree with
        | none => some (s.setPhase t (.idle .full))
        | some c => some { s.setPhase t (.taken c msg urgent) with mq := s.mq.takeFree c }
    | _ => none
  | .store t =>
    match s.phase t with
    | .taken c msg urgent => some { s.setPhase t (.stored c msg urgent) with mq := s.mq.copyIn c msg urgent }
    | _ => none
  | .link t =>
    match s.phase t with
    | .stored c _ urgent =>
      let mq := s.mq.link c urgent
      if mq.entry < rtMqEntryMax then
        some { s.setPhase t (.idle .ok) with mq := { mq with entry := mq.entry + 1 } }.resume
      else some { s.setPhase t (.idle .full) with mq := mq }
    | _ => none
  | .recv t size wait =>
    match s.phase t with
    | .idle _ => s.receive flag prio t size wait
    | _ => none
  | .retry t =>
    match s.phase t with
    | .waiting size =>
      if t ∈ s.resumed then { s with resumed := s.resumed.erase t }.receive flag prio t size true else none
    | _ => none
  | .load t =>
    match s.phase t with
    | .removed c size => some (s.setPhase t (.loaded c (s.mq.copyOut c size)))
    | _ => none
  | .free t =>
    match s.phase t with
    | .loaded c out => some { s.setPhase t (.idle (.message out)) with mq := s.mq.putFree c }
    | _ => none

omit [DecidableEq T] in
theorem resume_eq (s : MqState T n) : s.resume = { s with suspended := s.resume.suspended, resumed := s.resume.resumed } := by
  unfold resume
  split <;> rfl

omit [DecidableEq T] in
theorem resume_mq (s : MqState T n) : s.resume.mq = s.mq := by rw [resume_eq]

theorem receive_msgSize {flag : IpcFlag} {prio : T → Nat} {t : T} {size : Nat} {wait : Bool} {s s' : MqState T n}
    (h : s.receive flag prio t size wait = some s') : s'.mq.msgSize = s.mq.msgSize := by
  unfold receive at h
  split at h
  · split at h <;> cases h <;> rfl
  · obtain ⟨c, -, rfl⟩ := Option.map_eq_some_iff.mp h
    rfl

end MqState

/-! ### Where the cells are -/

/-- The cells that are free, those of the messages and those in the hands of the threads: every cell is in one
    place, and the lists lie as they should. -/
structure Layout {T : Type*} {n : Nat} (mq : MessageQueue n) (hand : T → Option (Fin n)) (free queue : List (Fin n)) : Prop
    where
  free_chain : Chain mq.next mq.msgQueueFree free
  queue_chain : Chain mq.next mq.msgQueueHead queue
  tail_eq : mq.msgQueueTail = queue.getLast?
  entry_eq : mq.entry = queue.length
  nodup : (free ++ queue).Nodup
  notMem : ∀ t c, hand t = some c → c ∉ free ++ queue
  alone : ∀ t u c, hand t = some c → hand u = some c → t = u
  covered : ∀ c, c ∈ free ++ queue ∨ ∃ t, hand t = some c

namespace Layout
open MessageQueue
variable {T : Type*} {n : Nat} {mq : MessageQueue n} {hand : T → Option (Fin n)} {free queue : List (Fin n)}
  {t : T} {c : Fin n}

theorem create (msgSize : Nat) (next : Fin n → Option (Fin n)) (body : Fin n → List Byte) :
    Layout (MessageQueue.create msgSize next body) (fun _ : T => none) (List.finRange n).reverse [] := by
  have hfold : ∀ (cells done : List (Fin n)) (mq : MessageQueue n), (done ++ cells).Nodup →
      Chain mq.next mq.msgQueueFree done.reverse → mq.msgQueueHead = none ∧ mq.msgQueueTail = none ∧ mq.entry = 0 →
      let mq' := cells.foldl (fun mq c => mq.putFree c) mq
      Chain mq'.next mq'.msgQueueFree (done ++ cells).reverse ∧
        mq'.msgQueueHead = none ∧ mq'.msgQueueTail = none ∧ mq'.entry = 0 := by
    intro cells
    induction cells with
    | nil =>
      intro done mq _ hchain hrest
      rw [List.append_nil]
      exact ⟨hchain, hrest⟩
    | cons c cells ih =>
      intro done mq hnodup hchain hrest
      have hc : c ∉ done.reverse := fun hmem =>
        (List.disjoint_of_nodup_append hnodup) (List.mem_reverse.mp hmem) List.mem_cons_self
      have happ : done ++ c :: cells = done ++ [c] ++ cells := by simp
      rw [happ] at hnodup ⊢
      refine ih (done ++ [c]) (mq.putFree c) hnodup ?_ hrest
      rw [List.reverse_append]
      exact hchain.push hc
  obtain ⟨hchain, hhead, htail, hentry⟩ := hfold (List.finRange n) [] (blank msgSize next body)
    (by simpa using List.nodup_finRange n) rfl ⟨rfl, rfl, rfl⟩
  refine ⟨hchain, hhead, htail, hentry, ?_, ?_, ?_, fun c => .inl ?_⟩
  · simpa using List.nodup_finRange n
  · rintro t c ⟨⟩
  · rintro t u c ⟨⟩
  · simp

theorem hand_ne (h : Layout mq hand free queue) (ht : hand t = some c) {u : T} (hu : u ≠ t) {d : Fin n}
    (hd : hand u = some d) : d ≠ c := fun heq => hu (h.alone u t c (heq ▸ hd) ht)

theorem copyIn (h : Layout mq hand free queue) (ht : hand t = some c) (msg : List Byte) (urgent : Bool) :
    Layout (mq.copyIn c msg urgent) hand free queue := by
  obtain ⟨hfree, hqueue⟩ := not_or.mp (mt List.mem_append.mpr (h.notMem t c ht))
  refine ⟨?_, ?_, h.tail_eq, h.entry_eq, h.nodup, h.notMem, h.alone, h.covered⟩
  · cases urgent with
    | true => exact h.free_chain
    | false => exact h.free_chain.update hfree none
  · cases urgent with
    | true => exact h.queue_chain
    | false => exact h.queue_chain.update hqueue none

/-- The links after a cell without a link was put behind the last one. -/
theorem linkTail_chain (h : Layout mq hand free queue) (ht : hand t = some c) (hlink : mq.next c = none) :
    Chain (mq.linkTail c).next (mq.linkTail c).msgQueueFree free ∧
      Chain (mq.linkTail c).next (mq.linkTail c).msgQueueHead (queue ++ [c]) := by
  have htail := h.tail_eq
  have hnotMem := not_or.mp (mt List.mem_append.mpr (h.notMem t c ht))
  rcases List.eq_nil_or_concat' queue with rfl | ⟨front, last, rfl⟩
  · have hhead : mq.msgQueueHead = none := h.queue_chain
    rw [List.getLast?_nil] at htail
    simp only [MessageQueue.linkTail, htail, hhead, if_true]
    exact ⟨h.free_chain, rfl, hlink⟩
  · rw [List.getLast?_concat] at htail
    have hhead : mq.msgQueueHead ≠ none := fun hnone => by
      have hchain := h.queue_chain
      rw [hnone] at hchain
      exact absurd hchain.eq_nil (by simp)
    have hlast : last ∉ front := by
      have hn := (List.nodup_append.mp h.nodup).2.1
      exact fun hmem => (List.disjoint_of_nodup_append hn) hmem (List.mem_singleton_self last)
    have hfree : last ∉ free := fun hmem =>
      (List.disjoint_of_nodup_append h.nodup) hmem (List.mem_append_right _ (List.mem_singleton_self last))
    simp only [MessageQueue.linkTail, htail, hhead, if_false]
    exact ⟨h.free_chain.update hfree _, h.queue_chain.concat hlast hnotMem.2 hlink⟩

variable [DecidableEq T]

theorem hand_update {hand : T → Option (Fin n)} {u : T} {d : Fin n} (hu : Function.update hand t (some c) u = some d) :
    (u = t ∧ d = c) ∨ (u ≠ t ∧ hand u = some d) := by
  by_cases hut : u = t
  · subst hut
    rw [Function.update_self] at hu
    exact .inl ⟨rfl, (Option.some.inj hu).symm⟩
  · rw [Function.update_of_ne hut] at hu
    exact .inr ⟨hut, hu⟩

/-- A cell comes from one of the lists into the hands of a thread. -/
theorem pick (nodup : (free ++ queue).Nodup) (notMem : ∀ t c, hand t = some c → c ∉ free ++ queue)
    (alone : ∀ t u c, hand t = some c → hand u = some c → t = u) (covered : ∀ c, c ∈ free ++ queue ∨ ∃ t, hand t = some c)
    (ht : hand t = none) {free' queue' : List (Fin n)} (perm : (free ++ queue).Perm (c :: (free' ++ queue'))) :
    (free' ++ queue').Nodup ∧ (∀ u d, Function.update hand t (some c) u = some d → d ∉ free' ++ queue') ∧
      (∀ u v d, Function.update hand t (some c) u = some d → Function.update hand t (some c) v = some d → u = v) ∧
      ∀ d, d ∈ free' ++ queue' ∨ ∃ u, Function.update hand t (some c) u = some d := by
  obtain ⟨hc, hnodup⟩ := List.nodup_cons.mp (perm.nodup_iff.mp nodup)
  have hmem : ∀ d, d ∈ free ++ queue ↔ d = c ∨ d ∈ free' ++ queue' := fun d => by rw [perm.mem_iff, List.mem_cons]
  refine ⟨hnodup, fun u d hu => ?_, fun u v d hu hv => ?_, fun d => ?_⟩
  · rcases hand_update hu with ⟨-, rfl⟩ | ⟨-, hu⟩
    · exact hc
    · exact fun hd => notMem u d hu ((hmem d).mpr (.inr hd))
  · rcases hand_update hu with ⟨hut, hd⟩ | ⟨-, hu'⟩ <;> rcases hand_update hv with ⟨hvt, hd'⟩ | ⟨-, hv'⟩
    · exact hut.trans hvt.symm
    · exact absurd ((hmem d).mpr (.inl hd)) (notMem v d hv')
    · exact absurd ((hmem d).mpr (.inl hd')) (notMem u d hu')
    · exact alone u v d hu' hv'
  · rcases covered d with hd | ⟨u, hu⟩
    · rcases (hmem d).mp hd with rfl | hd
      · exact .inr ⟨t, Function.update_self ..⟩
      · exact .inl hd
    · have hut : u ≠ t := fun heq => by rw [heq, ht] at hu; cases hu
      exact .inr ⟨u, by rw [Function.update_of_ne hut, hu]⟩

/-- A cell goes from the hands of a thread into one of the lists. -/
theorem drop (nodup : (free ++ queue).Nodup) (notMem : ∀ t c, hand t = some c → c ∉ free ++ queue)
    (alone : ∀ t u c, hand t = some c → hand u = some c → t = u) (covered : ∀ c, c ∈ free ++ queue ∨ ∃ t, hand t = some c)
    (ht : hand t = some c) {free' queue' : List (Fin n)} (perm : (free' ++ queue').Perm (c :: (free ++ queue))) :
    (free' ++ queue').Nodup ∧ (∀ u d, Function.update hand t none u = some d → d ∉ free' ++ queue') ∧
      (∀ u v d, Function.update hand t none u = some d → Function.update hand t none v = some d → u = v) ∧
      ∀ d, d ∈ free' ++ queue' ∨ ∃ u, Function.update hand t none u = some d := by
  have hmem : ∀ d, d ∈ free' ++ queue' ↔ d = c ∨ d ∈ free ++ queue := fun d => by rw [perm.mem_iff, List.mem_cons]
  have hupd : ∀ {u d}, Function.update hand t none u = some d → u ≠ t ∧ hand u = some d := by
    intro u d hu
    by_cases hut : u = t
    · rw [hut, Function.update_self] at hu
      cases hu
    · rw [Function.update_of_ne hut] at hu
      exact ⟨hut, hu⟩
  refine ⟨perm.nodup_iff.mpr (List.nodup_cons.mpr ⟨notMem t c ht, nodup⟩), fun u d hu => ?_, fun u v d hu hv => ?_,
    fun d => ?_⟩
  · obtain ⟨hut, hu⟩ := hupd hu
    rintro hd
    rcases (hmem d).mp hd with rfl | hd
    · exact hut (alone u t d hu ht)
    · exact notMem u d hu hd
  · exact alone u v d (hupd hu).2 (hupd hv).2
  · rcases covered d with hd | ⟨u, hu⟩
    · exact .inl ((hmem d).mpr (.inr hd))
    · by_cases hut : u = t
      · rw [hut, ht] at hu
        cases hu
        exact .inl ((hmem c).mpr (.inl rfl))
      · exact .inr ⟨u, by rw [Function.update_of_ne hut, hu]⟩

theorem takeFree (h : Layout mq hand (c :: free) queue) (ht : hand t = none) :
    Layout (mq.takeFree c) (Function.update hand t (some c)) free queue := by
  obtain ⟨hnodup, hnotMem, halone, hcovered⟩ := pick h.nodup h.notMem h.alone h.covered ht (List.Perm.refl _)
  exact ⟨h.free_chain.2, h.queue_chain, h.tail_eq, h.entry_eq, hnodup, hnotMem, halone, hcovered⟩

theorem removeHead (h : Layout mq hand free (c :: queue)) (ht : hand t = none) :
    Layout (mq.removeHead c) (Function.update hand t (some c)) free queue := by
  obtain ⟨hnodup, hnotMem, halone, hcovered⟩ := pick h.nodup h.notMem h.alone h.covered ht List.perm_middle
  refine ⟨h.free_chain, h.queue_chain.2, ?_, ?_, hnodup, hnotMem, halone, hcovered⟩
  · -- The last cell is the first one just when no other is left.
    have htail := h.tail_eq
    have hc : c ∉ queue := (List.nodup_cons.mp (List.nodup_append.mp h.nodup).2.1).1
    simp only [MessageQueue.removeHead, htail]
    cases hqueue : queue.getLast? with
    | none =>
      rw [List.getLast?_eq_none_iff.mp hqueue]
      simp
    | some d =>
      have hd : d ∈ queue := List.mem_of_getLast? hqueue
      have hne : d ≠ c := fun heq => hc (heq ▸ hd)
      simp [List.getLast?_cons, hqueue, hne]
  · simp only [MessageQueue.removeHead, h.entry_eq]
    simp

theorem putFree (h : Layout mq hand free queue) (ht : hand t = some c) :
    Layout (mq.putFree c) (Function.update hand t none) (c :: free) queue := by
  obtain ⟨hfree, hqueue⟩ := not_or.mp (mt List.mem_append.mpr (h.notMem t c ht))
  have hperm : ((c :: free) ++ queue).Perm (c :: (free ++ queue)) := List.Perm.refl _
  obtain ⟨hnodup, hnotMem, halone, hcovered⟩ := drop h.nodup h.notMem h.alone h.covered ht hperm
  exact ⟨h.free_chain.push hfree, h.queue_chain.update hqueue _, h.tail_eq, h.entry_eq, hnodup, hnotMem, halone,
    hcovered⟩

theorem linkTail (h : Layout mq hand free queue) (ht : hand t = some c) (hlink : mq.next c = none) :
    Layout { mq.linkTail c with entry := mq.entry + 1 } (Function.update hand t none) free (queue ++ [c]) := by
  obtain ⟨hfree, hqueue⟩ := h.linkTail_chain ht hlink
  have hperm : (free ++ (queue ++ [c])).Perm (c :: (free ++ queue)) := by
    rw [← List.append_assoc]
    exact List.perm_append_singleton c _
  obtain ⟨hnodup, hnotMem, halone, hcovered⟩ := drop h.nodup h.notMem h.alone h.covered ht hperm
  refine ⟨hfree, hqueue, ?_, ?_, hnodup, hnotMem, halone, hcovered⟩
  · simp [MessageQueue.linkTail]
  · simp [h.entry_eq]

theorem linkHead (h : Layout mq hand free queue) (ht : hand t = some c) :
    Layout { mq.linkHead c with entry := mq.entry + 1 } (Function.update hand t none) free (c :: queue) := by
  obtain ⟨hfree, hqueue⟩ := not_or.mp (mt List.mem_append.mpr (h.notMem t c ht))
  have hperm : (free ++ c :: queue).Perm (c :: (free ++ queue)) := List.perm_middle
  obtain ⟨hnodup, hnotMem, halone, hcovered⟩ := drop h.nodup h.notMem h.alone h.covered ht hperm
  refine ⟨h.free_chain.update hfree _, h.queue_chain.push hqueue, ?_, ?_, hnodup, hnotMem, halone, hcovered⟩
  · simp only [MessageQueue.linkHead, h.tail_eq]
    rcases List.eq_nil_or_concat' queue with rfl | ⟨front, last, rfl⟩
    · rfl
    · simp [List.getLast?_cons]
  · simp [h.entry_eq]

end Layout

/-! ### Calls that run alone -/

namespace MessageQueue
variable {n : Nat} {mq : MessageQueue n} {msgs : List (List Byte)} {msg : List Byte}

/-- `rt_mq_send` and `rt_mq_urgent` when no other call is on its way; `none` is an error. -/
def send (msg : List Byte) (urgent : Bool) (mq : MessageQueue n) : Option (MessageQueue n) :=
  if msg.length > mq.msgSize then none
  else mq.msgQueueFree.map fun c =>
    let mq := ((mq.takeFree c).copyIn c msg urgent).link c urgent
    { mq with entry := mq.entry + 1 }

/-- `rt_mq_recv` when no other call is on its way and a message is there. -/
def recv (size : Nat) (mq : MessageQueue n) : Option (List Byte × MessageQueue n) :=
  if mq.entry = 0 then none
  else mq.msgQueueHead.map fun c => ((mq.removeHead c).copyOut c size, (mq.removeHead c).putFree c)

/-- The cells hold the messages, each of the full size, and no call is on its way. -/
structure Holds (mq : MessageQueue n) (msgs : List (List Byte)) (free queue : List (Fin n)) : Prop where
  layout : Layout mq (fun _ : Unit => none) free queue
  count : free.length + queue.length = n
  body_length : ∀ c, (mq.body c).length = mq.msgSize
  bodies : queue.map mq.body = msgs

theorem holds_create (msgSize : Nat) (next : Fin n → Option (Fin n)) {body : Fin n → List Byte}
    (hbody : ∀ c, (body c).length = rtAlign msgSize rtAlignSize) :
    Holds (create msgSize next body) [] (List.finRange n).reverse [] := by
  obtain ⟨hb, hs⟩ := create_kept msgSize next body
  refine ⟨Layout.create msgSize next body, by simp, fun c => ?_, rfl⟩
  rw [hb, hs, hbody c]

theorem update_unit (o o' : Option (Fin n)) : Function.update (fun _ : Unit => o) () o' = fun _ => o' := by
  funext u
  rw [Subsingleton.elim u (), Function.update_self]

variable {free queue : List (Fin n)}

theorem Holds.length_eq (h : Holds mq msgs free queue) : msgs.length = queue.length := by
  rw [← h.bodies, List.length_map]

theorem Holds.send_full (h : Holds mq msgs free queue) (hfull : msgs.length ≥ n) (msg : List Byte) (urgent : Bool) :
    mq.send msg urgent = none := by
  have hcount := h.count
  have hlength := h.length_eq
  unfold MessageQueue.send
  rw [← h.layout.free_chain.head?_eq, List.length_eq_zero_iff.mp (show free.length = 0 by omega)]
  split <;> rfl

theorem Holds.send_room (h : Holds mq msgs free queue) (hroom : msgs.length < n) (hlen : msg.length = mq.msgSize)
    (urgent : Bool) : ∃ mq' free' queue', mq.send msg urgent = some mq' ∧ mq'.msgSize = mq.msgSize ∧
      Holds mq' (if urgent then msg :: msgs else msgs ++ [msg]) free' queue' := by
  have hcount := h.count
  have hlength := h.length_eq
  obtain ⟨c, free', rfl⟩ := List.exists_cons_of_length_pos (show 0 < free.length by omega)
  have hfree : mq.msgQueueFree = some c := h.layout.free_chain.head?_eq.symm
  -- The cell goes through the hand of the caller.
  have hone := h.layout.takeFree (t := ()) rfl
  rw [update_unit] at hone
  have htwo := hone.copyIn (t := ()) rfl msg urgent
  have hother : ∀ d ∈ queue, d ≠ c := fun d hd heq => hone.notMem () c rfl (heq ▸ List.mem_append_right _ hd)
  have hdrop : msg ++ (mq.body c).drop msg.length = msg := by
    rw [List.drop_of_length_le (by rw [h.body_length, hlen]), List.append_nil]
  have hqueue : queue.map (Function.update mq.body c msg) = msgs := by
    rw [← h.bodies]
    exact List.map_congr_left fun d hd => Function.update_of_ne (hother d hd) ..
  have hbody : ∀ d, (Function.update mq.body c msg d).length = mq.msgSize := fun d => by
    by_cases hd : d = c
    · rw [hd, Function.update_self, hlen]
    · rw [Function.update_of_ne hd, h.body_length]
  rw [List.length_cons] at hcount
  unfold MessageQueue.send
  rw [if_neg (show ¬ msg.length > mq.msgSize by omega), hfree, Option.map_some]
  cases urgent with
  | true =>
    have hthree := htwo.linkHead (t := ()) rfl
    rw [update_unit] at hthree
    refine ⟨_, free', c :: queue, rfl, rfl, hthree, ?_, ?_, ?_⟩
    · rw [List.length_cons]
      omega
    · simpa only [link, linkHead, copyIn, takeFree, hdrop, if_true] using hbody
    · simp only [link, linkHead, copyIn, takeFree, hdrop, if_true, List.map_cons, Function.update_self, hqueue]
  | false =>
    have hthree := htwo.linkTail (t := ()) rfl (by simp [copyIn])
    rw [update_unit] at hthree
    refine ⟨_, free', queue ++ [c], rfl, rfl, hthree, ?_, ?_, ?_⟩
    · rw [List.length_append, List.length_singleton]
      omega
    · simpa [link, linkTail, copyIn, takeFree, hdrop] using hbody
    · simp [link, linkTail, copyIn, takeFree, hdrop, hqueue]

theorem Holds.recv_nil (h : Holds mq [] free queue) (size : Nat) : mq.recv size = none := by
  have hqueue : queue = [] := List.map_eq_nil_iff.mp h.bodies
  rw [recv, h.layout.entry_eq, hqueue]
  rfl

theorem Holds.recv_cons (h : Holds mq (msg :: msgs) free queue) : ∃ mq' free' queue', mq.recv mq.msgSize = some (msg, mq') ∧
    mq'.msgSize = mq.msgSize ∧ Holds mq' msgs free' queue' := by
  obtain ⟨c, queue, rfl, rfl, hmsgs⟩ := List.map_eq_cons_iff.mp h.bodies
  have hhead : mq.msgQueueHead = some c := h.layout.queue_chain.head?_eq.symm
  have hone := h.layout.removeHead (t := ()) rfl
  rw [update_unit] at hone
  have htwo := hone.putFree (t := ()) rfl
  rw [update_unit] at htwo
  have hcount := h.count
  rw [List.length_cons] at hcount
  rw [recv, h.layout.entry_eq, List.length_cons, if_neg (Nat.succ_ne_zero _), hhead]
  have hout : (mq.removeHead c).copyOut c mq.msgSize = mq.body c := by
    have htake : (mq.body c).take mq.msgSize = mq.body c := List.take_of_length_le (Nat.le_of_eq (h.body_length c))
    simp only [copyOut, removeHead, gt_iff_lt, Nat.lt_irrefl, if_false, htake]
  refine ⟨(mq.removeHead c).putFree c, c :: free, queue, ?_, rfl, htwo, ?_, h.body_length, hmsgs⟩
  · rw [Option.map_some, hout]
  · rw [List.length_cons]
    omega

end MessageQueue

end RodActuator.Rtos
