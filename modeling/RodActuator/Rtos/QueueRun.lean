import RodActuator.Rtos.MessageQueue

/-! The message queue as its callers see it: a list of messages on which the calls act at once, whatever the threads
    do between their critical sections. A send takes effect when its cell is linked, a receive when its cell is
    removed, and a call that has a cell in its hands counts as a message until it gives the cell back. -/

namespace RodActuator.Rtos
open LinkedList Transition

/-- A call; one that has received names its message and the size of its buffer. -/
inductive Call where
  | idle (ret : Ret (List Byte × Nat))
  | sending (msg : List Byte) (urgent : Bool)
  | waiting (size : Nat)
  | receiving (msg : List Byte) (size : Nat)

/-- The messages that wait, the calls of the threads, and how many of these have a cell in their hands. -/
structure Deque (T : Type*) where
  messages : List (List Byte)
  call : T → Call
  inHand : Nat

namespace Deque
variable {T : Type*} [DecidableEq T]

def empty : Deque T := ⟨[], fun _ => .idle .ok, 0⟩

def setCall (t : T) (c : Call) (d : Deque T) : Deque T := { d with call := Function.update d.call t c }

def receive (t : T) (size : Nat) (wait : Bool) (d : Deque T) : Deque T :=
  match d.messages with
  | [] => d.setCall t (if wait then .waiting size else .idle .timeout)
  | msg :: messages => { d.setCall t (.receiving msg size) with messages := messages, inHand := d.inHand + 1 }

/-- The effect of a piece of a call in a queue of `n` messages; the copies have none. -/
def step (n msgSize : Nat) (d : Deque T) : MqLabel T → Option (Deque T)
  | .take t msg urgent =>
    match d.call t with
    | .idle _ =>
      if msg.length > msgSize then some (d.setCall t (.idle .error))
      else if d.messages.length + d.inHand ≥ n then some (d.setCall t (.idle .full))
      else some { d.setCall t (.sending msg urgent) with inHand := d.inHand + 1 }
    | _ => none
  | .link t =>
    match d.call t with
    | .sending msg urgent =>
      some { d.setCall t (.idle .ok) with
        messages := if urgent then msg :: d.messages else d.messages ++ [msg], inHand := d.inHand - 1 }
    | _ => none
  | .recv t size wait =>
    match d.call t with
    | .idle _ => some (d.receive t size wait)
    | _ => none
  | .retry t =>
    match d.call t with
    | .waiting size => some (d.receive t size true)
    | _ => none
  | .free t =>
    match d.call t with
    | .receiving msg size => some { d.setCall t (.idle (.message (msg, size))) with inHand := d.inHand - 1 }
    | _ => none
  | .store _ | .load _ => some d

end Deque

/-! ### What the state stands for -/

/-- What a buffer of a size gets of a message: its bytes, and behind them what the cell held before. -/
def Delivers (msgSize : Nat) (msg : List Byte) (size : Nat) (out : List Byte) : Prop :=
  ∃ stale, (msg ++ stale).length = msgSize ∧ out = (msg ++ stale).take size

inductive RetMatches (msgSize : Nat) : Ret (List Byte) → Ret (List Byte × Nat) → Prop where
  | ok : RetMatches msgSize .ok .ok
  | error : RetMatches msgSize .error .error
  | full : RetMatches msgSize .full .full
  | timeout : RetMatches msgSize .timeout .timeout
  | message {out msg : List Byte} {size : Nat} (hout : Delivers msgSize msg size out) :
      RetMatches msgSize (.message out) (.message (msg, size))

variable {T : Type*} {n : Nat}

inductive Matches (mq : MessageQueue n) : Phase n → Call → Prop where
  | idle {r : Ret (List Byte)} {r' : Ret (List Byte × Nat)} (hret : RetMatches mq.msgSize r r') :
      Matches mq (.idle r) (.idle r')
  | taken (c : Fin n) {msg : List Byte} (urgent : Bool) (hlen : msg.length ≤ mq.msgSize) :
      Matches mq (.taken c msg urgent) (.sending msg urgent)
  | stored {c : Fin n} {msg : List Byte} {urgent : Bool} (hbody : msg <+: mq.body c)
      (hlink : urgent = false → mq.next c = none) : Matches mq (.stored c msg urgent) (.sending msg urgent)
  | waiting (size : Nat) : Matches mq (.waiting size) (.waiting size)
  | removed {c : Fin n} {msg : List Byte} (size : Nat) (hbody : msg <+: mq.body c) :
      Matches mq (.removed c size) (.receiving msg size)
  | loaded (c : Fin n) {out msg : List Byte} {size : Nat} (hout : Delivers mq.msgSize msg size out) :
      Matches mq (.loaded c out) (.receiving msg size)

/-- The cells in the hands of the threads. -/
def MqState.hand (s : MqState T n) (t : T) : Option (Fin n) := (s.phase t).cell

/-- The state stands for the deque: the cells of the list hold its messages, each thread is where its call is, and the
    cells that are not free are those of the messages and of the calls. -/
structure Refines (s : MqState T n) (d : Deque T) (free queue : List (Fin n)) : Prop where
  layout : Layout s.mq s.hand free queue
  count : free.length + queue.length + d.inHand = n
  body_length : ∀ c, (s.mq.body c).length = s.mq.msgSize
  messages : List.Forall₂ (fun c msg => msg <+: s.mq.body c) queue d.messages
  calls : ∀ t, Matches s.mq (s.phase t) (d.call t)

/-- A store into other cells changes nothing for a thread. -/
theorem Matches.frame {mq mq' : MessageQueue n} {p : Phase n} {call : Call} (h : Matches mq p call)
    (hsize : mq'.msgSize = mq.msgSize) (hcell : ∀ c, p.cell = some c → mq'.body c = mq.body c ∧ mq'.next c = mq.next c) :
    Matches mq' p call := by
  cases h with
  | idle hret => exact .idle (hsize ▸ hret)
  | taken c urgent hlen => exact .taken c urgent (hsize ▸ hlen)
  | stored hbody hlink =>
    obtain ⟨hb, hn⟩ := hcell _ rfl
    exact .stored (hb ▸ hbody) fun hu => hn.trans (hlink hu)
  | waiting size => exact .waiting size
  | removed size hbody =>
    obtain ⟨hb, -⟩ := hcell _ rfl
    exact .removed size (hb ▸ hbody)
  | loaded c hout => exact .loaded c (hsize ▸ hout)

theorem Matches.idle_inv {mq : MessageQueue n} {p : Phase n} {r : Ret (List Byte)} {call : Call} (h : Matches mq p call)
    (hp : p = .idle r) : ∃ r', call = .idle r' ∧ RetMatches mq.msgSize r r' := by
  subst hp
  cases h with
  | idle hret => exact ⟨_, rfl, hret⟩

theorem Refines.create (msgSize : Nat) (next : Fin n → Option (Fin n)) {body : Fin n → List Byte}
    (hbody : ∀ c, (body c).length = rtAlign msgSize rtAlignSize) :
    Refines (MqState.create msgSize next body : MqState T n) Deque.empty (List.finRange n).reverse [] := by
  refine ⟨Layout.create msgSize next body, by simp [Deque.empty], fun c => ?_, .nil, fun _ => .idle .ok⟩
  obtain ⟨hb, hs⟩ := MessageQueue.create_kept msgSize next body
  rw [MqState.create, hb, hs, hbody c]

variable {s : MqState T n} {d : Deque T} {free queue : List (Fin n)} {t : T} {c : Fin n}

theorem hand_eq {p : Phase n} (h : s.phase t = p) : s.hand t = p.cell := congrArg Phase.cell h

/-- A cell in a hand is one more than those in the lists. -/
theorem Refines.room (h : Refines s d free queue) (ht : s.hand t = some c) :
    free.length + queue.length < n ∧ 0 < d.inHand := by
  have hnodup : (c :: (free ++ queue)).Nodup := List.nodup_cons.mpr ⟨h.layout.notMem t c ht, h.layout.nodup⟩
  have hle := hnodup.length_le_card
  have hcount := h.count
  rw [Fintype.card_fin, List.length_cons, List.length_append] at hle
  omega

theorem Refines.isFull_iff (h : Refines s d free queue) :
    d.messages.length + d.inHand ≥ n ↔ s.mq.msgQueueFree = none := by
  have hcount := h.count
  have hlen := h.messages.length_eq
  rw [← h.layout.free_chain.head?_eq, List.head?_eq_none_iff, ← List.length_eq_zero_iff]
  omega

/-- The lists of threads hold no cells. -/
theorem Refines.lists (h : Refines s d free queue) (suspended resumed : List T) :
    Refines { s with suspended := suspended, resumed := resumed } d free queue :=
  ⟨h.layout, h.count, h.body_length, h.messages, h.calls⟩

section
variable [DecidableEq T]

theorem hand_setPhase (s : MqState T n) (t : T) (p : Phase n) :
    (s.setPhase t p).hand = Function.update s.hand t p.cell := by
  funext u
  by_cases hu : u = t
  · subst hu
    simp [MqState.hand, MqState.setPhase]
  · simp [MqState.hand, MqState.setPhase, hu]

/-- The other threads see no change of the cells in their hands. -/
theorem Refines.calls_update (h : Refines s d free queue) {mq' : MessageQueue n} {p : Phase n} {call : Call}
    (hsize : mq'.msgSize = s.mq.msgSize)
    (hcell : ∀ u c, u ≠ t → s.hand u = some c → mq'.body c = s.mq.body c ∧ mq'.next c = s.mq.next c)
    (ht : Matches mq' p call) : ∀ u, Matches mq' (Function.update s.phase t p u) (Function.update d.call t call u) := by
  intro u
  by_cases hu : u = t
  · subst hu
    rwa [Function.update_self, Function.update_self]
  · rw [Function.update_of_ne hu, Function.update_of_ne hu]
    exact (h.calls u).frame hsize fun c hc => hcell u c hu hc

/-! ### The steps -/

theorem layout_setPhase {mq : MessageQueue n} {p : Phase n} (h : Layout mq (Function.update s.hand t p.cell) free queue) :
    Layout mq (s.setPhase t p).hand free queue := by
  rw [hand_setPhase]
  exact h

/-- A return without a cell in hand changes the thread alone. -/
theorem Refines.ret (h : Refines s d free queue) (ht : s.hand t = none) {p : Phase n} {call : Call} (hp : p.cell = none)
    (hmatch : Matches s.mq p call) : Refines (s.setPhase t p) (d.setCall t call) free queue := by
  refine ⟨layout_setPhase ?_, h.count, h.body_length, h.messages,
    h.calls_update rfl (fun _ _ _ _ => ⟨rfl, rfl⟩) hmatch⟩
  rw [hp, ← ht, Function.update_eq_self]
  exact h.layout

theorem Refines.take (h : Refines s d free queue) (ht : s.hand t = none) {msg : List Byte}
    (hlen : msg.length ≤ s.mq.msgSize) (urgent : Bool) (hfree : s.mq.msgQueueFree = some c) :
    ∃ free', Refines { s.setPhase t (.taken c msg urgent) with mq := s.mq.takeFree c }
      { d.setCall t (.sending msg urgent) with inHand := d.inHand + 1 } free' queue := by
  have hchain := h.layout.free_chain
  rw [hfree] at hchain
  obtain ⟨free', rfl, -⟩ := hchain.exists_cons
  have hcount := h.count
  refine ⟨free', layout_setPhase (h.layout.takeFree ht), ?_, h.body_length, h.messages,
    h.calls_update rfl (fun _ _ _ _ => ⟨rfl, rfl⟩) (.taken c urgent hlen)⟩
  rw [List.length_cons] at hcount
  show free'.length + queue.length + (d.inHand + 1) = n
  omega

theorem Refines.store (h : Refines s d free queue) {msg : List Byte} {urgent : Bool}
    (ht : s.phase t = .taken c msg urgent) :
    Refines { s.setPhase t (.stored c msg urgent) with mq := s.mq.copyIn c msg urgent } d free queue := by
  have hhand : s.hand t = some c := hand_eq ht
  have hmatch := h.calls t
  rw [ht] at hmatch
  have hcall : d.call t = .sending msg urgent ∧ msg.length ≤ s.mq.msgSize := by
    generalize d.call t = call at hmatch
    cases hmatch with
    | taken _ _ hlen => exact ⟨rfl, hlen⟩
  refine ⟨layout_setPhase ?_, h.count, fun c' => ?_, ?_, ?_⟩
  · have hlay := h.layout.copyIn hhand msg urgent
    rwa [show (Phase.stored c msg urgent).cell = s.hand t from hhand.symm, Function.update_eq_self]
  · have hlen := h.body_length c
    by_cases hc' : c' = c
    · subst hc'
      simp only [MessageQueue.copyIn, Function.update_self, List.length_append, List.length_drop, hlen]
      omega
    · simpa only [MessageQueue.copyIn, Function.update_of_ne hc'] using h.body_length c'
  · have hqueue : ∀ c' ∈ queue, c' ≠ c := fun c' hc' heq =>
      h.layout.notMem t c hhand (heq ▸ List.mem_append_right _ hc')
    refine ((List.forall₂_and_left _ _).mpr ⟨hqueue, h.messages⟩).imp fun c' _ hc' => ?_
    simp only [MessageQueue.copyIn, Function.update_of_ne hc'.1, hc'.2]
  · have hd : Function.update d.call t (.sending msg urgent) = d.call := by
      rw [← hcall.1, Function.update_eq_self]
    rw [← hd]
    refine h.calls_update rfl (fun u c' hu hc' => ?_) (.stored ?_ ?_)
    · have hne := h.layout.hand_ne hhand hu hc'
      cases urgent <;> simp [MessageQueue.copyIn, hne]
    · simp [MessageQueue.copyIn]
    · rintro rfl
      simp [MessageQueue.copyIn]

theorem Refines.link (h : Refines s d free queue) {msg : List Byte} {urgent : Bool}
    (ht : s.phase t = .stored c msg urgent) :
    d.call t = .sending msg urgent ∧ ∃ queue',
      Refines { s.setPhase t (.idle .ok) with mq := { s.mq.link c urgent with entry := s.mq.entry + 1 } }
        { d.setCall t (.idle .ok) with
          messages := if urgent then msg :: d.messages else d.messages ++ [msg], inHand := d.inHand - 1 } free queue' := by
  have hhand : s.hand t = some c := hand_eq ht
  obtain ⟨hroom, hpos⟩ := h.room hhand
  have hcount := h.count
  have hmatch := h.calls t
  rw [ht] at hmatch
  generalize hcall : d.call t = call at hmatch
  cases hmatch with
  | stored hbody hlink =>
  refine ⟨rfl, ?_⟩
  cases urgent with
  | true =>
    refine ⟨c :: queue, layout_setPhase (h.layout.linkHead hhand), ?_, h.body_length, .cons hbody h.messages,
      h.calls_update rfl (fun u c' hu hc' => ⟨rfl, ?_⟩) (.idle .ok)⟩
    · show free.length + (queue.length + 1) + (d.inHand - 1) = n
      omega
    · exact Function.update_of_ne (h.layout.hand_ne hhand hu hc') ..
  | false =>
    refine ⟨queue ++ [c], layout_setPhase (h.layout.linkTail hhand (hlink rfl)), ?_, h.body_length,
      List.rel_append h.messages (.cons hbody .nil), h.calls_update rfl (fun u c' hu hc' => ⟨rfl, ?_⟩) (.idle .ok)⟩
    · simp only [List.length_append, List.length_singleton]
      omega
    · -- The last cell is in the list, and the cell of the other thread is not.
      have htail := h.layout.tail_eq
      simp only [MessageQueue.link, MessageQueue.linkTail, Bool.false_eq_true, if_false]
      cases hlast : s.mq.msgQueueTail with
      | none => rfl
      | some tail =>
        have hmem : tail ∈ queue := List.mem_of_getLast? (htail.symm.trans hlast)
        have hne : c' ≠ tail := fun heq => h.layout.notMem u c' hc' (heq ▸ List.mem_append_right _ hmem)
        exact Function.update_of_ne hne ..

theorem Refines.receive (h : Refines s d free queue) (ht : s.hand t = none) (flag : IpcFlag) (prio : T → Nat)
    (size : Nat) (wait : Bool) : ∃ s' queue', s.receive flag prio t size wait = some s' ∧
      Refines s' (d.receive t size wait) free queue' := by
  have hentry := h.layout.entry_eq
  have hmessages := h.messages
  generalize hd : d.messages = messages at hmessages
  cases hmessages with
  | nil =>
    simp only [MqState.receive, hentry, List.length_nil, if_true, Deque.receive, hd]
    cases wait with
    | true => exact ⟨_, [], rfl, (h.ret ht rfl (.waiting size)).lists _ _⟩
    | false => exact ⟨_, [], rfl, h.ret ht rfl (.idle .timeout)⟩
  | @cons c msg queue messages hbody hmessages =>
    have hhead : s.mq.msgQueueHead = some c := h.layout.queue_chain.head?_eq.symm
    have hcount := h.count
    simp only [MqState.receive, hentry, List.length_cons, Nat.succ_ne_zero, if_false, hhead, Option.map_some,
      Deque.receive, hd]
    refine ⟨_, queue, rfl, layout_setPhase (h.layout.removeHead ht), ?_, h.body_length, hmessages,
      h.calls_update rfl (fun _ _ _ _ => ⟨rfl, rfl⟩) (.removed size hbody)⟩
    rw [List.length_cons] at hcount
    show free.length + queue.length + (d.inHand + 1) = n
    omega

theorem Refines.load (h : Refines s d free queue) {size : Nat} (ht : s.phase t = .removed c size) :
    Refines (s.setPhase t (.loaded c (s.mq.copyOut c size))) d free queue := by
  have hhand : s.hand t = some c := hand_eq ht
  have hmatch := h.calls t
  rw [ht] at hmatch
  generalize hcall : d.call t = call at hmatch
  cases hmatch with
  | @removed _ msg _ hbody =>
  have hlen := h.body_length c
  refine ⟨layout_setPhase ?_, h.count, h.body_length, h.messages, ?_⟩
  · have hlay := h.layout
    rwa [show (Phase.loaded c (s.mq.copyOut c size)).cell = s.hand t from hhand.symm, Function.update_eq_self]
  · have hd : Function.update d.call t (.receiving msg size) = d.call := by
      rw [← hcall, Function.update_eq_self]
    obtain ⟨stale, hstale⟩ := hbody
    rw [← hd]
    refine h.calls_update rfl (fun _ _ _ _ => ⟨rfl, rfl⟩) (.loaded c ⟨stale, hstale ▸ hlen, ?_⟩)
    rw [MessageQueue.copyOut, ← hstale]
    split
    · -- Both sides are the whole cell.
      rw [hstale, List.take_of_length_le (by omega), List.take_of_length_le (by omega)]
    · rfl

theorem Refines.putFree (h : Refines s d free queue) {out : List Byte} (ht : s.phase t = .loaded c out) :
    ∃ msg size, d.call t = .receiving msg size ∧
      Refines { s.setPhase t (.idle (.message out)) with mq := s.mq.putFree c }
        { d.setCall t (.idle (.message (msg, size))) with inHand := d.inHand - 1 } (c :: free) queue := by
  have hhand : s.hand t = some c := hand_eq ht
  obtain ⟨hroom, hpos⟩ := h.room hhand
  have hcount := h.count
  have hmatch := h.calls t
  rw [ht] at hmatch
  generalize hcall : d.call t = call at hmatch
  cases hmatch with
  | @loaded _ _ msg size hout =>
  refine ⟨msg, size, rfl, layout_setPhase (h.layout.putFree hhand), ?_, h.body_length, h.messages,
    h.calls_update rfl (fun u c' hu hc' => ⟨rfl, ?_⟩) (.idle (.message hout))⟩
  · show free.length + 1 + queue.length + (d.inHand - 1) = n
    omega
  · exact Function.update_of_ne (h.layout.hand_ne hhand hu hc') ..

theorem step_refines (hn : n ≤ rtMqEntryMax) {flag : IpcFlag} {prio : T → Nat} {s' : MqState T n} {l : MqLabel T}
    (h : Refines s d free queue) (hstep : s.step flag prio l = some s') :
    s'.mq.msgSize = s.mq.msgSize ∧
      ∃ d' free' queue', d.step n s.mq.msgSize l = some d' ∧ Refines s' d' free' queue' := by
  cases l with
  | take t msg urgent =>
    simp only [MqState.step] at hstep
    split at hstep
    · rename_i r hphase
      obtain ⟨r', hcall, -⟩ := (h.calls t).idle_inv hphase
      simp only [Deque.step, hcall, h.isFull_iff]
      split at hstep
      · rename_i hlen
        cases hstep
        rw [if_pos hlen]
        exact ⟨rfl, _, free, queue, rfl, h.ret (hand_eq hphase) rfl (.idle .error)⟩
      · rename_i hlen
        rw [if_neg hlen]
        split at hstep
        · rename_i hfree
          cases hstep
          rw [if_pos hfree]
          exact ⟨rfl, _, free, queue, rfl, h.ret (hand_eq hphase) rfl (.idle .full)⟩
        · rename_i c hfree
          cases hstep
          obtain ⟨free', hrefines⟩ := h.take (hand_eq hphase) (Nat.not_lt.mp hlen) urgent hfree
          rw [if_neg (by rw [hfree]; exact Option.some_ne_none c)]
          exact ⟨rfl, _, free', queue, rfl, hrefines⟩
    · cases hstep
  | store t =>
    simp only [MqState.step] at hstep
    split at hstep
    · cases hstep
      exact ⟨rfl, d, free, queue, rfl, h.store ‹_›⟩
    · cases hstep
  | link t =>
    simp only [MqState.step] at hstep
    split at hstep
    · rename_i c msg urgent hphase
      obtain ⟨hcall, queue', hrefines⟩ := h.link hphase
      obtain ⟨hroom, -⟩ := h.room (hand_eq hphase)
      -- The count is below its bound, because a cell of the pool is not in the list.
      have hkept : (s.mq.link c urgent).entry = s.mq.entry ∧ (s.mq.link c urgent).msgSize = s.mq.msgSize := by
        cases urgent <;> exact ⟨rfl, rfl⟩
      have hentry := h.layout.entry_eq
      rw [hkept.1, if_pos (by omega)] at hstep
      cases hstep
      simp only [Deque.step, hcall]
      refine ⟨?_, _, free, queue', rfl, ?_⟩
      · rw [MqState.resume_mq]
        exact hkept.2
      · rw [MqState.resume_eq]
        exact hrefines.lists _ _
    · cases hstep
  | recv t size wait =>
    simp only [MqState.step] at hstep
    split at hstep
    · rename_i r hphase
      obtain ⟨r', hcall, -⟩ := (h.calls t).idle_inv hphase
      obtain ⟨s₁, queue', hrun, hrefines⟩ := h.receive (hand_eq hphase) flag prio size wait
      rw [hrun] at hstep
      cases hstep
      exact ⟨MqState.receive_msgSize hrun, _, free, queue', by simp only [Deque.step, hcall], hrefines⟩
    · cases hstep
  | retry t =>
    simp only [MqState.step] at hstep
    split at hstep
    · rename_i size hphase
      split at hstep
      · have hcall : d.call t = .waiting size := by
          have hmatch := h.calls t
          rw [hphase] at hmatch
          generalize d.call t = call at hmatch
          cases hmatch with
          | waiting => rfl
        obtain ⟨s₁, queue', hrun, hrefines⟩ := (h.lists s.suspended (s.resumed.erase t)).receive (t := t)
          (hand_eq hphase) flag prio size true
        have hsize := MqState.receive_msgSize hrun
        rw [hrun] at hstep
        cases hstep
        exact ⟨hsize, _, free, queue', by simp only [Deque.step, hcall], hrefines⟩
      · cases hstep
    · cases hstep
  | load t =>
    simp only [MqState.step] at hstep
    split at hstep
    · cases hstep
      exact ⟨rfl, d, free, queue, rfl, h.load ‹_›⟩
    · cases hstep
  | free t =>
    simp only [MqState.step] at hstep
    split at hstep
    · rename_i c out hphase
      cases hstep
      obtain ⟨msg, size, hcall, hrefines⟩ := h.putFree hphase
      exact ⟨rfl, _, c :: free, queue, by simp only [Deque.step, hcall], hrefines⟩
    · cases hstep

/-- Whatever way the pieces of the calls interleave, the queue does what the list of messages does: each call returns what
    it returns there, and a receiver gets the bytes of the message. A receiver waits forever or not at all, and a sender
    does not wait. -/
theorem mq_refines_deque (flag : IpcFlag) (prio : T → Nat) (hn : n ≤ rtMqEntryMax) (msgSize : Nat)
    (next : Fin n → Option (Fin n)) {body : Fin n → List Byte}
    (hbody : ∀ c, (body c).length = rtAlign msgSize rtAlignSize) {ls : List (MqLabel T)} {s : MqState T n}
    (run : exec (MqState.step flag prio) (.create msgSize next body) ls = some s) :
    ∃ d free queue, exec (Deque.step n (rtAlign msgSize rtAlignSize)) .empty ls = some d ∧ Refines s d free queue := by
  have hsim : ∀ (s : MqState T n) (d : Deque T) (l : MqLabel T) (s' : MqState T n),
      (s.mq.msgSize = rtAlign msgSize rtAlignSize ∧ ∃ free queue, Refines s d free queue) →
      s.step flag prio l = some s' → ∃ d', d.step n (rtAlign msgSize rtAlignSize) l = some d' ∧
        s'.mq.msgSize = rtAlign msgSize rtAlignSize ∧ ∃ free queue, Refines s' d' free queue := by
    rintro s d l s' ⟨hsize, free, queue, h⟩ hstep
    obtain ⟨hkept, d', free', queue', hd', h'⟩ := step_refines hn h hstep
    exact ⟨d', hsize ▸ hd', hkept.trans hsize, free', queue', h'⟩
  obtain ⟨d, hd, -, free, queue, hrefines⟩ := exec_simulates hsim
    ⟨(MessageQueue.create_kept msgSize next body).2, _, _, Refines.create msgSize next hbody⟩ run
  exact ⟨d, free, queue, hd, hrefines⟩

/-- Two threads send and one of them then receives; the urgent message overtakes the one whose cell was taken first. -/
def overtakingRun : List (MqLabel Bool) :=
  [.take false [1] false, .take true [2] true, .store true, .link true, .store false, .link false, .recv true 4 true,
    .load true, .free true]

theorem mq_refines_deque_overtaking : ∃ (s : MqState Bool 2) (d : Deque Bool) (free queue : List (Fin 2)),
    exec (Deque.step 2 4) .empty overtakingRun = some d ∧ Refines s d free queue ∧ queue.length = 1 := by
  obtain ⟨s, hs, hentry⟩ : ∃ s : MqState Bool 2, exec (MqState.step .fifo fun _ => 0)
      (.create 1 (fun _ => none) fun _ => [0, 0, 0, 0]) overtakingRun = some s ∧ s.mq.entry = 1 :=
    exists_of_any (by decide)
  have hn : 2 ≤ rtMqEntryMax := by decide
  obtain ⟨d, free, queue, hd, hrefines⟩ := mq_refines_deque .fifo (fun _ => 0) hn 1 _ (fun _ => rfl) hs
  exact ⟨s, d, free, queue, hd, hrefines, hrefines.layout.entry_eq ▸ hentry⟩

/-! ### Suspended threads -/

def Phase.isWaiting : Phase n → Bool
  | .waiting _ => true
  | _ => false

/-- The threads that wait are those in the two lists, and where threads are suspended, a resumed one is on its way for
    every message. -/
structure Wakeups (s : MqState T n) : Prop where
  nodup : (s.suspended ++ s.resumed).Nodup
  mem_iff : ∀ t, t ∈ s.suspended ++ s.resumed ↔ (s.phase t).isWaiting = true
  served : s.suspended ≠ [] → s.mq.entry ≤ s.resumed.length

theorem isWaiting_setPhase {p : Phase n} (h : p.isWaiting = (s.phase t).isWaiting) (u : T) :
    ((s.setPhase t p).phase u).isWaiting = (s.phase u).isWaiting := by
  by_cases hu : u = t
  · rw [hu, ← h]
    simp [MqState.setPhase]
  · simp [MqState.setPhase, hu]

/-- A thread that goes on without waiting, and a count of messages that does not grow. -/
theorem Wakeups.go (h : Wakeups s) {p : Phase n} (hp : p.isWaiting = (s.phase t).isWaiting) {mq : MessageQueue n}
    (hmq : mq.entry ≤ s.mq.entry) : Wakeups { s.setPhase t p with mq := mq } := by
  refine ⟨h.nodup, fun u => ?_, fun hne => Nat.le_trans hmq (h.served hne)⟩
  rw [show ({ s.setPhase t p with mq := mq } : MqState T n).phase u = (s.setPhase t p).phase u from rfl,
    isWaiting_setPhase hp u]
  exact h.mem_iff u

theorem Wakeups.link (h : Wakeups s) {p : Phase n} (hp : p.isWaiting = (s.phase t).isWaiting) {mq : MessageQueue n}
    (hmq : mq.entry = s.mq.entry + 1) : Wakeups ({ s.setPhase t p with mq := mq } : MqState T n).resume := by
  have hmem : ∀ u, u ∈ s.suspended ++ s.resumed ↔ ((s.setPhase t p).phase u).isWaiting = true := fun u => by
    rw [isWaiting_setPhase hp u]
    exact h.mem_iff u
  have hserved := h.served
  unfold MqState.resume
  split
  · rename_i u suspended hsusp
    have hsusp' : s.suspended = u :: suspended := hsusp
    have hperm : (s.suspended ++ s.resumed).Perm (suspended ++ (s.resumed ++ [u])) := by
      rw [hsusp', ← List.append_assoc]
      exact (List.perm_append_singleton u _).symm
    refine ⟨hperm.nodup_iff.mp h.nodup, fun v => ?_, fun _ => ?_⟩
    · rw [← hmem v]
      exact hperm.mem_iff.symm
    · have hle := hserved (by rw [hsusp']; exact List.cons_ne_nil _ _)
      show mq.entry ≤ (s.resumed ++ [u]).length
      rw [List.length_append, List.length_singleton]
      omega
  · rename_i hsusp
    have hsusp' : s.suspended = [] := hsusp
    exact ⟨h.nodup, hmem, fun hne => absurd hsusp' hne⟩

/-- A thread that is in none of the lists takes a message or waits. -/
theorem wakeups_receive {flag : IpcFlag} {prio : T → Nat} {size : Nat} {wait : Bool} {s' : MqState T n}
    (nodup : (s.suspended ++ s.resumed).Nodup) (ht : t ∉ s.suspended ++ s.resumed)
    (mem_iff : ∀ u, u ≠ t → (u ∈ s.suspended ++ s.resumed ↔ (s.phase u).isWaiting = true))
    (served : s.suspended ≠ [] → s.mq.entry ≤ s.resumed.length + 1)
    (hrun : s.receive flag prio t size wait = some s') : Wakeups s' := by
  have hgone : ∀ {p : Phase n}, p.isWaiting = false → ∀ u,
      u ∈ s.suspended ++ s.resumed ↔ ((s.setPhase t p).phase u).isWaiting = true := by
    intro p hp u
    by_cases hu : u = t
    · simp [hu, ht, hp, MqState.setPhase]
    · rw [mem_iff u hu]
      simp [hu, MqState.setPhase]
  unfold MqState.receive at hrun
  split at hrun
  · rename_i hentry
    split at hrun
    · cases hrun
      have hperm : (ipcListSuspend flag prio t s.suspended ++ s.resumed).Perm (t :: (s.suspended ++ s.resumed)) :=
        (ipcListSuspend_perm flag prio t s.suspended).append_right s.resumed
      refine ⟨hperm.nodup_iff.mpr (List.nodup_cons.mpr ⟨ht, nodup⟩), fun u => ?_, fun _ => ?_⟩
      · refine hperm.mem_iff.trans (List.mem_cons.trans ?_)
        by_cases hu : u = t
        · simp [hu, MqState.setPhase, Phase.isWaiting]
        · rw [mem_iff u hu]
          simp [hu, MqState.setPhase]
      · exact Nat.le_trans (Nat.le_of_eq hentry) (Nat.zero_le _)
    · cases hrun
      exact ⟨nodup, hgone rfl, fun _ => Nat.le_trans (Nat.le_of_eq hentry) (Nat.zero_le _)⟩
  · rename_i hentry
    obtain ⟨c, -, rfl⟩ := Option.map_eq_some_iff.mp hrun
    refine ⟨nodup, hgone rfl, fun hne => ?_⟩
    have hle := served hne
    have hkept : (s.mq.removeHead c).entry = s.mq.entry - 1 := if_pos (Nat.pos_of_ne_zero hentry)
    show (s.mq.removeHead c).entry ≤ s.resumed.length
    omega

theorem step_wakeups {flag : IpcFlag} {prio : T → Nat} {s' : MqState T n} {l : MqLabel T} (h : Wakeups s)
    (hstep : s.step flag prio l = some s') : Wakeups s' := by
  cases l with
  | take t msg urgent =>
    simp only [MqState.step] at hstep
    split at hstep
    · rename_i hphase
      split at hstep
      · cases hstep
        exact h.go (by rw [hphase]; rfl) (Nat.le_refl _)
      · split at hstep <;> cases hstep <;> exact h.go (by rw [hphase]; rfl) (Nat.le_refl _)
    · cases hstep
  | store t =>
    simp only [MqState.step] at hstep
    split at hstep
    · rename_i hphase
      cases hstep
      exact h.go (by rw [hphase]; rfl) (Nat.le_refl _)
    · cases hstep
  | link t =>
    simp only [MqState.step] at hstep
    split at hstep
    · rename_i c msg urgent hphase
      have hentry : (s.mq.link c urgent).entry = s.mq.entry := by cases urgent <;> rfl
      split at hstep <;> cases hstep
      · exact h.link (by rw [hphase]; rfl) (congrArg (· + 1) hentry)
      · exact h.go (by rw [hphase]; rfl) (Nat.le_of_eq hentry)
    · cases hstep
  | recv t size wait =>
    simp only [MqState.step] at hstep
    split at hstep
    · rename_i hphase
      have ht : t ∉ s.suspended ++ s.resumed := fun hmem => by
        have hwait := (h.mem_iff t).mp hmem
        rw [hphase] at hwait
        cases hwait
      exact wakeups_receive h.nodup ht (fun u _ => h.mem_iff u) (fun hne => Nat.le_succ_of_le (h.served hne)) hstep
    · cases hstep
  | retry t =>
    simp only [MqState.step] at hstep
    split at hstep
    · split at hstep
      · rename_i hmem
        have hperm : (s.suspended ++ s.resumed).Perm (t :: (s.suspended ++ s.resumed.erase t)) :=
          ((List.perm_cons_erase hmem).append_left s.suspended).trans List.perm_middle
        obtain ⟨ht, hnodup⟩ := List.nodup_cons.mp (hperm.nodup_iff.mp h.nodup)
        refine wakeups_receive (s := { s with resumed := s.resumed.erase t }) hnodup ht (fun u hu => ?_) (fun hne => ?_)
          hstep
        · rw [← h.mem_iff u, hperm.mem_iff, List.mem_cons]
          simp [hu]
        · have hlen := List.length_erase_of_mem hmem
          have hpos := List.length_pos_of_mem hmem
          have hle := h.served hne
          show s.mq.entry ≤ (s.resumed.erase t).length + 1
          omega
      · cases hstep
    · cases hstep
  | load t =>
    simp only [MqState.step] at hstep
    split at hstep
    · rename_i hphase
      cases hstep
      exact h.go (by rw [hphase]; rfl) (Nat.le_refl _)
    · cases hstep
  | free t =>
    simp only [MqState.step] at hstep
    split at hstep
    · rename_i hphase
      cases hstep
      exact h.go (by rw [hphase]; rfl) (Nat.le_refl _)
    · cases hstep

/-- No wakeup is lost: in every interleaving of senders that do not wait and receivers that wait forever or not at all, as
    long as no resumed thread has to run yet, threads are suspended only while there is no message. -/
theorem mq_suspended_served (flag : IpcFlag) (prio : T → Nat) (msgSize : Nat) (next : Fin n → Option (Fin n))
    (body : Fin n → List Byte) {ls : List (MqLabel T)} {s : MqState T n}
    (run : exec (MqState.step flag prio) (.create msgSize next body) ls = some s) :
    (∀ t, (s.phase t).isWaiting = true ↔ t ∈ s.suspended ∨ t ∈ s.resumed) ∧
      (s.suspended ≠ [] → s.mq.entry ≤ s.resumed.length) := by
  have hinit : Wakeups (MqState.create msgSize next body : MqState T n) :=
    ⟨List.nodup_nil, fun t => by simp [MqState.create, Phase.isWaiting], fun hne => absurd rfl hne⟩
  have h : Wakeups s := (Run.of_exec_step run).invariant hinit fun t l u ht _ => step_wakeups ht
  exact ⟨fun t => (h.mem_iff t).symm.trans List.mem_append, h.served⟩

/-- Two receivers wait, and a message comes: one of them has to run and the other one stays suspended. -/
theorem mq_suspended_served_one : ∃ s : MqState (Fin 3) 2,
    s.suspended = [1] ∧ s.mq.entry = 1 ∧ (s.phase 0).isWaiting = true ∧ (s.suspended ≠ [] → 1 ≤ s.resumed.length) := by
  obtain ⟨s, hs, hsusp, hresumed, hentry⟩ : ∃ s : MqState (Fin 3) 2, exec (MqState.step .fifo fun _ => 0)
      (.create 1 (fun _ => none) fun _ => [0, 0, 0, 0])
      [.recv 0 4 true, .recv 1 4 true, .take 2 [1] false, .store 2, .link 2] = some s ∧
        s.suspended = [1] ∧ s.resumed = [0] ∧ s.mq.entry = 1 := exists_of_any (by decide)
  obtain ⟨hwaits, hserved⟩ := mq_suspended_served .fifo (fun _ => 0) 1 _ _ hs
  exact ⟨s, hsusp, hentry, (hwaits 0).mpr (.inr (by simp [hresumed])), hentry ▸ hserved⟩

end

end RodActuator.Rtos
