import RodActuator.Arb.Reference

/-! The queues of a direction over whole histories. A message leaves some of the records where they are and
    stores at most one new one, so a queue never grows over its size, holds a device once and only commands of
    its own kind; the requests stand by priority and, among equal ones, in the order in which they were
    accepted. -/

namespace RodActuator.Arb
variable {d : Dir} {arb : ArbData} {msg : Msg}

/-! ### What a message does to a queue -/

/-- The requests of a direction without that of the power input which a message turns. -/
def ArbData.turned (arb : ArbData) (d : Dir) (msg : Msg) : List Record :=
  if d.turns msg then cmdListRemove (arb.allow d) d.power else arb.allow d

/-- A run command that finds its direction free and room for its request. -/
def Accepts (d : Dir) (arb : ArbData) (msg : Msg) : Prop :=
  msg.cmdType = d.run ∧ cmdListRemove (arb.block d) msg.deviceId = [] ∧
    (cmdListRemove (arb.turned d msg) msg.deviceId).length < maxCmdQueueSize

instance (d : Dir) (arb : ArbData) (msg : Msg) : Decidable (Accepts d arb msg) := inferInstanceAs (Decidable (_ ∧ _))

inductive Requests (d : Dir) (arb : ArbData) (msg : Msg) : List Record → Prop where
  | kept {queue : List Record} (hnot : ¬Accepts d arb msg) (hsub : queue.Sublist (arb.turned d msg)) :
      Requests d arb msg queue
  | stored (hacc : Accepts d arb msg) : Requests d arb msg
      (StableInsert.insert Record.priority msg.record (cmdListRemove (arb.turned d msg) msg.deviceId))

inductive Blocked (d : Dir) (arb : ArbData) (msg : Msg) : List Record → Prop where
  | kept {queue : List Record} (hsub : queue.Sublist (arb.block d)) : Blocked d arb msg queue
  | stored (hcmd : msg.cmdType = d.block) (hnew : msg.deviceId ∉ devices (arb.block d))
      (hroom : (arb.block d).length < maxCmdQueueSize) : Blocked d arb msg (arb.block d ++ [msg.blockRecord])

theorem turned_sublist (d : Dir) (arb : ArbData) (msg : Msg) : (arb.turned d msg).Sublist (arb.allow d) := by
  unfold ArbData.turned
  split
  · exact List.eraseP_sublist
  · exact List.Sublist.refl _

theorem processMessage_requests (d : Dir) (arb : ArbData) (msg : Msg) :
    Requests d arb msg ((processMessage arb msg).allow d) := by
  have hallow : (processMessage arb msg).allow d =
      if msg.cmdType = d.run then
        cmdListSetAllow (arb.turned d msg) (cmdListRemove (arb.block d) msg.deviceId) msg.record
      else if msg.cmdType = .stop then cmdListRemove (arb.turned d msg) msg.deviceId
      else if msg.cmdType = d.clearAllow ∨ msg.cmdType = .emergencyStop then []
      else arb.turned d msg := processMessage_allow arb msg d
  rw [hallow]
  split_ifs with hrun hstop hclear
  · unfold cmdListSetAllow
    dsimp only
    split_ifs with hblocked hfull
    · exact .kept (fun hacc => by simp [hacc.2.1] at hblocked) (List.Sublist.refl _)
    · exact .kept (fun hacc => absurd hacc.2.2 (Nat.not_lt.mpr hfull)) List.eraseP_sublist
    · exact .stored ⟨hrun, List.length_eq_zero_iff.mp (Nat.le_zero.mp (Nat.not_lt.mp hblocked)), Nat.not_le.mp hfull⟩
  · exact .kept (fun hacc => hrun hacc.1) List.eraseP_sublist
  · exact .kept (fun hacc => hrun hacc.1) (List.nil_sublist _)
  · exact .kept (fun hacc => hrun hacc.1) (List.Sublist.refl _)

theorem processMessage_blocked (d : Dir) (arb : ArbData) (msg : Msg) :
    Blocked d arb msg ((processMessage arb msg).block d) := by
  rw [processMessage_block]
  split_ifs with hblock
  · unfold cmdListSetBlock
    split_ifs with hany hfull
    · exact .kept (List.Sublist.refl _)
    · exact .kept (List.Sublist.refl _)
    · refine .stored hblock (fun hmem => hany ?_) (Nat.not_le.mp hfull)
      simpa [devices, Msg.blockRecord] using hmem
  · exact .kept List.eraseP_sublist
  · exact .kept (List.Sublist.refl _)

/-- The requests of a direction run it. -/
def Typed (arb : ArbData) : Prop := ∀ d, ∀ r ∈ arb.allow d, r.cmdType = d.run

theorem typed_init : Typed ArbData.init := by
  intro d r hr
  cases d <;> cases hr

theorem Requests.mem {queue : List Record} (h : Requests d arb msg queue) {r : Record} (hr : r ∈ queue) :
    r ∈ arb.turned d msg ∨ Accepts d arb msg ∧ r = msg.record := by
  cases h with
  | kept _ hsub => exact .inl (hsub.subset hr)
  | stored hacc =>
    rcases List.mem_cons.mp ((StableInsert.insert_perm _ _ _).mem_iff.mp hr) with rfl | hr
    · exact .inr ⟨hacc, rfl⟩
    · exact .inl (List.mem_of_mem_eraseP hr)

theorem Typed.handle (h : Typed arb) (now : BitVec 32) (msg : Msg) : Typed (handle now arb msg).1 := by
  intro d r hr
  rw [(handle_kept now arb msg).1] at hr
  rcases (processMessage_requests d arb msg).mem hr with hr | ⟨hacc, rfl⟩
  · exact h d r ((turned_sublist d arb msg).subset hr)
  · exact hacc.1

theorem output_blocked (h : Typed arb) (now : BitVec 32) (hblock : arb.block d ≠ []) (duty : Nat) :
    (decision now arb).2 ≠ d.output duty := by
  have hnone : represent (arb.allow d) (arb.block d) = none := if_neg fun hlen => hblock (List.length_eq_zero_iff.mp hlen)
  have hhead : ∀ d' r, represent (arb.allow d') (arb.block d') = some r → r.cmdType = d'.run := by
    intro d' r hr
    unfold represent at hr
    split at hr
    · exact h d' r (List.mem_of_head? hr)
    · cases hr
  by_cases henable : arb.enable = true
  · have hout := congrArg Prod.fst (decision_enabled now henable)
    dsimp only at hout
    rw [hout]
    cases d with
    | fwd =>
      rw [show represent arb.allowFwd arb.blockFwd = none from hnone]
      cases hr : represent arb.allowRev arb.blockRev with
      | none => simp [finalCmd, Dir.output]
      | some r => simp [finalCmd, Dir.output, show r.cmdType = .runRev from hhead .rev r hr]
    | rev =>
      rw [show represent arb.allowRev arb.blockRev = none from hnone]
      cases hf : represent arb.allowFwd arb.blockFwd with
      | none => simp [finalCmd, Dir.output]
      | some f => simp [finalCmd, Dir.output, show f.cmdType = .runFwd from hhead .fwd f hf]
  · have hout := congrArg Prod.fst (decision_disabled now (Bool.eq_false_of_not_eq_true henable))
    dsimp only at hout
    rw [hout]
    cases d <;> simp [Dir.output]

/-! ### The size, the devices and the commands of a queue -/

structure Sound (d : Dir) (arb : ArbData) : Prop where
  allow_le : (arb.allow d).length ≤ maxCmdQueueSize
  block_le : (arb.block d).length ≤ maxCmdQueueSize
  allow_distinct : (devices (arb.allow d)).Nodup
  block_distinct : (devices (arb.block d)).Nodup
  allow_typed : ∀ r ∈ arb.allow d, r.cmdType = d.run
  block_typed : ∀ r ∈ arb.block d, r.cmdType = d.block

theorem sound_init (d : Dir) : Sound d ArbData.init := by
  cases d <;> constructor <;> simp [ArbData.init, ArbData.allow, ArbData.block, devices]

theorem Sound.turned_distinct (h : Sound d arb) (msg : Msg) : (devices (arb.turned d msg)).Nodup :=
  h.allow_distinct.sublist ((turned_sublist d arb msg).map _)

theorem Sound.process (h : Sound d arb) (msg : Msg) : Sound d (processMessage arb msg) := by
  have hallow := processMessage_requests d arb msg
  have hblock := processMessage_blocked d arb msg
  generalize hq : (processMessage arb msg).allow d = allow at hallow
  generalize hb : (processMessage arb msg).block d = block at hblock
  have hsub := turned_sublist d arb msg
  have hsizes : allow.length ≤ maxCmdQueueSize ∧ (devices allow).Nodup ∧ ∀ r ∈ allow, r.cmdType = d.run := by
    cases hallow with
    | kept _ hkept =>
      have hall := hkept.trans hsub
      exact ⟨hall.length_le.trans h.allow_le, h.allow_distinct.sublist (hall.map _),
        fun r hr => h.allow_typed r (hall.subset hr)⟩
    | stored hacc =>
      obtain ⟨hrun, -, hroom⟩ := hacc
      have hperm := StableInsert.insert_perm Record.priority msg.record (cmdListRemove (arb.turned d msg) msg.deviceId)
      obtain ⟨hdistinct, hmem⟩ := devices_remove (h.turned_distinct msg) msg.deviceId
      refine ⟨hperm.length_eq.trans_le hroom, (hperm.map _).nodup_iff.mpr ?_, fun r hr => ?_⟩
      · exact List.nodup_cons.mpr ⟨fun hdev => ((hmem _).mp hdev).1 rfl, hdistinct⟩
      · rcases List.mem_cons.mp (hperm.mem_iff.mp hr) with rfl | hr
        · exact hrun
        · exact h.allow_typed r (hsub.subset (List.mem_of_mem_eraseP hr))
  have hblocks : block.length ≤ maxCmdQueueSize ∧ (devices block).Nodup ∧ ∀ r ∈ block, r.cmdType = d.block := by
    cases hblock with
    | kept hkept =>
      exact ⟨hkept.length_le.trans h.block_le, h.block_distinct.sublist (hkept.map _),
        fun r hr => h.block_typed r (hkept.subset hr)⟩
    | stored hcmd hnew hroom =>
      have hperm := List.perm_append_singleton msg.blockRecord (arb.block d)
      refine ⟨hperm.length_eq.trans_le hroom, (hperm.map _).nodup_iff.mpr ?_, fun r hr => ?_⟩
      · exact List.nodup_cons.mpr ⟨hnew, h.block_distinct⟩
      · rcases List.mem_cons.mp (hperm.mem_iff.mp hr) with rfl | hr
        · exact hcmd
        · exact h.block_typed r hr
  obtain ⟨h₁, h₂, h₃⟩ := hsizes
  obtain ⟨h₄, h₅, h₆⟩ := hblocks
  subst hq hb
  exact ⟨h₁, h₄, h₂, h₅, h₃, h₆⟩

theorem Sound.congr {arb' : ArbData} (h : Sound d arb) (allow : arb'.allow = arb.allow) (block : arb'.block = arb.block) :
    Sound d arb' := by
  obtain ⟨h₁, h₂, h₃, h₄, h₅, h₆⟩ := h
  constructor <;> simpa only [allow, block]

theorem Sound.step (h : Sound d arb) (e : Event) : Sound d (arb.step e) := by
  cases e with
  | handled msg now =>
    obtain ⟨hallow, hblock, -⟩ := handle_kept now arb msg
    exact (h.process msg).congr hallow hblock
  | setEnable enable => exact h.congr rfl rfl
  | init => exact sound_init d

theorem sound_replay (d : Dir) (h : List Event) : Sound d (replay h) := by
  induction h using List.reverseRecOn with
  | nil => exact sound_init d
  | append_singleton h e ih =>
    rw [replay_concat]
    exact ih.step e

/-! ### The order of the requests -/

/-- The event at the place `n` of a history is a run command of the device that is accepted. -/
def acceptedAt (d : Dir) (dev : DeviceId) (h : List Event) (n : Nat) : Bool :=
  match h[n]? with
  | some (.handled msg _) => msg.deviceId = dev ∧ Accepts d (replay (h.take n)) msg
  | _ => false

/-- The last place at which a run command of the device was accepted. -/
def lastAccepted (d : Dir) (dev : DeviceId) (h : List Event) : Option Nat :=
  ((List.range h.length).filter (acceptedAt d dev h)).getLast?

/-- Of two requests the first has the smaller number, or the same and it was accepted before. -/
def Before (d : Dir) (h : List Event) (r s : Record) : Prop :=
  r.priority < s.priority ∨ r.priority = s.priority ∧
    ∃ m n, lastAccepted d r.deviceId h = some m ∧ lastAccepted d s.deviceId h = some n ∧ m < n

theorem acceptedAt_concat (dev : DeviceId) (h : List Event) (e : Event) {n : Nat} (hn : n < h.length) :
    acceptedAt d dev (h ++ [e]) n = acceptedAt d dev h n := by
  unfold acceptedAt
  rw [List.getElem?_append_left hn, List.take_append_of_le_length (Nat.le_of_lt hn)]

theorem lastAccepted_concat (dev : DeviceId) (h : List Event) (e : Event) :
    lastAccepted d dev (h ++ [e]) =
      if acceptedAt d dev (h ++ [e]) h.length then some h.length else lastAccepted d dev h := by
  have hold : (List.range h.length).filter (acceptedAt d dev (h ++ [e])) =
      (List.range h.length).filter (acceptedAt d dev h) :=
    List.filter_congr fun n hn => acceptedAt_concat dev h e (List.mem_range.mp hn)
  unfold lastAccepted
  rw [List.length_append, List.length_singleton, List.range_succ, List.filter_append, hold]
  split
  · rename_i hnow
    simp [hnow]
  · rename_i hnow
    simp [hnow]

theorem acceptedAt_last (dev : DeviceId) (h : List Event) (e : Event) :
    acceptedAt d dev (h ++ [e]) h.length = true ↔
      ∃ msg now, e = .handled msg now ∧ msg.deviceId = dev ∧ Accepts d (replay h) msg := by
  unfold acceptedAt
  rw [List.getElem?_concat_length, List.take_left]
  cases e with
  | handled msg now =>
    simp only [decide_eq_true_eq]
    constructor
    · rintro ⟨hdev, hacc⟩
      exact ⟨msg, now, rfl, hdev, hacc⟩
    · rintro ⟨_, _, heq, hdev, hacc⟩
      cases heq
      exact ⟨hdev, hacc⟩
  | setEnable enable => simp
  | init => simp

theorem lastAccepted_lt {dev : DeviceId} {h : List Event} {n : Nat} (hn : lastAccepted d dev h = some n) :
    n < h.length :=
  List.mem_range.mp (List.mem_of_mem_filter (List.mem_of_getLast? hn))

/-- The requests stand in their order, and of each it is known when it was accepted. -/
structure Ordered (d : Dir) (h : List Event) (allow : List Record) : Prop where
  sorted : allow.Pairwise (Before d h)
  times : ∀ r ∈ allow, (lastAccepted d r.deviceId h).isSome

theorem Ordered.sublist {h : List Event} {queue allow : List Record} (ord : Ordered d h allow) (hsub : queue.Sublist allow) :
    Ordered d h queue :=
  ⟨ord.sorted.sublist hsub, fun r hr => ord.times r (hsub.subset hr)⟩

theorem Ordered.congr {h h' : List Event} {allow : List Record} (ord : Ordered d h allow)
    (same : ∀ r ∈ allow, lastAccepted d r.deviceId h' = lastAccepted d r.deviceId h) : Ordered d h' allow := by
  refine ⟨ord.sorted.imp_of_mem fun {r s} hr hs hbefore => ?_, fun r hr => ?_⟩
  · unfold Before
    rwa [same r hr, same s hs]
  · rw [same r hr]
    exact ord.times r hr

theorem Ordered.priorities {h : List Event} {allow : List Record} (ord : Ordered d h allow) :
    allow.Pairwise fun r s => r.priority ≤ s.priority :=
  ord.sorted.imp fun hbefore => hbefore.elim Nat.le_of_lt fun heq => Nat.le_of_eq heq.1

theorem Ordered.insert {h : List Event} {allow : List Record} {r : Record} {n : Nat} (ord : Ordered d h allow)
    (hnow : lastAccepted d r.deviceId h = some n)
    (hpast : ∀ q ∈ allow, ∀ m, lastAccepted d q.deviceId h = some m → m < n) :
    Ordered d h (StableInsert.insert Record.priority r allow) := by
  have hmem : ∀ q ∈ StableInsert.insert Record.priority r allow, q = r ∨ q ∈ allow := fun q hq =>
    List.mem_cons.mp ((StableInsert.insert_perm _ _ _).mem_iff.mp hq)
  refine ⟨StableInsert.pairwise_insert _ ord.sorted ord.priorities (fun q hq hle => ?_) fun q _ hlt => .inl hlt, ?_⟩
  · obtain ⟨m, hm⟩ := Option.isSome_iff_exists.mp (ord.times q hq)
    rcases Nat.lt_or_eq_of_le hle with hlt | heq
    · exact .inl hlt
    · exact .inr ⟨heq, m, n, hm, hnow, hpast q hq m hm⟩
  · intro q hq
    rcases hmem q hq with rfl | hq
    · rw [hnow]
      rfl
    · exact ord.times q hq

theorem Ordered.handled {h : List Event} (ord : Ordered d h ((replay h).allow d)) (msg : Msg) (now : BitVec 32) :
    Ordered d (h ++ [.handled msg now]) ((processMessage (replay h) msg).allow d) := by
  have hturned := ord.sublist (turned_sublist d (replay h) msg)
  have hallow := processMessage_requests d (replay h) msg
  generalize (processMessage (replay h) msg).allow d = allow at hallow
  cases hallow with
  | kept hnot hsub =>
    refine (hturned.sublist hsub).congr fun r _ => ?_
    rw [lastAccepted_concat, if_neg]
    rintro hacc
    obtain ⟨_, _, heq, -, hacc⟩ := (acceptedAt_last r.deviceId h _).mp hacc
    cases heq
    exact hnot hacc
  | stored hacc =>
    have hremoved : Ordered d h (cmdListRemove ((replay h).turned d msg) msg.deviceId) :=
      hturned.sublist List.eraseP_sublist
    have hothers : ∀ r ∈ cmdListRemove ((replay h).turned d msg) msg.deviceId,
        lastAccepted d r.deviceId (h ++ [.handled msg now]) = lastAccepted d r.deviceId h := by
      intro r hr
      rw [lastAccepted_concat, if_neg]
      intro hnow
      obtain ⟨_, _, heq, hdev, -⟩ := (acceptedAt_last r.deviceId h _).mp hnow
      cases heq
      have hgone := (devices_remove ((sound_replay d h).turned_distinct msg) msg.deviceId).2 r.deviceId
      exact (hgone.mp (List.mem_map_of_mem hr)).1 hdev.symm
    refine (hremoved.congr hothers).insert (n := h.length) ?_ fun r hr m hm => ?_
    · rw [lastAccepted_concat, if_pos]
      exact (acceptedAt_last _ h _).mpr ⟨msg, now, rfl, rfl, hacc⟩
    · rw [hothers r hr] at hm
      exact lastAccepted_lt hm

theorem ordered_replay (d : Dir) (h : List Event) : Ordered d h ((replay h).allow d) := by
  induction h using List.reverseRecOn with
  | nil =>
    cases d <;> exact ⟨List.Pairwise.nil, fun _ hr => nomatch hr⟩
  | append_singleton h e ih =>
    rw [replay_concat]
    cases e with
    | handled msg now =>
      rw [ArbData.step, (handle_kept now (replay h) msg).1]
      exact ih.handled msg now
    | setEnable enable =>
      refine ih.congr fun r _ => ?_
      rw [lastAccepted_concat, if_neg]
      rintro hacc
      obtain ⟨_, _, heq, -⟩ := (acceptedAt_last r.deviceId h _).mp hacc
      cases heq
    | init =>
      cases d <;> exact ⟨List.Pairwise.nil, fun _ hr => nomatch hr⟩

/-! ### The power inputs -/

/-- At most one of the two power inputs has a request in its own direction. -/
def PowerExclusive (arb : ArbData) : Prop :=
  ¬(.powerPos ∈ devices arb.allowFwd ∧ .powerNeg ∈ devices arb.allowRev)

/-- Every request is of the power input of its direction. -/
def PowerOnly (arb : ArbData) : Prop := ∀ d, ∀ dev ∈ devices (arb.allow d), dev = d.power

theorem Dir.run_turns_opposite (hrun : msg.cmdType = d.run) (hdev : msg.deviceId = d.power) : d.opposite.turns msg := by
  cases d
  · exact ⟨.inl hrun, hdev⟩
  · exact ⟨.inr hrun, hdev⟩

theorem mem_devices_process {dev : DeviceId} (h : dev ∈ devices ((processMessage arb msg).allow d)) :
    dev ∈ devices (arb.turned d msg) ∨ msg.cmdType = d.run ∧ msg.deviceId = dev := by
  obtain ⟨r, hr, rfl⟩ := List.mem_map.mp h
  rcases (processMessage_requests d arb msg).mem hr with hr | ⟨hacc, rfl⟩
  · exact .inl (List.mem_map_of_mem hr)
  · exact .inr ⟨hacc.1, rfl⟩

/-- A new request of a power input finds the other one's withdrawn. -/
theorem not_mem_opposite (sound : Sound d.opposite arb) (hrun : msg.cmdType = d.run) (hdev : msg.deviceId = d.power) :
    d.opposite.power ∉ devices ((processMessage arb msg).allow d.opposite) := by
  intro hmem
  rcases mem_devices_process hmem with hmem | ⟨hrun', -⟩
  · rw [ArbData.turned, if_pos (Dir.run_turns_opposite hrun hdev)] at hmem
    exact (((devices_remove sound.allow_distinct _).2 _).mp hmem).1 rfl
  · rw [hrun] at hrun'
    cases d <;> cases hrun'

theorem PowerExclusive.process (h : PowerExclusive arb) (sound : ∀ d, Sound d arb) (msg : Msg) :
    PowerExclusive (processMessage arb msg) := by
  rintro ⟨hfwd, hrev⟩
  rcases mem_devices_process (d := .fwd) hfwd with hfwd' | ⟨hrun, hdev⟩
  · rcases mem_devices_process (d := .rev) hrev with hrev' | ⟨hrun, hdev⟩
    · refine h ⟨?_, ?_⟩
      · exact ((turned_sublist .fwd arb msg).map _).subset hfwd'
      · exact ((turned_sublist .rev arb msg).map _).subset hrev'
    · exact not_mem_opposite (d := .rev) (sound .fwd) hrun hdev hfwd
  · exact not_mem_opposite (d := .fwd) (sound .rev) hrun hdev hrev

theorem PowerOnly.process (h : PowerOnly arb) (hmsg : ∀ d : Dir, msg.cmdType = d.run → msg.deviceId = d.power) :
    PowerOnly (processMessage arb msg) := by
  intro d dev hdev
  rcases mem_devices_process hdev with hdev | ⟨hrun, rfl⟩
  · exact h d dev (((turned_sublist d arb msg).map _).subset hdev)
  · exact hmsg d hrun

/-- Without two opposed requests nothing is in conflict. -/
theorem conflictFault_process (now : BitVec 32) (h : arb.allowFwd = [] ∨ arb.allowRev = []) :
    (decision now arb).1.conflictFault = false := by
  by_cases henable : arb.enable = true
  · have hdec := congrArg Prod.snd (decision_enabled now henable)
    dsimp only at hdec
    rw [hdec]
    have hnone : ∀ block, represent [] block = none := fun block => by simp [represent]
    rcases h with h | h
    · rw [h, hnone]
      cases represent arb.allowRev arb.blockRev <;> rfl
    · rw [h, hnone]
      cases represent arb.allowFwd arb.blockFwd <;> rfl
  · exact congrArg Prod.snd (decision_disabled now (Bool.eq_false_of_not_eq_true henable))

theorem PowerOnly.one_empty (h : PowerOnly arb) (excl : PowerExclusive arb) : arb.allowFwd = [] ∨ arb.allowRev = [] := by
  by_contra hboth
  obtain ⟨hfwd, hrev⟩ := not_or.mp hboth
  obtain ⟨f, hf⟩ := List.exists_mem_of_ne_nil _ hfwd
  obtain ⟨r, hr⟩ := List.exists_mem_of_ne_nil _ hrev
  have hpos : f.deviceId = .powerPos := h .fwd f.deviceId (List.mem_map_of_mem hf)
  have hneg : r.deviceId = .powerNeg := h .rev r.deviceId (List.mem_map_of_mem hr)
  exact excl ⟨hpos ▸ List.mem_map_of_mem hf, hneg ▸ List.mem_map_of_mem hr⟩

theorem powerExclusive_replay (h : List Event) : PowerExclusive (replay h) := by
  induction h using List.reverseRecOn with
  | nil => rintro ⟨hfwd, -⟩; cases hfwd
  | append_singleton h e ih =>
    rw [replay_concat]
    cases e with
    | handled msg now =>
      have hallow := (handle_kept now (replay h) msg).1
      have hnext := ih.process (fun d => sound_replay d h) msg
      have hfwd : (handle now (replay h) msg).1.allowFwd = (processMessage (replay h) msg).allowFwd := congrFun hallow .fwd
      have hrev : (handle now (replay h) msg).1.allowRev = (processMessage (replay h) msg).allowRev := congrFun hallow .rev
      unfold PowerExclusive at hnext ⊢
      rwa [ArbData.step, hfwd, hrev]
    | setEnable enable => exact ih
    | init => rintro ⟨hfwd, -⟩; cases hfwd

/-- The two power inputs never have requests of both directions; and where no one else runs the motor, nothing
    is ever in conflict and at most one direction has requests. -/
theorem power_never_conflicts (h : List Event) :
    ¬(.powerPos ∈ devices (replay h).allowFwd ∧ .powerNeg ∈ devices (replay h).allowRev) ∧
      ((∀ msg now, .handled msg now ∈ h → (msg.cmdType = .runFwd → msg.deviceId = .powerPos) ∧
          (msg.cmdType = .runRev → msg.deviceId = .powerNeg)) →
        (replay h).conflictFault = false ∧ ((replay h).allowFwd = [] ∨ (replay h).allowRev = [])) := by
  refine ⟨powerExclusive_replay h, fun honly => ?_⟩
  suffices hinv : (replay h).conflictFault = false ∧ PowerOnly (replay h) from
    ⟨hinv.1, hinv.2.one_empty (powerExclusive_replay h)⟩
  induction h using List.reverseRecOn with
  | nil => exact ⟨rfl, fun d dev hdev => by cases d <;> cases hdev⟩
  | append_singleton h e ih =>
    obtain ⟨hconflict, hpower⟩ := ih fun msg now hmem => honly msg now (List.mem_append_left _ hmem)
    rw [replay_concat]
    cases e with
    | handled msg now =>
      obtain ⟨hfwd, hrev⟩ := honly msg now (by simp)
      have hnext : PowerOnly (processMessage (replay h) msg) := hpower.process fun d => by cases d; exacts [hfwd, hrev]
      have hexcl := (powerExclusive_replay h).process (fun d => sound_replay d h) msg
      refine ⟨conflictFault_process now (hnext.one_empty hexcl), fun d => ?_⟩
      rw [ArbData.step, (handle_kept now (replay h) msg).1]
      exact hnext d
    | setEnable enable => exact ⟨hconflict, hpower⟩
    | init => exact ⟨rfl, fun d dev hdev => by cases d <;> cases hdev⟩

/-- The polarity turns while a limit blocks the new direction. -/
theorem power_never_conflicts_blocked :
    let h : List Event := [.handled ⟨0, .powerPos, prioPower, .runFwd, 100, 1⟩ 1,
      .handled ⟨0, .rodLimitRev, prioLimit, .blockRev, 0, 2⟩ 2,
      .handled ⟨0, .powerNeg, prioPower, .runRev, 100, 3⟩ 3]
    (replay h).conflictFault = false ∧ ((replay h).allowFwd = [] ∨ (replay h).allowRev = []) := by
  intro h
  refine (power_never_conflicts h).2 fun msg now hmem => ?_
  simp only [h, List.mem_cons, List.not_mem_nil, or_false] at hmem
  rcases hmem with heq | heq | heq <;> cases heq <;> decide

end RodActuator.Arb
