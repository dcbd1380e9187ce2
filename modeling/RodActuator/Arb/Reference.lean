import RodActuator.Arb.Kernel

/-! The priority specification of the arbiter. Which output an axis has is said here from the history of its
    events alone: which blocks are live, which requests are, and which request represents its direction. The
    queues of the kernel are then shown to hold just the live blocks and requests of their direction. -/

namespace RodActuator.Arb

/-- What happens to an axis: a message is handled at a time, `Arb_SetEnable` is called, or `Arb_Module_Init`
    resets it. -/
inductive Event where
  | handled (msg : Msg) (now : BitVec 32)
  | setEnable (enable : Bool)
  | init
  deriving DecidableEq, Repr

def ArbData.step (arb : ArbData) : Event → ArbData
  | .handled msg now => (handle now arb msg).1
  | .setEnable enable => { arb with enable := enable }
  | .init => ArbData.init

/-- The data of an axis after a history that began with the first `Arb_Module_Init`. -/
def replay (h : List Event) : ArbData := h.foldl ArbData.step ArbData.init

/-! ### Live blocks -/

namespace Event

def blocks (d : Dir) (dev : DeviceId) : Event → Bool
  | .handled msg _ => msg.cmdType = d.block ∧ msg.deviceId = dev
  | _ => false

def unblocks (d : Dir) (dev : DeviceId) : Event → Bool
  | .handled msg _ => (msg.cmdType = d.unblock ∨ msg.cmdType = d.run) ∧ msg.deviceId = dev
  | .setEnable _ => false
  | .init => true

end Event

/-- A device has blocked the direction and did not give it free since. -/
def blockLive (d : Dir) (dev : DeviceId) : List Event → Bool
  | [] => false
  | e :: later => (e.blocks d dev && later.all fun e => !e.unblocks d dev) || blockLive d dev later

def blockers (d : Dir) (h : List Event) : List DeviceId := DeviceId.all.filter fun dev => blockLive d dev h

/-! ### Live requests -/

/-- The request that an event adds, given what happened before: a run command of the direction that no other
    device blocks. -/
def accepted (d : Dir) (past : List Event) : Event → Option Msg
  | .handled msg _ =>
    if msg.cmdType = d.run ∧ ∀ dev ∈ DeviceId.all, dev ≠ msg.deviceId → blockLive d dev past = false then some msg
    else none
  | _ => none

def cancels (d : Dir) (req : Msg) (past : List Event) (e : Event) : Bool :=
  match e with
  | .handled msg _ =>
    (msg.cmdType = .stop ∧ msg.deviceId = req.deviceId) ∨ msg.cmdType = d.clearAllow ∨
      msg.cmdType = .emergencyStop ∨ (d.turns msg ∧ req.deviceId = d.power) ∨
      ((accepted d past e).isSome ∧ msg.deviceId = req.deviceId)
  | .setEnable _ => false
  | .init => true

def moments (past : List Event) : List Event → List (List Event × Event)
  | [] => []
  | e :: later => (past, e) :: moments (past ++ [e]) later

/-- The requests that no later event cancels, in the order they were accepted. -/
def uncancelled (d : Dir) : List (List Event × Event) → List Msg
  | [] => []
  | t :: later =>
    ((accepted d t.1 t.2).filter fun req => later.all fun t => !cancels d req t.1 t.2).toList ++
      uncancelled d later

def liveRequests (d : Dir) (h : List Event) : List Msg := uncancelled d (moments [] h)

/-! ### The output -/

/-- The live request of an available direction with the smallest priority number, the first of them. -/
def representative (d : Dir) (h : List Event) : Option Msg :=
  if blockers d h = [] then (liveRequests d h).argmin Msg.priority else none

def Event.enables : Event → Option Bool
  | .handled _ _ => none
  | .setEnable enable => some enable
  | .init => some true

def enabled (h : List Event) : Bool := (h.filterMap Event.enables).getLastD true

def specDecision (h : List Event) : Output × Bool :=
  if enabled h then
    match representative .fwd h, representative .rev h with
    | some f, some r =>
      if f.deviceId = r.deviceId ∨ f.priority = r.priority then (.stop, true)
      else if f.priority < r.priority then (.fwd f.dutyPct, false)
      else (.rev r.dutyPct, false)
    | some f, none => (.fwd f.dutyPct, false)
    | none, some r => (.rev r.dutyPct, false)
    | none, none => (.stop, false)
  else (.stop, false)

/-- No queue of a direction is asked to hold more devices than it has room for. -/
def Fits (h : List Event) : Prop :=
  ∀ d, (liveRequests d h).length ≤ maxCmdQueueSize ∧ (blockers d h).length ≤ maxCmdQueueSize

/-! ### One more event -/

section
variable {d : Dir}

theorem replay_concat (h : List Event) (e : Event) : replay (h ++ [e]) = (replay h).step e := by
  simp [replay]

theorem blockLive_concat (dev : DeviceId) (h : List Event) (e : Event) :
    blockLive d dev (h ++ [e]) = (e.blocks d dev || (blockLive d dev h && !e.unblocks d dev)) := by
  induction h with
  | nil => simp [blockLive]
  | cons a h ih =>
    rw [List.cons_append, blockLive, blockLive, ih, List.all_append, List.all_cons, List.all_nil]
    cases a.blocks d dev <;> cases e.blocks d dev <;> cases e.unblocks d dev <;> simp

theorem moments_concat (past h : List Event) (e : Event) :
    moments past (h ++ [e]) = moments past h ++ [(past ++ h, e)] := by
  induction h generalizing past with
  | nil => simp [moments]
  | cons a h ih => simp [moments, ih]

theorem uncancelled_concat (ts : List (List Event × Event)) (t : List Event × Event) :
    uncancelled d (ts ++ [t]) =
      (uncancelled d ts).filter (fun req => !cancels d req t.1 t.2) ++ (accepted d t.1 t.2).toList := by
  induction ts with
  | nil => cases h : accepted d t.1 t.2 <;> simp [uncancelled, h, Option.filter]
  | cons a ts ih =>
    rw [List.cons_append, uncancelled, uncancelled, ih, List.filter_append, ← List.append_assoc]
    congr 2
    cases accepted d a.1 a.2 with
    | none => rfl
    | some req =>
      cases hall : ts.all fun t => !cancels d req t.1 t.2 <;> cases hc : cancels d req t.1 t.2 <;>
        simp [List.all_append, hall, hc, Option.filter]

theorem liveRequests_concat (h : List Event) (e : Event) :
    liveRequests d (h ++ [e]) =
      (liveRequests d h).filter (fun req => !cancels d req h e) ++ (accepted d h e).toList := by
  rw [liveRequests, moments_concat, uncancelled_concat, List.nil_append]
  rfl

theorem accepted_run {h : List Event} {e : Event} {req : Msg} (acc : accepted d h e = some req) :
    req.cmdType = d.run := by
  cases e with
  | handled msg now =>
    rw [accepted] at acc
    split at acc
    · rename_i hrun
      cases acc
      exact hrun.1
    · cases acc
  | setEnable enable => cases acc
  | init => cases acc

theorem liveRequests_run (h : List Event) : ∀ req ∈ liveRequests d h, req.cmdType = d.run := by
  induction h using List.reverseRecOn with
  | nil => simp [liveRequests, moments, uncancelled]
  | append_singleton h e ih =>
    intro req hmem
    rw [liveRequests_concat] at hmem
    rcases List.mem_append.mp hmem with hmem | hmem
    · exact ih req (List.mem_of_mem_filter hmem)
    · exact accepted_run (Option.mem_toList.mp hmem)

theorem cancels_of_accepted {h : List Event} {e : Event} {req old : Msg} (acc : accepted d h e = some req)
    (same : old.deviceId = req.deviceId) : cancels d old h e = true := by
  cases e with
  | handled msg now =>
    have hmsg : msg = req := by
      rw [accepted] at acc
      split at acc
      · exact Option.some.inj acc
      · cases acc
    subst hmsg
    simp [cancels, acc, same]
  | setEnable enable => cases acc
  | init => rfl

theorem liveRequests_nodup (h : List Event) : ((liveRequests d h).map Msg.deviceId).Nodup := by
  induction h using List.reverseRecOn with
  | nil => exact List.nodup_nil
  | append_singleton h e ih =>
    rw [liveRequests_concat, List.map_append]
    refine List.Nodup.append (ih.sublist (List.filter_sublist.map _)) ?_ ?_
    · cases accepted d h e <;> simp
    · intro dev hold hnew
      obtain ⟨old, hlive, rfl⟩ := List.mem_map.mp hold
      obtain ⟨req, hreq, hsame⟩ := List.mem_map.mp hnew
      have hc := cancels_of_accepted (Option.mem_toList.mp hreq) hsame.symm
      simpa [hc] using List.of_mem_filter hlive

end

/-! ### The queues of a direction -/

/-- The queues of a direction hold its live requests, by priority and acceptance, and the devices of its live
    blocks. -/
structure Lane (d : Dir) (h : List Event) (arb : ArbData) : Prop where
  allow_eq : arb.allow d = (StableInsert.arrange Msg.priority (liveRequests d h)).map Msg.record
  distinct : (devices (arb.block d)).Nodup
  mem_block : ∀ dev, dev ∈ devices (arb.block d) ↔ blockLive d dev h = true

section
variable {d : Dir} {h : List Event} {arb : ArbData}

theorem mem_blockers {dev : DeviceId} : dev ∈ blockers d h ↔ blockLive d dev h = true := by
  simp [blockers, DeviceId.mem_all]

theorem Lane.block_eq_nil_iff (lane : Lane d h arb) : arb.block d = [] ↔ blockers d h = [] := by
  have hdevices : arb.block d = [] ↔ devices (arb.block d) = [] := List.map_eq_nil_iff.symm
  rw [hdevices, List.eq_nil_iff_forall_not_mem, List.eq_nil_iff_forall_not_mem]
  simp only [lane.mem_block, mem_blockers]

theorem remove_arranged {reqs : List Msg} (distinct : (reqs.map Msg.deviceId).Nodup) (dev : DeviceId) :
    cmdListRemove ((StableInsert.arrange Msg.priority reqs).map Msg.record) dev =
      (StableInsert.arrange Msg.priority (reqs.filter fun req => req.deviceId ≠ dev)).map Msg.record := by
  have hdistinct : (devices ((StableInsert.arrange Msg.priority reqs).map Msg.record)).Nodup := by
    unfold devices
    rw [List.map_map]
    exact ((StableInsert.arrange_perm Msg.priority reqs).map _).nodup_iff.mpr distinct
  rw [cmdListRemove_eq_filter hdistinct, List.filter_map, ← StableInsert.filter_arrange]
  rfl

theorem Lane.remove_nil_iff (lane : Lane d h arb) (dev : DeviceId) :
    cmdListRemove (arb.block d) dev = [] ↔
      ∀ other ∈ DeviceId.all, other ≠ dev → blockLive d other h = false := by
  rw [cmdListRemove_eq_filter lane.distinct, List.filter_eq_nil_iff]
  constructor
  · intro hall other _ hne
    by_contra hlive
    obtain ⟨r, hr, rfl⟩ := List.mem_map.mp ((lane.mem_block other).mpr (Bool.eq_true_of_not_eq_false hlive))
    exact hall r hr (decide_eq_true hne)
  · intro hall r hr hne
    have hlive := (lane.mem_block r.deviceId).mp (List.mem_map_of_mem hr)
    rw [hall r.deviceId (DeviceId.mem_all _) (of_decide_eq_true hne)] at hlive
    cases hlive

theorem Dir.block_ne_unblock (d : Dir) : ¬(d.block = d.unblock ∨ d.block = d.run) := by cases d <;> decide

theorem Lane.room (lane : Lane d h arb) {msg : Msg} {now : BitVec 32} (hblock : msg.cmdType = d.block)
    (fits : (blockers d (h ++ [.handled msg now])).length ≤ maxCmdQueueSize)
    (new : msg.deviceId ∉ devices (arb.block d)) : (arb.block d).length < maxCmdQueueSize := by
  have hsub : msg.deviceId :: devices (arb.block d) ⊆ blockers d (h ++ [.handled msg now]) := by
    intro dev hdev
    rw [mem_blockers, blockLive_concat]
    rcases List.mem_cons.mp hdev with rfl | hdev
    · simp [Event.blocks, hblock]
    · simp [Event.blocks, Event.unblocks, hblock, Dir.block_ne_unblock, (lane.mem_block dev).mp hdev]
  have hlen := (List.subperm_of_subset (List.nodup_cons.mpr ⟨new, lane.distinct⟩) hsub).length_le
  simp only [devices, List.length_cons, List.length_map] at hlen
  omega

/-- Where a new block finds room, the queue goes on holding just the live blocks. -/
theorem block_handled {arb : ArbData} (distinct : (devices (arb.block d)).Nodup)
    (live : ∀ dev, dev ∈ devices (arb.block d) ↔ blockLive d dev h = true) (msg : Msg) (now : BitVec 32)
    (room : msg.cmdType = d.block → msg.deviceId ∉ devices (arb.block d) → (arb.block d).length < maxCmdQueueSize) :
    (devices ((processMessage arb msg).block d)).Nodup ∧
      ∀ dev, dev ∈ devices ((processMessage arb msg).block d) ↔
        blockLive d dev (h ++ [.handled msg now]) = true := by
  simp only [processMessage_block, blockLive_concat, Event.blocks, Event.unblocks, Bool.or_eq_true,
    Bool.and_eq_true, Bool.not_eq_true', decide_eq_true_eq, decide_eq_false_iff_not, ← live]
  split_ifs with hblock hfree
  · obtain ⟨hdistinct, hmem⟩ := devices_setBlock (r := msg.blockRecord) distinct (room hblock)
    refine ⟨hdistinct, fun dev => (hmem dev).trans ?_⟩
    simp [hblock, Dir.block_ne_unblock, Msg.blockRecord, eq_comm]
  · obtain ⟨hdistinct, hmem⟩ := devices_remove distinct msg.deviceId
    refine ⟨hdistinct, fun dev => (hmem dev).trans ?_⟩
    simp [hblock, hfree, and_comm, eq_comm]
  · simp [hblock, hfree, distinct]

theorem Dir.run_ne_cancel (d : Dir) :
    d.run ≠ .stop ∧ d.run ≠ d.clearAllow ∧ d.run ≠ .emergencyStop := by cases d <;> decide

theorem accepted_handled (lane : Lane d h arb) (msg : Msg) (now : BitVec 32) :
    accepted d h (.handled msg now) =
      if msg.cmdType = d.run ∧ cmdListRemove (arb.block d) msg.deviceId = [] then some msg else none := by
  rw [accepted]
  simp only [lane.remove_nil_iff]

def unturned (d : Dir) (msg : Msg) (reqs : List Msg) : List Msg :=
  reqs.filter fun req => ¬(d.turns msg ∧ req.deviceId = d.power)

theorem Lane.allow_turned (lane : Lane d h arb) (msg : Msg) :
    (if d.turns msg then cmdListRemove (arb.allow d) d.power else arb.allow d) =
      (StableInsert.arrange Msg.priority (unturned d msg (liveRequests d h))).map Msg.record := by
  rw [lane.allow_eq, unturned]
  split
  · rename_i hturns
    rw [remove_arranged (liveRequests_nodup h)]
    simp [hturns]
  · rename_i hturns
    simp [hturns]

theorem unturned_nodup (msg : Msg) (h : List Event) : ((unturned d msg (liveRequests d h)).map Msg.deviceId).Nodup :=
  (liveRequests_nodup h).sublist (List.filter_sublist.map _)

theorem Lane.liveRequests_handled (lane : Lane d h arb) (msg : Msg) (now : BitVec 32) :
    liveRequests d (h ++ [.handled msg now]) =
      let reqs := unturned d msg (liveRequests d h)
      if msg.cmdType = d.run then
        if cmdListRemove (arb.block d) msg.deviceId = [] then
          reqs.filter (fun req => req.deviceId ≠ msg.deviceId) ++ [msg]
        else reqs
      else if msg.cmdType = .stop then reqs.filter fun req => req.deviceId ≠ msg.deviceId
      else if msg.cmdType = d.clearAllow ∨ msg.cmdType = .emergencyStop then []
      else reqs := by
  have hacc := accepted_handled lane msg now
  obtain ⟨hr₁, hr₂, hr₃⟩ := d.run_ne_cancel
  rw [liveRequests_concat, hacc]
  simp only [cancels, hacc, unturned, List.filter_filter]
  by_cases hrun : msg.cmdType = d.run
  · simp only [hrun, hr₁, hr₂, hr₃, true_and, false_and, false_or, if_true]
    by_cases hfree : cmdListRemove (arb.block d) msg.deviceId = []
    · simp only [hfree, if_true, Option.isSome_some, true_and, Option.toList_some]
      congr 1
      refine List.filter_congr fun req _ => ?_
      rw [Bool.and_comm]
      simp [eq_comm]
    · simp [hfree]
  · simp only [hrun, false_and, if_false, Option.isSome_none, Option.toList_none, List.append_nil]
    by_cases hstop : msg.cmdType = .stop
    · simp only [hstop, if_true]
      refine List.filter_congr fun req _ => ?_
      cases d <;> simp [Dir.clearAllow, and_comm, eq_comm]
    · simp only [hstop, if_false]
      by_cases hclear : msg.cmdType = d.clearAllow ∨ msg.cmdType = .emergencyStop
      · rw [if_pos hclear, List.filter_eq_nil_iff]
        intro req _
        rcases hclear with hclear | hclear <;> simp [hclear]
      · rw [if_neg hclear]
        obtain ⟨hc₁, hc₂⟩ := not_or.mp hclear
        simp [hc₁, hc₂]

theorem Lane.allow_handled (lane : Lane d h arb) (msg : Msg) (now : BitVec 32)
    (fits : (liveRequests d (h ++ [.handled msg now])).length ≤ maxCmdQueueSize) :
    (processMessage arb msg).allow d =
      (StableInsert.arrange Msg.priority (liveRequests d (h ++ [.handled msg now]))).map Msg.record := by
  have hlive := lane.liveRequests_handled msg now
  rw [processMessage_allow]
  simp only [lane.allow_turned]
  by_cases hrun : msg.cmdType = d.run
  · simp only [hrun, if_true] at hlive ⊢
    unfold cmdListSetAllow
    by_cases hfree : cmdListRemove (arb.block d) msg.deviceId = []
    · rw [if_pos hfree] at hlive
      rw [hlive, List.length_append, List.length_singleton] at fits
      have hroom : ¬((StableInsert.arrange Msg.priority ((unturned d msg (liveRequests d h)).filter
          fun req => req.deviceId ≠ msg.deviceId)).map Msg.record).length ≥ maxCmdQueueSize := by
        rw [List.length_map, (StableInsert.arrange_perm _ _).length_eq]
        omega
      have hdev : msg.record.deviceId = msg.deviceId := rfl
      simp only [hfree, List.length_nil, gt_iff_lt, Nat.lt_irrefl, if_false, hdev,
        remove_arranged (unturned_nodup msg h), hroom]
      rw [hlive, StableInsert.arrange_concat]
      exact StableInsert.insert_map Record.priority Msg.record msg _
    · rw [if_neg hfree] at hlive
      rw [if_pos (List.length_pos_iff.mpr hfree), hlive]
  · simp only [hrun, if_false] at hlive ⊢
    rw [hlive]
    split_ifs
    · exact remove_arranged (unturned_nodup msg h) msg.deviceId
    · rfl
    · rfl

theorem enabled_concat (h : List Event) (e : Event) : enabled (h ++ [e]) = e.enables.getD (enabled h) := by
  cases he : e.enables <;> simp [enabled, List.filterMap_append, he]

theorem Lane.empty (reqs : liveRequests d h = []) (blocks : ∀ dev, blockLive d dev h = false) :
    Lane d h ArbData.init := by
  refine ⟨?_, ?_, fun dev => ?_⟩
  · rw [reqs]
    cases d <;> rfl
  · cases d <;> exact List.nodup_nil
  · rw [blocks]
    cases d <;> simp [ArbData.init, ArbData.block, devices]

theorem Lane.represent_eq (lane : Lane d h arb) :
    represent (arb.allow d) (arb.block d) = (representative d h).map Msg.record := by
  rw [represent, representative]
  simp only [List.length_eq_zero_iff, lane.block_eq_nil_iff]
  split
  · rw [lane.allow_eq, List.head?_map, StableInsert.head?_arrange]
  · rfl

theorem representative_run {req : Msg} (rep : representative d h = some req) : req.cmdType = d.run := by
  rw [representative] at rep
  split at rep
  · exact liveRequests_run h req (List.argmin_mem (Option.mem_def.mpr rep))
  · cases rep

end

structure Agrees (h : List Event) (arb : ArbData) : Prop where
  lane : ∀ d, Lane d h arb
  enable : arb.enable = enabled h

theorem Lane.congr {d : Dir} {h : List Event} {arb arb' : ArbData} (lane : Lane d h arb)
    (allow : arb'.allow = arb.allow) (block : arb'.block = arb.block) : Lane d h arb' := by
  obtain ⟨hallow, hdistinct, hmem⟩ := lane
  refine ⟨?_, ?_, ?_⟩
  · rw [allow, hallow]
  · rwa [block]
  · rwa [block]

theorem Agrees.process {h : List Event} {arb : ArbData} (agrees : Agrees h arb) (msg : Msg) (now : BitVec 32)
    (fits : Fits (h ++ [.handled msg now])) : Agrees (h ++ [.handled msg now]) (processMessage arb msg) where
  lane d :=
    have hblock := block_handled (agrees.lane d).distinct (agrees.lane d).mem_block msg now
      fun hcmd => (agrees.lane d).room hcmd (fits d).2
    ⟨(agrees.lane d).allow_handled msg now (fits d).1, hblock.1, hblock.2⟩
  enable := by
    rw [processMessage_enable, agrees.enable, enabled_concat]
    rfl

theorem Agrees.step {h : List Event} {arb : ArbData} (agrees : Agrees h arb) (e : Event)
    (fits : Fits (h ++ [e])) : Agrees (h ++ [e]) (arb.step e) := by
  cases e with
  | handled msg now =>
    have hprocess := agrees.process msg now fits
    obtain ⟨hallow, hblock, henable⟩ := decision_kept now (processMessage arb msg)
    exact ⟨fun d => (hprocess.lane d).congr hallow hblock, henable.trans hprocess.enable⟩
  | setEnable enable =>
    refine ⟨fun d => ?_, by rw [enabled_concat]; rfl⟩
    obtain ⟨hallow, hdistinct, hmem⟩ := agrees.lane d
    have hlive : liveRequests d (h ++ [.setEnable enable]) = liveRequests d h := by
      simp [liveRequests_concat, cancels, accepted]
    have hkeep : Lane d (h ++ [.setEnable enable]) arb := by
      refine ⟨hlive ▸ hallow, hdistinct, fun dev => ?_⟩
      simp [hmem, blockLive_concat, Event.blocks, Event.unblocks]
    exact hkeep.congr rfl rfl
  | init =>
    refine ⟨fun d => Lane.empty ?_ fun dev => ?_, by rw [enabled_concat]; rfl⟩
    · simp [liveRequests_concat, cancels, accepted]
    · simp [blockLive_concat, Event.blocks, Event.unblocks]

theorem replay_agrees (h : List Event) (fits : ∀ past, past <+: h → Fits past) : Agrees h (replay h) := by
  induction h using List.reverseRecOn with
  | nil => exact ⟨fun d => Lane.empty rfl fun _ => rfl, rfl⟩
  | append_singleton h e ih =>
    rw [replay_concat]
    have hpast := ih fun past hpre => fits past (hpre.trans (List.prefix_append h [e]))
    exact hpast.step e (fits _ (List.prefix_refl _))

/-! ### The decision -/

theorem Agrees.decision_eq {h : List Event} {arb : ArbData} (agrees : Agrees h arb) (now : BitVec 32) :
    ((decision now arb).2, (decision now arb).1.conflictFault) = specDecision h := by
  have hfwd : represent arb.allowFwd arb.blockFwd = _ := (agrees.lane .fwd).represent_eq
  have hrev : represent arb.allowRev arb.blockRev = _ := (agrees.lane .rev).represent_eq
  rw [specDecision]
  cases henable : enabled h with
  | false => exact decision_disabled now (agrees.enable.trans henable)
  | true =>
    rw [decision_enabled now (agrees.enable.trans henable), hfwd, hrev]
    cases hf : representative .fwd h with
    | none =>
      cases hr : representative .rev h with
      | none => rfl
      | some r =>
        have hcmd : r.cmdType = .runRev := representative_run hr
        simp [finalCmd, hcmd, Msg.record]
    | some f =>
      have hcmd : f.cmdType = .runFwd := representative_run hf
      cases hr : representative .rev h with
      | none => simp [finalCmd, hcmd, Msg.record]
      | some r =>
        have hcmd' : r.cmdType = .runRev := representative_run hr
        have hparts : finalCmd (some f.record) (some r.record) =
            if f.deviceId = r.deviceId then (none, true)
            else if f.priority < r.priority then (some f.record, false)
            else if r.priority < f.priority then (some r.record, false)
            else (none, true) := rfl
        simp only [Option.map_some, hparts, if_true]
        by_cases hdev : f.deviceId = r.deviceId
        · simp [hdev]
        · rcases Nat.lt_trichotomy f.priority r.priority with hlt | heq | hgt
          · simp [hdev, hlt, hcmd, Nat.ne_of_lt hlt, Msg.record]
          · simp [hdev, heq]
          · simp [hdev, hgt, hcmd', Nat.ne_of_gt hgt, Nat.not_lt.mpr (Nat.le_of_lt hgt), Msg.record]

/-- The arbiter refines its priority specification: after each message of a history that fits, the output
    and the conflict flag are what the specification reads off the history. -/
theorem arbiter_refines (h : List Event) (msg : Msg) (now : BitVec 32)
    (fits : ∀ past, past <+: h ++ [.handled msg now] → Fits past) :
    ((handle now (replay h) msg).2, (handle now (replay h) msg).1.conflictFault) =
      specDecision (h ++ [.handled msg now]) := by
  have hpast := replay_agrees h fun past hpre => fits past (hpre.trans (List.prefix_append h _))
  exact (hpast.process msg now (fits _ (List.prefix_refl _))).decision_eq now

/-- A fault device blocks the direction of the running request, the other direction runs, and the block goes
    away again. -/
def blockedHistory : List Event :=
  [.handled ⟨0, .ioFwd, prioManual, .runFwd, 80, 1⟩ 1, .handled ⟨0, .powerNeg, prioPower, .runRev, 100, 2⟩ 2,
    .handled ⟨0, .overcurFwd, prioFault, .blockFwd, 0, 3⟩ 3]

def unblockMsg : Msg := ⟨0, .overcurFwd, prioFault, .unblockFwd, 0, 4⟩

/-- The request is still there and runs on, ahead of the weaker one of the other direction. -/
theorem arbiter_refines_unblocked :
    (handle 4 (replay blockedHistory) unblockMsg).2 = .fwd 80 ∧
      ((handle 4 (replay blockedHistory) unblockMsg).2,
        (handle 4 (replay blockedHistory) unblockMsg).1.conflictFault) =
        specDecision (blockedHistory ++ [.handled unblockMsg 4]) := by
  refine ⟨by decide, arbiter_refines _ _ _ fun past hpre d => ?_⟩
  have hall : ∀ past ∈ List.inits (blockedHistory ++ [.handled unblockMsg 4]), ∀ d ∈ [Dir.fwd, Dir.rev],
      (liveRequests d past).length ≤ maxCmdQueueSize ∧ (blockers d past).length ≤ maxCmdQueueSize := by decide
  exact hall past ((List.mem_inits _ _).mpr hpre) d (by cases d <;> decide)

end RodActuator.Arb
