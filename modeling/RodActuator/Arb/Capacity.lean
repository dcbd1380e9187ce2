import RodActuator.Arb.Invariant

/-! Commands that find a queue full. There are more devices than places in a queue, and a command that finds no
    place is dropped after it was accepted: a block that is dropped does not stop the motor. Where every block
    finds a place, and every request a place or a first one that is not behind it, no command is lost. -/

namespace RodActuator.Arb
variable {d : Dir} {h : List Event}

/-- A block finds itself or a place in the queue; a request whose direction is free finds a place, or a queue
    whose first request has no larger number. -/
def FindsRoom (arb : ArbData) : Event → Prop
  | .handled msg _ => ∀ d : Dir,
    (msg.cmdType = d.block → msg.deviceId ∈ devices (arb.block d) ∨ (arb.block d).length < maxCmdQueueSize) ∧
    (msg.cmdType = d.run → cmdListRemove (arb.block d) msg.deviceId = [] →
      (cmdListRemove (arb.turned d msg) msg.deviceId).length < maxCmdQueueSize ∨
        ∀ r ∈ (cmdListRemove (arb.turned d msg) msg.deviceId).head?, r.priority ≤ msg.priority)
  | _ => True

instance (arb : ArbData) (e : Event) : Decidable (FindsRoom arb e) := by
  cases e <;> unfold FindsRoom <;> infer_instance

def NoneLost (h : List Event) : Prop := ∀ past e, past ++ [e] <+: h → FindsRoom (replay past) e

theorem NoneLost.past {past : List Event} {e : Event} (room : NoneLost (past ++ [e])) :
    NoneLost past ∧ FindsRoom (replay past) e :=
  ⟨fun past' e' hpre => room past' e' (hpre.trans (List.prefix_append _ _)), room past e (List.prefix_refl _)⟩

/-- The block queue holds just the live blocks. -/
theorem NoneLost.mem_block (room : NoneLost h) (dev : DeviceId) :
    dev ∈ devices ((replay h).block d) ↔ blockLive d dev h = true := by
  induction h using List.reverseRecOn generalizing dev with
  | nil => cases d <;> simp [replay, ArbData.init, ArbData.block, devices, blockLive]
  | append_singleton h e ih =>
    obtain ⟨hpast, hroom⟩ := room.past
    rw [replay_concat]
    cases e with
    | handled msg now =>
      rw [ArbData.step, (handle_kept now (replay h) msg).2.1]
      refine (block_handled (sound_replay d h).block_distinct (ih hpast) msg now fun hcmd hnew => ?_).2 dev
      exact ((hroom d).1 hcmd).resolve_left hnew
    | setEnable enable =>
      refine (ih hpast dev).trans ?_
      simp [blockLive_concat, Event.blocks, Event.unblocks]
    | init =>
      rw [blockLive_concat]
      cases d <;> simp [ArbData.step, ArbData.init, ArbData.block, devices, Event.blocks, Event.unblocks]

theorem handle_blocked {past : List Event} {msg : Msg} {now : BitVec 32}
    (hblock : (replay (past ++ [.handled msg now])).block d ≠ []) (duty : Nat) :
    (handle now (replay past) msg).2 ≠ d.output duty := by
  rw [replay_concat, ArbData.step, (handle_kept now (replay past) msg).2.1] at hblock
  have htyped : Typed (processMessage (replay past) msg) := fun d => ((sound_replay d past).process msg).allow_typed
  exact output_blocked htyped now hblock duty

/-- A blocked direction is not driven. -/
theorem activeDir_blocked (hblock : (replay h).block d ≠ []) : (replay h).activeDir ≠ some d := by
  induction h using List.reverseRecOn with
  | nil => simp [replay, ArbData.init]
  | append_singleton h e ih =>
    cases e with
    | handled msg now =>
      intro hactive
      rw [replay_concat, ArbData.step, handle, decision_activeDir] at hactive
      obtain ⟨duty, hout⟩ := Output.dir_eq_some_iff.mp hactive
      exact handle_blocked hblock duty hout
    | setEnable enable =>
      rw [replay_concat] at hblock ⊢
      exact ih hblock
    | init =>
      rw [replay_concat]
      simp [ArbData.step, ArbData.init]

/-- A request that was handled while its direction is free is not ahead of the first one. -/
theorem head_le {past : List Event} {msg : Msg} {now : BitVec 32} (room : FindsRoom (replay past) (.handled msg now))
    (hrun : msg.cmdType = d.run) (hfree : cmdListRemove ((replay past).block d) msg.deviceId = []) :
    ∃ r, ((replay (past ++ [.handled msg now])).allow d).head? = some r ∧ r.priority ≤ msg.priority := by
  have hallow : (replay (past ++ [.handled msg now])).allow d =
      if (cmdListRemove ((replay past).turned d msg) msg.deviceId).length ≥ maxCmdQueueSize then
        cmdListRemove ((replay past).turned d msg) msg.deviceId
      else StableInsert.insert Record.priority msg.record
        (cmdListRemove ((replay past).turned d msg) msg.deviceId) := by
    rw [replay_concat, ArbData.step, (handle_kept now (replay past) msg).1, processMessage_allow]
    simp only [hrun, hfree, if_true, cmdListSetAllow, List.length_nil, gt_iff_lt, Nat.lt_irrefl, if_false]
    rfl
  rw [hallow]
  split
  · rename_i hfull
    have hhead := ((room d).2 hrun hfree).resolve_left (Nat.not_lt.mpr hfull)
    cases hq : cmdListRemove ((replay past).turned d msg) msg.deviceId with
    | nil => simp [hq, maxCmdQueueSize] at hfull
    | cons r queue => exact ⟨r, rfl, hhead r (by simp [hq])⟩
  · exact StableInsert.head?_insert Record.priority msg.record _

/-- No command is lost in a history whose commands find room: a direction that a device blocks is not driven
    until the device gives it free or the axis is reset, and a request that is handled while nobody blocks its
    direction is not ahead of the first one. -/
theorem no_command_lost (room : NoneLost h) (d : Dir) :
    (∀ dev, blockLive d dev h = true → (replay h).activeDir ≠ some d ∧
      ∀ past msg now, h = past ++ [.handled msg now] → ∀ duty, (handle now (replay past) msg).2 ≠ d.output duty) ∧
    ∀ past msg now, h = past ++ [.handled msg now] → msg.cmdType = d.run → (∀ dev, blockLive d dev h = false) →
      ∃ r, ((replay h).allow d).head? = some r ∧ r.priority ≤ msg.priority := by
  constructor
  · intro dev hlive
    have hblock : (replay h).block d ≠ [] := by
      have hmem := (room.mem_block dev).mpr hlive
      intro hnil
      rw [hnil] at hmem
      cases hmem
    refine ⟨activeDir_blocked hblock, ?_⟩
    rintro past msg now rfl
    exact handle_blocked hblock
  · rintro past msg now rfl hrun hfree
    refine head_le room.past.2 hrun ?_
    have hblock : (replay (past ++ [.handled msg now])).block d = cmdListRemove ((replay past).block d) msg.deviceId := by
      rw [replay_concat, ArbData.step, (handle_kept now (replay past) msg).2.1, processMessage_block, if_neg, if_pos]
      · exact .inr hrun
      · rw [hrun]
        cases d <;> decide
    rw [← hblock]
    by_contra hne
    obtain ⟨r, hr⟩ := List.exists_mem_of_ne_nil _ hne
    have hlive := (room.mem_block r.deviceId).mp (List.mem_map_of_mem hr)
    rw [hfree] at hlive
    cases hlive

/-- The block of the rod limit holds against the request of the power. -/
theorem no_command_lost_limit :
    let h : List Event := [.handled ⟨0, .rodLimitFwd, prioLimit, .blockFwd, 0, 1⟩ 1,
      .handled ⟨0, .powerPos, prioPower, .runFwd, 100, 2⟩ 2]
    (replay h).activeDir ≠ some .fwd := by
  intro h
  have hroom : NoneLost h := by
    rintro (_ | ⟨x, _ | ⟨y, past⟩⟩) e hpre <;> simp [h, List.cons_prefix_cons] at hpre
    · subst hpre
      decide
    · obtain ⟨rfl, rfl⟩ := hpre
      decide
  exact ((no_command_lost hroom .fwd).1 .rodLimitFwd (by decide)).1

/-- Ten devices block the forward direction, then the rod limit does, and the ten give it free: the block of the
    rod limit was dropped, and the power drives towards the limit. -/
theorem block_lost_to_capacity :
    let others : List DeviceId := [.limitFwd, .limitRev, .can, .ioFwd, .ioRev, .emergency, .rturnFwd, .rturnRev,
      .overvoltageFwd, .overvoltageRev]
    let send (cmd : CmdType) (dev : DeviceId) : Event := .handled ⟨0, dev, prioLimit, cmd, 0, 0⟩ 0
    let h := others.map (send .blockFwd) ++ [send .blockFwd .rodLimitFwd] ++ others.map (send .unblockFwd) ++
      [.handled ⟨0, .powerPos, prioPower, .runFwd, 100, 0⟩ 0]
    blockLive .fwd .rodLimitFwd h = true ∧ (replay h).enable = true ∧ (replay h).activeDir = some .fwd := by
  decide +kernel

end RodActuator.Arb
