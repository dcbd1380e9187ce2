import RodActuator.Sys.Limit

/-! A limit block is taken back when the limit is left, if the message that takes it back finds room in the
    queue and no block behind itself: an urgent message overtakes what was sent before. What the messages on
    their way will leave of the block is followed along the run. -/

namespace RodActuator.Sys.World
open Arb Power Rod Binary32 Transition

/-- Whether the limit blocks the direction after a message, if it is not refused. -/
def blockedBy (d : Dir) (blocked : Bool) (msg : Msg) : Bool :=
  if Blocks d msg then true else if Unblocks d msg then false else blocked

def blockedAfter (d : Dir) (blocked : Bool) (msgs : List Msg) : Bool := msgs.foldl (blockedBy d) blocked

section
variable {d : Dir} {msg : Msg}

theorem blockedAfter_neutral (msg : Msg) (hblock : ¬Blocks d msg) (hunblock : ¬Unblocks d msg) (b : Bool)
    (before after : List Msg) :
    blockedAfter d b (before ++ msg :: after) = blockedAfter d b (before ++ after) := by
  simp [blockedAfter, blockedBy, hblock, hunblock]

theorem blockedAfter_unblock (h : Unblocks d msg) (b : Bool) (after : List Msg) :
    blockedAfter d b (msg :: after) = blockedAfter d false after := by
  have hblock : ¬Blocks d msg := by
    rintro ⟨-, -, hcmd⟩
    obtain ⟨-, -, hcmd'⟩ := h
    rw [hcmd] at hcmd'
    cases d <;> simp [Dir.block, Dir.unblock, Dir.run] at hcmd'
  simp [blockedAfter, blockedBy, hblock, h]

theorem blockedAfter_mono {b b' : Bool} (h : b = true → b' = true) (msgs : List Msg)
    (hfree : blockedAfter d b' msgs = false) : blockedAfter d b msgs = false := by
  induction msgs generalizing b b' with
  | nil =>
    rw [← Bool.not_eq_true] at hfree ⊢
    exact fun hb => hfree (h hb)
  | cons msg msgs ih =>
    refine ih (fun hb => ?_) hfree
    unfold blockedBy at hb ⊢
    split_ifs at hb ⊢
    · rfl
    · exact h hb

theorem blockedAfter_false {msgs : List Msg} (h : ∀ msg ∈ msgs, ¬Blocks d msg) : blockedAfter d false msgs = false := by
  induction msgs with
  | nil => rfl
  | cons msg msgs ih =>
    have hrest := ih fun m hm => h m (List.mem_cons_of_mem msg hm)
    have hmsg : blockedBy d false msg = false := by simp [blockedBy, h msg List.mem_cons_self]
    rw [blockedAfter, List.foldl_cons, hmsg]
    exact hrest

theorem handle_blockers (now : BitVec 32) {arb : ArbData} (distinct : (devices (arb.block d)).Nodup)
    (hmsg : msg.axisId = 0) : (devices ((handle now arb msg).1.block d)).Nodup ∧
      (limitDevice d ∈ devices ((handle now arb msg).1.block d) →
        Blocks d msg ∨ ¬Unblocks d msg ∧ limitDevice d ∈ devices (arb.block d)) := by
  rw [(handle_kept now arb msg).2.1, processMessage_block]
  split_ifs with hblock hunblock
  · have hset : (devices (cmdListSetBlock (arb.block d) msg.blockRecord)).Nodup ∧
        ∀ dev, dev ∈ devices (cmdListSetBlock (arb.block d) msg.blockRecord) →
          dev = msg.deviceId ∨ dev ∈ devices (arb.block d) := by
      by_cases hfull : (arb.block d).length < maxCmdQueueSize
      · obtain ⟨hnodup, hmem⟩ := devices_setBlock (r := msg.blockRecord) distinct fun _ => hfull
        exact ⟨hnodup, fun dev => (hmem dev).mp⟩
      · have hsame : cmdListSetBlock (arb.block d) msg.blockRecord = arb.block d := by
          unfold cmdListSetBlock
          split_ifs
          · rfl
          · rfl
          · exact absurd (Nat.not_le.mp ‹_›) hfull
        rw [hsame]
        exact ⟨distinct, fun _ => .inr⟩
    refine ⟨hset.1, fun hmem => ?_⟩
    rcases hset.2 _ hmem with hdev | hold
    · exact .inl ⟨hmsg, hdev.symm, hblock⟩
    · refine .inr ⟨fun hun => ?_, hold⟩
      have hcmd := hun.2.2
      rw [hblock] at hcmd
      cases d <;> simp [Dir.block, Dir.unblock, Dir.run] at hcmd
  · obtain ⟨hnodup, hmem⟩ := devices_remove distinct msg.deviceId
    refine ⟨hnodup, fun hin => .inr ?_⟩
    obtain ⟨hne, hold⟩ := (hmem _).mp hin
    exact ⟨fun hun => hne hun.2.1.symm, hold⟩
  · exact ⟨distinct, fun hmem => .inr ⟨fun hun => hunblock hun.2.2, hmem⟩⟩

end

/-! ### Along a run -/

/-- No one else sends under the devices of the limits, and the message that takes a block back finds room in
    the queue and no such block behind itself. -/
def ReleaseKept (w : World) : Label → Prop
  | .post _ msg _ => ¬FromLimit msg
  | .rod _ => ∀ d, w.rod.acts.head? = some (.out (.arbSendCommand (limitCommand d d.unblock))) →
      w.arb.mq.length < arbMqDepth ∧ ∀ msg ∈ w.arb.mq, ¬Blocks d msg
  | _ => True

instance (w : World) (l : Label) : Decidable (ReleaseKept w l) :=
  match l with
  | .post _ msg _ => inferInstanceAs (Decidable (¬FromLimit msg))
  | .rod _ => inferInstanceAs (Decidable (∀ d, w.rod.acts.head? = some (.out (.arbSendCommand (limitCommand d d.unblock))) →
      w.arb.mq.length < arbMqDepth ∧ ∀ msg ∈ w.arb.mq, ¬Blocks d msg))
  | .event _ | .dispatch | .sm _ | .recv | .process _ | .tick _ | .scan _ | .polOut _ | .rodTick .. =>
    instDecidableTrue

/-- Away from the limit, its block is about to be taken back or gone once the messages are handled. -/
structure Released (d : Dir) (w : World) : Prop where
  distinct : (devices ((w.arb.axis 0).block d)).Nodup
  released : w.rod.sm.curState ≠ limitState d → .out (.arbSendCommand (limitCommand d d.unblock)) ∈ w.rod.acts ∨
    blockedAfter d (decide (limitDevice d ∈ w.blockers d)) w.arb.inbox = false

theorem released_boot (d : Dir) (dirInvert : Bool) (pos : Position) : Released d (boot dirInvert pos) := by
  have hempty : ((boot dirInvert pos).arb.axis 0).block d = [] := by cases d <;> rfl
  exact ⟨by simp [hempty, devices], fun _ => .inr (by simp [blockers, hempty, devices]; rfl)⟩

section
variable {F : Binary32} {cfg : VoltCfg} {w w' : World} {l : Label} {d : Dir}

theorem blockedAfter_send {msg : Msg} (hblock : ¬Blocks d msg) (hunblock : ¬Unblocks d msg) (now : BitVec 32)
    (urgent b : Bool) (a : Arbiter) :
    blockedAfter d b (a.send now msg urgent).inbox = blockedAfter d b a.inbox := by
  rcases a.inbox_send_cases now msg urgent with hlost | ⟨before, after, hinbox, hsent⟩
  · rw [hlost]
  · rw [hsent, hinbox]
    exact blockedAfter_neutral { msg with timestamp := now } hblock hunblock b before after

theorem Released.send {msg : Msg} (h : Released d w) (hblock : ¬Blocks d msg) (hunblock : ¬Unblocks d msg)
    (now : BitVec 32) (urgent : Bool) (harb : w'.arb = w.arb.send now msg urgent) (hrod : w'.rod.sm = w.rod.sm)
    (hacts : .out (.arbSendCommand (limitCommand d d.unblock)) ∈ w.rod.acts →
      .out (.arbSendCommand (limitCommand d d.unblock)) ∈ w'.rod.acts) : Released d w' := by
  obtain ⟨hdistinct, hreleased⟩ := h
  have haxis : w'.arb.axis = w.arb.axis := by rw [harb, Arbiter.send_axis]
  refine ⟨haxis ▸ hdistinct, fun hs => (hreleased (hrod ▸ hs)).imp hacts fun hfree => ?_⟩
  rw [blockers, haxis, harb, blockedAfter_send hblock hunblock]
  exact hfree

/-- The messages of another limit, and those that clear requests, do not matter. -/
theorem Released.limit {msg : Msg} {rest : List RodAct} (h : Released d w)
    (hmsg : RodStateCtx.Sends w.rod.sm.curState msg) (hacts : w.rod.acts = .out (.arbSendCommand msg) :: rest)
    (hok : ∀ d, w.rod.acts.head? = some (.out (.arbSendCommand (limitCommand d d.unblock))) →
      w.arb.mq.length < arbMqDepth ∧ ∀ msg ∈ w.arb.mq, ¬Blocks d msg)
    (now : BitVec 32) (harb : w'.arb = w.arb.send now msg true) (hrod : w'.rod = { w.rod with acts := rest }) :
    Released d w' := by
  have hneutral : ¬Blocks d msg → ¬Unblocks d msg → msg ≠ limitCommand d d.unblock → Released d w' := by
    intro hblock hunblock hne
    refine h.send hblock hunblock now true harb (by rw [hrod]) fun hmem => ?_
    rw [hacts] at hmem
    rw [hrod]
    exact (List.mem_cons.mp hmem).resolve_left fun heq => hne (RodOut.arbSendCommand.inj (RodAct.out.inj heq)).symm
  have hother : ∀ d' cmd, d' ≠ d → msg = limitCommand d' cmd → Released d w' := by
    rintro d' cmd hne rfl
    have hdev : limitDevice d' ≠ limitDevice d := fun heq => hne (limitDevice_injective heq)
    exact hneutral (fun hb => hdev hb.2.1) (fun hu => hdev hu.2.1) fun heq => hdev (congrArg Msg.deviceId heq)
  obtain ⟨hdistinct, hreleased⟩ := h
  have haxis : w'.arb.axis = w.arb.axis := by rw [harb, Arbiter.send_axis]
  cases hmsg with
  | block d' hs =>
    by_cases hd : d' = d
    · subst hd
      exact ⟨haxis ▸ hdistinct, fun hs' => absurd hs (by rw [hrod] at hs'; exact hs')⟩
    · exact hother d' _ hd rfl
  | unblock d' hs =>
    by_cases hd : d' = d
    · subst hd
      obtain ⟨hroom, hmq⟩ := hok d' (by rw [hacts]; rfl)
      refine ⟨haxis ▸ hdistinct, fun _ => .inr ?_⟩
      rw [harb, Arbiter.inbox_send_urgent now _ hroom, blockedAfter, List.foldl_append]
      exact (blockedAfter_unblock ⟨rfl, rfl, .inl rfl⟩ _ _).trans (blockedAfter_false hmq)
    · exact hother d' _ hd rfl
  | clearAllow d' =>
    refine hneutral ?_ ?_ ?_
    · rintro ⟨-, -, hcmd⟩
      cases d <;> cases d' <;> cases hcmd
    · rintro ⟨-, -, hcmd | hcmd⟩ <;> cases d <;> cases d' <;> cases hcmd
    · intro heq
      have hcmd := congrArg Msg.cmdType heq
      cases d <;> cases d' <;> cases hcmd

theorem Released.process (h : Released d w) {now : BitVec 32} (harb : w.arb.process now = some w'.arb)
    (hrod : w'.rod = w.rod) : Released d w' := by
  obtain ⟨hdistinct, hreleased⟩ := h
  obtain ⟨msg, hinflight, heq⟩ := Arbiter.process_eq_some harb
  have hinbox : w.arb.inbox = msg :: w'.arb.inbox := by rw [heq]; simp [Arbiter.inbox, hinflight]
  have hblocked : (devices ((w'.arb.axis 0).block d)).Nodup ∧
      (limitDevice d ∈ w'.blockers d → blockedBy d (decide (limitDevice d ∈ w.blockers d)) msg = true) := by
    by_cases haxis : msg.axisId = 0
    · have hnew : w'.arb.axis 0 = (handle now (w.arb.axis 0) msg).1 := by rw [heq, haxis]; simp
      obtain ⟨hnodup, hmem⟩ := handle_blockers now (d := d) hdistinct haxis
      rw [blockers, hnew]
      refine ⟨hnodup, fun hin => ?_⟩
      unfold blockedBy
      rcases hmem hin with hblock | ⟨hunblock, hold⟩
      · rw [if_pos hblock]
      · rw [if_neg hunblock]
        split <;> simp [blockers, hold]
    · have hsame : w'.arb.axis 0 = w.arb.axis 0 := by rw [heq]; simp [Ne.symm haxis]
      rw [blockers, hsame]
      refine ⟨hdistinct, fun hin => ?_⟩
      have hblock : ¬Blocks d msg := fun hb => haxis hb.1
      have hunblock : ¬Unblocks d msg := fun hu => haxis hu.1
      simp [blockedBy, hblock, hunblock, blockers, hin]
  refine ⟨hblocked.1, fun hs => ?_⟩
  rw [hrod] at hs ⊢
  refine (hreleased hs).imp_right fun hfree => ?_
  rw [hinbox] at hfree
  exact blockedAfter_mono (fun hb => hblocked.2 (of_decide_eq_true hb)) _ hfree

theorem Released.reset (h : Released d w) (i : Fin arbMaxAxisNum) (harb : w'.arb = w.arb.reset i) (hrod : w'.rod = w.rod) :
    Released d w' := by
  obtain ⟨hdistinct, hreleased⟩ := h
  have hblock : (w'.arb.axis 0).block d = [] ∨ (w'.arb.axis 0).block d = (w.arb.axis 0).block d := by
    rw [harb]
    by_cases hi : 0 = i
    · subst hi
      left
      cases d <;> simp [Arbiter.reset, ArbData.block, ArbData.init]
    · right
      simp [Arbiter.reset, hi]
  have hinbox : w'.arb.inbox = w.arb.inbox := by rw [harb]; rfl
  rcases hblock with hblock | hblock
  · refine ⟨by simp [hblock, devices], fun hs => (hreleased (hrod ▸ hs)).imp (fun hacts => hrod ▸ hacts) ?_⟩
    rw [hinbox]
    exact blockedAfter_mono (by simp [blockers, hblock, devices]) _
  · refine ⟨hblock ▸ hdistinct, fun hs => (hreleased (hrod ▸ hs)).imp (fun hacts => hrod ▸ hacts) fun hfree => ?_⟩
    rw [blockers, hblock, hinbox]
    exact hfree

theorem Released.step (h : Released d w) (hposted : Posted w) (hok : ReleaseKept w l)
    (hstep : World.step F cfg w l = some w') : Released d w' := by
  have hpost : ∀ now msg urgent, l = .post now msg urgent → ¬FromLimit msg := by
    rintro now msg urgent rfl
    exact hok
  cases step_deal hposted hpost hstep with
  | quiet harb hrod hacts =>
    obtain ⟨hdistinct, hreleased⟩ := h
    have hblock : (w'.arb.axis 0).block = (w.arb.axis 0).block := harb.block 0
    have hinbox : w'.arb.inbox = w.arb.inbox := by rw [Arbiter.inbox, harb.inflight, harb.mq]; rfl
    refine ⟨hblock ▸ hdistinct, fun hs => (hreleased (hrod ▸ hs)).imp (hacts _).mpr fun hfree => ?_⟩
    rw [blockers, hblock, hinbox]
    exact hfree
  | other now urgent hmsg harb hrod =>
    have hdev := deviceId_ne hmsg d
    exact h.send (fun hb => hdev hb.2.1) (fun hu => hdev hu.2.1) now urgent harb (by rw [hrod]) (by rw [hrod]; exact id)
  | recv harb hrod =>
    obtain ⟨hdistinct, hreleased⟩ := h
    have haxis := (Arbiter.recv_kept harb).1
    refine ⟨haxis ▸ hdistinct, fun hs => ?_⟩
    rw [blockers, haxis, Arbiter.inbox_recv harb, hrod]
    exact hreleased (hrod ▸ hs)
  | process harb hrod => exact h.process harb hrod
  | reset now i _ harb hrod => exact h.reset i harb hrod
  | limit now hacts hmsg harb hrod => exact h.limit hmsg hacts hok now harb hrod
  | update now hacts harb next leaves =>
    obtain ⟨hdistinct, hreleased⟩ := h
    refine ⟨harb ▸ hdistinct, fun hs => ?_⟩
    by_cases hfrom : w.rod.sm.curState = limitState d
    · exact .inl (leaves d hfrom hs)
    · refine .inr ?_
      rw [blockers, harb]
      exact (hreleased hfrom).resolve_left (hacts _)

end

/-- Nothing on its way, no rod tick in progress and the rod at no limit: no limit blocks a direction. -/
theorem limit_released {F : Binary32} {cfg : VoltCfg} {dirInvert : Bool} {pos : Position} {ls : List Label}
    {w : World} (run : Run (step F cfg) ReleaseKept (boot dirInvert pos) ls w) (hmq : w.arb.mq = [])
    (hinflight : w.arb.inflight = none) (hacts : w.rod.acts = []) (hext : w.rod.sm.curState ≠ .extLimit)
    (hret : w.rod.sm.curState ≠ .retLimit) :
    .rodLimitFwd ∉ devices (w.arb.axis 0).blockFwd ∧ .rodLimitRev ∉ devices (w.arb.axis 0).blockRev := by
  have hinv : ∀ d, Posted w ∧ Released d w := fun d =>
    run.invariant (I := fun t => Posted t ∧ Released d t) ⟨posted_boot dirInvert pos, released_boot d dirInvert pos⟩
      fun _ _ _ h hok hstep => ⟨h.1.step hstep, h.2.step h.1 hok hstep⟩
  have hfree : ∀ d, w.rod.sm.curState ≠ limitState d → limitDevice d ∉ w.blockers d := by
    intro d hs
    have hreleased := ((hinv d).2.released hs).resolve_left (by simp [hacts])
    simpa [Arbiter.inbox, hmq, hinflight, blockedAfter] using hreleased
  exact ⟨hfree .fwd hext, hfree .rev hret⟩

/-- The motor turns back, the rod leaves its limit, and the arbiter handles what it sent. -/
def turnBackRun : List Label :=
  limitRun ++ [.process 10, .recv, .process 10, .post 11 (runCommand .rev) false, .recv, .process 11, .rodTick (-1) 20] ++
    List.replicate 6 (.rod 20) ++ [.recv, .process 20]

theorem limit_released_turnBack :
    ∃ w, exec (guarded (step ieee defaultVolt) ReleaseKept) (boot false startPosition) turnBackRun = some w ∧
      w.rod.sm.curState = .retracting ∧
      .rodLimitFwd ∉ devices (w.arb.axis 0).blockFwd ∧ .rodLimitRev ∉ devices (w.arb.axis 0).blockRev := by
  obtain ⟨w, hw, hmq, hinflight, hacts, hstate⟩ : ∃ w, exec (guarded (step ieee defaultVolt) ReleaseKept)
      (boot false startPosition) turnBackRun = some w ∧
      w.arb.mq = [] ∧ w.arb.inflight = none ∧ w.rod.acts = [] ∧ w.rod.sm.curState = .retracting :=
    exists_of_any (by decide +kernel)
  exact ⟨w, hw, hstate, limit_released (Run.of_exec hw) hmq hinflight hacts (by simp [hstate]) (by simp [hstate])⟩

/-- The rod is still at its limit and sends another block while the command to turn back is handled; what takes
    the block back overtakes that one. -/
def overtakenRun : List Label :=
  limitRun ++ [.process 10, .recv, .process 10, .post 11 (runCommand .rev) false, .recv, .rodTick 0 20] ++
    List.replicate 5 (.rod 20) ++ [.process 20, .rodTick (-1) 30] ++ List.replicate 6 (.rod 30) ++
    [.recv, .process 30, .recv, .process 30]

theorem block_outlives_limit :
    ∃ w, exec (step ieee defaultVolt) (boot false startPosition) overtakenRun = some w ∧ w.arb.mq = [] ∧
      w.arb.inflight = none ∧ w.rod.acts = [] ∧ w.rod.sm.curState = .retracting ∧
      .rodLimitFwd ∈ devices (w.arb.axis 0).blockFwd :=
  exists_of_any (by decide +kernel)

end RodActuator.Sys.World
