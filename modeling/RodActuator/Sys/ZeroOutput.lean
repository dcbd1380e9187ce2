import RodActuator.Arb.Invariant
import RodActuator.Sys.Limit

/-! Nothing is put out towards a limit once its block has been handled, as long as the axis is not reset at the
    limit, nothing that takes the block back is on its way when the limit is reached, and the block queue has
    room. -/

namespace RodActuator.Sys.World
open Arb Power Rod Binary32 Transition

def AtLimit (d : Dir) (w : World) : Prop := w.rod.sm.curState = limitState d

instance (d : Dir) (w : World) : Decidable (AtLimit d w) := inferInstanceAs (Decidable (_ = _))

/-- No one else sends under the devices of the limits; the axis is not reset while a limit blocks it; when the
    rod comes to a limit, nothing that takes its block back is on its way; and the block finds room in its
    queue. -/
def LimitKept (F : Binary32) (w : World) : Label → Prop
  | .post _ msg _ => ¬FromLimit msg
  | .sm _ => ∀ d, AtLimit d w → limitDevice d ∈ w.blockers d →
      w.sm.effects.head? ≠ some (.arbInit 0)
  | .rod _ => ∀ d, ¬AtLimit d w → w.nextRodState F = limitState d →
      ∀ msg ∈ w.arb.inbox, ¬Unblocks d msg
  | .process _ => ∀ d, AtLimit d w → (∃ msg ∈ w.arb.inflight, Blocks d msg) →
      limitDevice d ∈ w.blockers d ∨ (w.blockers d).length < maxCmdQueueSize
  | _ => True

/-- At a limit nothing on its way takes the block back. -/
structure Kept (d : Dir) (w : World) : Prop where
  posted : Posted w
  typed : Typed (w.arb.axis 0)
  inbox : AtLimit d w → ∀ msg ∈ w.arb.inbox, ¬Unblocks d msg

theorem kept_boot (d : Dir) (dirInvert : Bool) (pos : Position) : Kept d (boot dirInvert pos) where
  posted := posted_boot dirInvert pos
  typed := typed_init
  inbox _ := by simp [boot, Arbiter.boot, Arbiter.inbox]

section
variable {F : Binary32} {cfg : VoltCfg} {w w' : World} {l : Label} {d : Dir}

theorem LimitKept.post (h : LimitKept F w l) : ∀ now msg urgent, l = .post now msg urgent → ¬FromLimit msg := by
  rintro now msg urgent rfl
  exact h

theorem inbox_send_not_unblocks {msg : Msg} (h : ∀ m ∈ w.arb.inbox, ¬Unblocks d m) (hmsg : ¬Unblocks d msg)
    (now : BitVec 32) (urgent : Bool) : ∀ m ∈ (w.arb.send now msg urgent).inbox, ¬Unblocks d m := by
  intro m hm
  rcases w.arb.inbox_send_cases now msg urgent with hlost | ⟨before, after, hinbox, hsent⟩
  · exact h m (hlost ▸ hm)
  · rw [hinbox] at h
    rw [hsent] at hm
    rcases List.mem_append.mp hm with hm | hm
    · exact h m (List.mem_append_left _ hm)
    · rcases List.mem_cons.mp hm with rfl | hm
      · exact hmsg
      · exact h m (List.mem_append_right _ hm)

theorem sends_not_unblocks {msg : Msg} {s : RodState} (h : RodStateCtx.Sends s msg) (hs : s = limitState d) :
    ¬Unblocks d msg := by
  rintro ⟨-, hdev, hcmd⟩
  cases h with
  | block d' => cases d <;> cases d' <;> rcases hcmd with hcmd | hcmd <;> cases hcmd
  | unblock d' hne => exact hne (limitDevice_injective hdev ▸ hs)
  | clearAllow d' => cases d <;> cases d' <;> rcases hcmd with hcmd | hcmd <;> cases hcmd

theorem Typed.process {a a' : Arbiter} {now : BitVec 32} (h : Typed (a.axis 0)) (hprocess : a.process now = some a') :
    Typed (a'.axis 0) := by
  obtain ⟨msg, -, rfl⟩ := Arbiter.process_eq_some hprocess
  by_cases haxis : 0 = msg.axisId
  · simp only [← haxis, Function.update_self]
    exact h.handle now msg
  · simpa [haxis] using h

theorem Kept.typed_step (h : Kept d w) (hdeal : Deal F w w' l) : Typed (w'.arb.axis 0) := by
  cases hdeal with
  | quiet harb =>
    intro d r hr
    rw [harb.allow] at hr
    exact h.typed d r hr
  | other _ _ _ harb | limit _ _ _ harb =>
    rw [harb, Arbiter.send_axis]
    exact h.typed
  | recv harb =>
    rw [(Arbiter.recv_kept harb).1]
    exact h.typed
  | process harb => exact Typed.process h.typed harb
  | reset _ i _ harb =>
    rw [harb]
    by_cases hi : 0 = i
    · subst hi
      simp only [Arbiter.reset, Function.update_self]
      exact typed_init
    · simpa [Arbiter.reset, hi] using h.typed
  | update _ _ harb =>
    rw [harb]
    exact h.typed

theorem Kept.inbox_step (h : Kept d w) (hok : LimitKept F w l) (hdeal : Deal F w w' l)
    (hs : w'.rod.sm.curState = limitState d) : ∀ msg ∈ w'.arb.inbox, ¬Unblocks d msg := by
  cases hdeal with
  | quiet harb hrod =>
    rw [hrod] at hs
    rw [Arbiter.inbox, harb.inflight, harb.mq]
    exact h.inbox hs
  | other now urgent hmsg harb hrod =>
    rw [hrod] at hs
    rw [harb]
    exact inbox_send_not_unblocks (h.inbox hs) (fun hu => deviceId_ne hmsg d hu.2.1) now urgent
  | recv harb hrod =>
    rw [hrod] at hs
    rw [Arbiter.inbox_recv harb]
    exact h.inbox hs
  | process harb hrod =>
    rw [hrod] at hs
    obtain ⟨msg, hinflight, heq⟩ := Arbiter.process_eq_some harb
    intro m hm
    refine h.inbox hs m ?_
    rw [heq] at hm
    simp only [Arbiter.inbox, Option.toList_none, List.nil_append] at hm
    simp [Arbiter.inbox, hm]
  | reset _ i _ harb hrod =>
    rw [hrod] at hs
    rw [harb]
    exact h.inbox hs
  | limit now hacts hmsg harb hrod =>
    rw [hrod] at hs
    rw [harb]
    exact inbox_send_not_unblocks (h.inbox hs) (sends_not_unblocks hmsg hs) now true
  | update now hacts harb next =>
    rw [harb]
    by_cases hfrom : AtLimit d w
    · exact h.inbox hfrom
    · exact hok d hfrom (next.symm.trans hs)

theorem Kept.step (h : Kept d w) (hok : LimitKept F w l) (hstep : World.step F cfg w l = some w') : Kept d w' := by
  have hdeal := step_deal h.posted hok.post hstep
  exact ⟨h.posted.step hstep, h.typed_step hdeal, h.inbox_step hok hdeal⟩

theorem handle_blocked {arb : ArbData} {msg : Msg} (htyped : Typed arb) (now : BitVec 32) (hmsg : msg.axisId = 0)
    (hunblock : ¬Unblocks d msg)
    (hblock : limitDevice d ∈ devices (arb.block d) ∨ Blocks d msg ∧ (arb.block d).length < maxCmdQueueSize) :
    limitDevice d ∈ devices ((handle now arb msg).1.block d) ∧ ∀ duty, (handle now arb msg).2 ≠ d.output duty := by
  have hmem : limitDevice d ∈ devices ((processMessage arb msg).block d) := by
    rw [processMessage_block]
    split_ifs with hcmd hun
    · unfold cmdListSetBlock
      split_ifs with hany hfull
      · rcases hblock with hold | ⟨hb, -⟩
        · exact hold
        · simpa [devices, hb.2.1, Msg.blockRecord] using hany
      · rcases hblock with hold | ⟨-, hroom⟩
        · exact hold
        · exact absurd hroom (Nat.not_lt.mpr hfull)
      · rcases hblock with hold | ⟨hb, -⟩
        · simp only [devices, List.map_append, List.mem_append] at hold ⊢
          exact .inl hold
        · simp [devices, Msg.blockRecord, hb.2.1]
    · have hne : msg.deviceId ≠ limitDevice d := fun hdev => hunblock ⟨hmsg, hdev, hun⟩
      have hold : limitDevice d ∈ devices (arb.block d) := hblock.resolve_right fun hb => hne hb.1.2.1
      obtain ⟨r, hr, hdev⟩ := List.mem_map.mp hold
      refine List.mem_map.mpr ⟨r, ?_, hdev⟩
      exact (List.mem_eraseP_of_neg (by simp [hdev, Ne.symm hne])).mpr hr
    · exact hblock.resolve_right fun hb => hcmd hb.1.2.2
  obtain ⟨hallow, hblock', -⟩ := handle_kept now arb msg
  have htyped' : Typed (processMessage arb msg) := by
    intro d' r hr
    rw [← hallow] at hr
    exact htyped.handle now msg d' r hr
  refine ⟨?_, output_blocked htyped' now ?_⟩
  · rw [hblock']
    exact hmem
  · intro hnil
    rw [hnil] at hmem
    cases hmem

def Spared (d : Dir) (a a' : Arbiter) : Prop :=
  a'.outputs = a.outputs ∨ ∃ o, a'.outputs = o :: a.outputs ∧ ∀ duty, o ≠ (0, d.output duty)

theorem Kept.process (h : Kept d w) (hs : AtLimit d w) {now : BitVec 32} (harb : w.arb.process now = some w'.arb)
    (hblock : limitDevice d ∈ w.blockers d ∨
      (∃ msg ∈ w.arb.inflight, Blocks d msg) ∧ (w.blockers d).length < maxCmdQueueSize) :
    limitDevice d ∈ w'.blockers d ∧ Spared d w.arb w'.arb := by
  obtain ⟨msg, hinflight, heq⟩ := Arbiter.process_eq_some harb
  have hunblock : ¬Unblocks d msg := h.inbox hs msg (by simp [Arbiter.inbox, hinflight])
  have hthis : limitDevice d ∈ devices ((w.arb.axis 0).block d) ∨
      Blocks d msg ∧ ((w.arb.axis 0).block d).length < maxCmdQueueSize := by
    refine hblock.imp id ?_
    rintro ⟨⟨msg', hmsg', hb⟩, hroom⟩
    obtain rfl : msg' = msg := Option.some.inj (hmsg'.symm.trans hinflight)
    exact ⟨hb, by simpa [blockers, devices] using hroom⟩
  by_cases haxis : msg.axisId = 0
  · obtain ⟨hmem, hout⟩ := handle_blocked h.typed now haxis hunblock hthis
    refine ⟨?_, .inr ⟨_, by rw [heq], fun duty ho => ?_⟩⟩
    · rw [blockers, heq]
      simpa [haxis] using hmem
    · rw [haxis] at ho
      exact hout duty (Prod.mk.inj ho).2
  · refine ⟨?_, .inr ⟨_, by rw [heq], fun duty ho => haxis (Prod.mk.inj ho).1⟩⟩
    rw [blockers, heq]
    simpa [Ne.symm haxis] using hthis.resolve_right fun hb => haxis hb.1.1

theorem Kept.blocked_step (h : Kept d w) (hs : AtLimit d w) (hblock : limitDevice d ∈ w.blockers d)
    (hok : LimitKept F w l) (hstep : World.step F cfg w l = some w') :
    limitDevice d ∈ w'.blockers d ∧ Spared d w.arb w'.arb := by
  cases step_deal h.posted hok.post hstep with
  | quiet harb =>
    refine ⟨?_, .inl harb.outputs⟩
    rw [blockers, harb.block]
    exact hblock
  | other _ _ _ harb | limit _ _ _ harb =>
    refine ⟨?_, .inl (by rw [harb, Arbiter.send_outputs])⟩
    rw [blockers, harb, Arbiter.send_axis]
    exact hblock
  | recv harb =>
    obtain ⟨haxis, houtputs, -⟩ := Arbiter.recv_kept harb
    refine ⟨?_, .inl houtputs⟩
    rw [blockers, haxis]
    exact hblock
  | process harb => exact h.process hs harb (.inl hblock)
  | reset _ i heff harb =>
    have hi : 0 ≠ i := by
      rintro rfl
      exact hok d hs hblock heff
    have haxis : (w.arb.reset i).axis 0 = w.arb.axis 0 := by simp [Arbiter.reset, hi]
    refine ⟨?_, .inl (by rw [harb]; rfl)⟩
    rw [blockers, harb, haxis]
    exact hblock
  | update _ _ harb =>
    refine ⟨?_, .inl (by rw [harb])⟩
    rw [blockers, harb]
    exact hblock

end

/-- Once the block of a limit has been handled with the rod at the limit, no output operation runs the axis
    towards it until the rod has left. -/
theorem zero_output_at_limit {F : Binary32} {cfg : VoltCfg} {dirInvert : Bool} {pos : Position} (d : Dir)
    {ls ls' : List Label} {w w₁ w₂ : World} {now : BitVec 32} {msg : Msg}
    (run : Run (step F cfg) (LimitKept F) (boot dirInvert pos) ls w) (limit : AtLimit d w)
    (inflight : w.arb.inflight = some msg) (block : Blocks d msg) (ok : LimitKept F w (.process now))
    (handled : step F cfg w (.process now) = some w₁)
    (stay : Run (step F cfg) (fun t l => LimitKept F t l ∧ AtLimit d t) w₁ ls' w₂) :
    ∃ outs, w₂.arb.outputs = outs ++ w.arb.outputs ∧ ∀ o ∈ outs, ∀ duty, o ≠ (0, d.output duty) := by
  have hkept : Kept d w := run.invariant (kept_boot d dirInvert pos) fun _ _ _ h hok hstep => h.step hok hstep
  have hfirst : limitDevice d ∈ w₁.blockers d ∧ Spared d w.arb w₁.arb := by
    obtain ⟨arb, harb, rfl⟩ := Option.map_eq_some_iff.mp handled
    have hroom := ok d limit ⟨msg, inflight, block⟩
    have hprocess := @Kept.process w { w with arb := arb } d hkept limit now harb
    exact hprocess (hroom.imp_right fun hlen => ⟨⟨msg, inflight, block⟩, hlen⟩)
  have hspared : ∀ {a a' b : Arbiter}, Spared d a a' →
      (∃ outs, a.outputs = outs ++ b.outputs ∧ ∀ o ∈ outs, ∀ duty, o ≠ (0, d.output duty)) →
      ∃ outs, a'.outputs = outs ++ b.outputs ∧ ∀ o ∈ outs, ∀ duty, o ≠ (0, d.output duty) := by
    rintro a a' b (hsame | ⟨o, hcons, ho⟩) ⟨outs, houts, hall⟩
    · exact ⟨outs, hsame.trans houts, hall⟩
    · exact ⟨o :: outs, by rw [hcons, houts]; rfl, List.forall_mem_cons.mpr ⟨ho, hall⟩⟩
  have hinv := stay.invariant (I := fun t => Kept d t ∧ limitDevice d ∈ t.blockers d ∧
      ∃ outs, t.arb.outputs = outs ++ w.arb.outputs ∧ ∀ o ∈ outs, ∀ duty, o ≠ (0, d.output duty))
    ⟨hkept.step ok handled, hfirst.1, hspared hfirst.2 ⟨[], rfl, by simp⟩⟩
    (by
      rintro t l u ⟨hk, hblock, houts⟩ ⟨hok, hs⟩ hstep
      obtain ⟨hblock', hout⟩ := hk.blocked_step hs hblock hok hstep
      exact ⟨hk.step hok hstep, hblock', hspared hout houts⟩)
  exact hinv.2.2

instance (F : Binary32) (w : World) (l : Label) : Decidable (LimitKept F w l) :=
  match l with
  | .post _ msg _ => inferInstanceAs (Decidable (¬FromLimit msg))
  | .sm _ => inferInstanceAs (Decidable (∀ d, AtLimit d w → limitDevice d ∈ w.blockers d →
      w.sm.effects.head? ≠ some (.arbInit 0)))
  | .rod _ => inferInstanceAs (Decidable (∀ d, ¬AtLimit d w → w.nextRodState F = limitState d →
      ∀ msg ∈ w.arb.inbox, ¬Unblocks d msg))
  | .process _ => inferInstanceAs (Decidable (∀ d, AtLimit d w → (∃ msg ∈ w.arb.inflight, Blocks d msg) →
      limitDevice d ∈ w.blockers d ∨ (w.blockers d).length < maxCmdQueueSize))
  | .event _ | .dispatch | .recv | .tick _ | .scan _ | .polOut _ | .rodTick .. => instDecidableTrue

def limitWorld : Option World :=
  exec (guarded (step ieee defaultVolt) (LimitKept ieee)) (boot false startPosition) limitRun

/-- After the block, the run command is sent again and handled. -/
def refusedRun : List Label := [.recv, .process 10, .post 11 (runCommand .fwd) false, .recv, .process 11]

def refusedWorld (w₁ : World) : Option World :=
  exec (guarded (step ieee defaultVolt) fun t l => LimitKept ieee t l ∧ AtLimit .fwd t) w₁ refusedRun

theorem zero_output_at_limit_refused :
    ∃ w w₁ w₂, limitWorld = some w ∧ step ieee defaultVolt w (.process 10) = some w₁ ∧
      refusedWorld w₁ = some w₂ ∧ w₂.arb.outputs.length = w.arb.outputs.length + 3 ∧
      ∃ outs, w₂.arb.outputs = outs ++ w.arb.outputs ∧ ∀ o ∈ outs, ∀ duty, o ≠ (0, .fwd duty) := by
  have hsome : (limitWorld.bind fun w => (step ieee defaultVolt w (.process 10)).bind refusedWorld).isSome = true := by
    decide +kernel
  obtain ⟨w₂, hw₂⟩ := Option.isSome_iff_exists.mp hsome
  obtain ⟨w, hw, hrest⟩ := Option.bind_eq_some_iff.mp hw₂
  obtain ⟨w₁, hstep, hstay⟩ := Option.bind_eq_some_iff.mp hrest
  have hfacts : ∀ w ∈ limitWorld, AtLimit .fwd w ∧ (∃ msg ∈ w.arb.inflight, Blocks .fwd msg) ∧
      LimitKept ieee w (.process 10) ∧ ∀ w₁ ∈ step ieee defaultVolt w (.process 10), ∀ w₂ ∈ refusedWorld w₁,
        w₂.arb.outputs.length = w.arb.outputs.length + 3 := by decide +kernel
  obtain ⟨hlimit, ⟨msg, hinflight, hblock⟩, hok, hlen⟩ := hfacts w hw
  exact ⟨w, w₁, w₂, hw, hstep, hstay, hlen w₁ hstep w₂ hstay,
    zero_output_at_limit .fwd (Run.of_exec hw) hlimit hinflight hblock hok hstep (Run.of_exec hstay)⟩

/-- At the limit an over-voltage leads to FAULT and 501 ms at 24 V lead back through IDLE, which resets the axis,
    to RUN; then the run command is sent again and handled. -/
def resetRun : List Label :=
  [.recv, .process 10, .tick 0x42200000#32, .dispatch] ++ List.replicate 7 (.sm 11) ++
    [.recv, .process 11, .recv, .process 11, .recv, .process 11, .recv, .process 11] ++
    List.replicate 501 (.tick 0x41B66666#32) ++ [.dispatch] ++ List.replicate 7 (.sm 12) ++
    [.post 13 (runCommand .fwd) false, .recv, .process 13]

/-- The same with no other condition than that the rod stays at its limit. -/
def resetWorld (w₁ : World) : Option World :=
  exec (guarded (step ieee defaultVolt) fun t _ => AtLimit .fwd t) w₁ resetRun

theorem output_after_reset :
    ∃ w w₁ w₂ outs, limitWorld = some w ∧ AtLimit .fwd w ∧ (∃ msg ∈ w.arb.inflight, Blocks .fwd msg) ∧
      step ieee defaultVolt w (.process 10) = some w₁ ∧ resetWorld w₁ = some w₂ ∧ AtLimit .fwd w₂ ∧
      w₂.arb.outputs = (0, .fwd 98) :: outs ++ w₁.arb.outputs := by
  have hsome : (limitWorld.bind fun w => (step ieee defaultVolt w (.process 10)).bind resetWorld).isSome = true := by
    decide +kernel
  obtain ⟨w₂, hw₂⟩ := Option.isSome_iff_exists.mp hsome
  obtain ⟨w, hw, hrest⟩ := Option.bind_eq_some_iff.mp hw₂
  obtain ⟨w₁, hstep, hreset⟩ := Option.bind_eq_some_iff.mp hrest
  have hfacts : ∀ w ∈ limitWorld, AtLimit .fwd w ∧ (∃ msg ∈ w.arb.inflight, Blocks .fwd msg) ∧
      ∀ w₁ ∈ step ieee defaultVolt w (.process 10), ∀ w₂ ∈ resetWorld w₁, AtLimit .fwd w₂ ∧
        w₂.arb.outputs = (0, .fwd 98) :: [(0, .stop), (1, .stop), (0, .stop), (1, .stop), (0, .stop)] ++
          w₁.arb.outputs := by decide +kernel
  obtain ⟨hlimit, hblock, hrest⟩ := hfacts w hw
  obtain ⟨hlimit₂, houts⟩ := hrest w₁ hstep w₂ hreset
  exact ⟨w, w₁, w₂, _, hw, hlimit, hblock, hstep, hreset, hlimit₂, houts⟩

end RodActuator.Sys.World
