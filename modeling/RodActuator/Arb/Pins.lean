import RodActuator.Lib.Transition
import RodActuator.Arb.Arbiter
import RodActuator.Arb.Invariant

/-! The pins and the direction of the axis 0. Handling a message of the axis writes the pins and its direction
    together; a reset writes only the direction, and a message of the other axis only the pins. -/

namespace RodActuator.Arb
open Transition

/-! ### The direction of the pins -/

/-- The direction last written, as the arbiter means it. -/
def MotorGpio.written (g : MotorGpio) : Option Dir :=
  g.prevOutDir.map fun d => if g.dirInvert then d.opposite else d

@[simp] theorem MotorGpio.written_op (g : MotorGpio) (o : Output) : (g.op o).written = o.dir := by
  cases o <;> cases hinvert : g.dirInvert <;>
    simp [MotorGpio.op, MotorGpio.writePair, MotorGpio.written, hinvert, Output.dir, Dir.opposite]

/-! ### A motor that stands still -/

/-- Nothing asks the axis to run: it is disabled, or it has no request and the message brings none. -/
def Quiet (arb : ArbData) (msg : Msg) : Prop :=
  arb.enable = false ∨ ∀ d : Dir, arb.allow d = [] ∧ msg.cmdType ≠ d.run

instance (arb : ArbData) (msg : Msg) : Decidable (Quiet arb msg) := inferInstanceAs (Decidable (_ ∨ _))

theorem decision_unasked (now : BitVec 32) {arb : ArbData} (h : ∀ d, represent (arb.allow d) (arb.block d) = none) :
    (decision now arb).2 = .stop := by
  by_cases henable : arb.enable = true
  · have hfwd : represent arb.allowFwd arb.blockFwd = none := h .fwd
    have hrev : represent arb.allowRev arb.blockRev = none := h .rev
    have hout := congrArg Prod.fst (decision_enabled now henable)
    dsimp only at hout
    rw [hout, hfwd, hrev]
    rfl
  · exact congrArg Prod.fst (decision_disabled now (Bool.eq_false_of_not_eq_true henable))

theorem decision_empty (now : BitVec 32) {arb : ArbData} (h : ∀ d, arb.allow d = []) : (decision now arb).2 = .stop :=
  decision_unasked now fun d => by simp [represent, h d]

theorem process_allow_nil {arb : ArbData} {msg : Msg} {d : Dir} (h : arb.allow d = []) (hrun : msg.cmdType ≠ d.run) :
    (processMessage arb msg).allow d = [] := by
  have hturned : arb.turned d msg = [] := List.sublist_nil.mp (h ▸ turned_sublist d arb msg)
  rw [List.eq_nil_iff_forall_not_mem]
  intro r hr
  rcases (processMessage_requests d arb msg).mem hr with hold | ⟨hacc, -⟩
  · rw [hturned] at hold
    cases hold
  · exact hrun hacc.1

theorem Quiet.handle {arb : ArbData} {msg : Msg} (h : Quiet arb msg) (now : BitVec 32) :
    (Arb.handle now arb msg).2 = .stop := by
  rcases h with h | h
  · exact handle_disabled now msg h
  · exact decision_empty now fun d => process_allow_nil (h d).1 (h d).2

/-! ### Steps -/

namespace Arbiter

inductive Label where
  | send (now : BitVec 32) (msg : Msg) (urgent : Bool)
  | setEnable (axisId : Fin arbMaxAxisNum) (enable : Bool)
  | reset (axisId : Fin arbMaxAxisNum)
  | recv
  | process (now : BitVec 32)
  deriving DecidableEq, Repr

def step (a : Arbiter) : Label → Option Arbiter
  | .send now msg urgent => some (a.send now msg urgent)
  | .setEnable i enable => some (a.setEnable i enable)
  | .reset i => some (a.reset i)
  | .recv => a.recv
  | .process now => a.process now

/-- The pins show the direction of the axis 0. -/
def PinsAgree (a : Arbiter) : Prop := a.motor.written = (a.axis 0).activeDir

/-- Some message of the axis 0 is still to be handled. -/
def Waits (msgs : List Msg) : Prop := ∃ msg ∈ msgs, msg.axisId = 0

/-- The axis 0 is reset only where it is not driven, and a message of the other axis is handled only where neither
    axis is driven, unless a message of the axis 0 follows. -/
def PinsKept (a : Arbiter) : Label → Prop
  | .reset i => i = 0 → (a.axis 0).activeDir = none ∨ Waits a.inbox
  | .process _ => ∀ msg ∈ a.inflight, msg.axisId ≠ 0 →
      (a.axis 0).activeDir = none ∧ Quiet (a.axis msg.axisId) msg ∨ Waits a.mq
  | _ => True

instance (msgs : List Msg) : Decidable (Waits msgs) := inferInstanceAs (Decidable (∃ msg ∈ msgs, _))

instance (a : Arbiter) (l : Label) : Decidable (PinsKept a l) := by
  cases l <;> unfold PinsKept <;> infer_instance

theorem waits_send {a : Arbiter} (h : Waits a.inbox) (now : BitVec 32) (msg : Msg) (urgent : Bool) :
    Waits (a.send now msg urgent).inbox := by
  obtain ⟨m, hm, haxis⟩ := h
  rcases a.inbox_send_cases now msg urgent with hlost | ⟨before, after, hinbox, hsent⟩
  · exact ⟨m, hlost ▸ hm, haxis⟩
  · refine ⟨m, ?_, haxis⟩
    rw [hinbox] at hm
    rw [hsent]
    rcases List.mem_append.mp hm with hm | hm
    · exact List.mem_append_left _ hm
    · exact List.mem_append_right _ (List.mem_cons_of_mem _ hm)

theorem pins_boot (dirInvert : Bool) : PinsAgree (boot dirInvert) := rfl

theorem PinsAgree.congr {a a' : Arbiter} (h : PinsAgree a) (hmotor : a'.motor = a.motor)
    (hdir : (a'.axis 0).activeDir = (a.axis 0).activeDir) : PinsAgree a' := by
  unfold PinsAgree at h ⊢
  rw [hmotor, hdir, h]

theorem setEnable_activeDir (a : Arbiter) (i j : Fin arbMaxAxisNum) (enable : Bool) :
    ((a.setEnable i enable).axis j).activeDir = (a.axis j).activeDir := by
  by_cases hj : j = i
  · subst hj
    simp [setEnable]
  · simp [setEnable, hj]

/-- A step keeps the agreement, or a message of the axis 0 will restore it. -/
theorem pins_step {a a' : Arbiter} {l : Label} (h : PinsAgree a ∨ Waits a.inbox) (hok : PinsKept a l)
    (hstep : step a l = some a') : PinsAgree a' ∨ Waits a'.inbox := by
  cases l with
  | send now msg urgent =>
    cases hstep
    rcases h with hagree | hwaits
    · exact .inl (hagree.congr (send_motor ..) (by rw [send_axis]))
    · exact .inr (waits_send hwaits now msg urgent)
  | setEnable i enable =>
    cases hstep
    exact h.imp_left fun hagree => hagree.congr rfl (setEnable_activeDir a i 0 enable)
  | reset i =>
    cases hstep
    by_cases hi : i = 0
    · subst hi
      rcases hok rfl with hnone | hwaits
      · refine h.imp_left fun hagree => hagree.congr rfl ?_
        rw [hnone]
        simp [reset, ArbData.init]
      · exact .inr hwaits
    · exact h.imp_left fun hagree => hagree.congr rfl (by simp [reset, Ne.symm hi])
  | recv =>
    obtain ⟨haxis, -, hmotor⟩ := recv_kept hstep
    rcases h with hagree | hwaits
    · exact .inl (hagree.congr hmotor (by rw [haxis]))
    · exact .inr (by rwa [inbox_recv hstep])
  | process now =>
    obtain ⟨msg, hinflight, rfl⟩ := process_eq_some hstep
    by_cases haxis : msg.axisId = 0
    · left
      simp only [PinsAgree, MotorGpio.written_op, haxis, Function.update_self]
      exact (decision_activeDir now _).symm
    · rcases hok msg hinflight haxis with ⟨hnone, hquiet⟩ | hwaits
      · left
        simp only [PinsAgree, MotorGpio.written_op, hquiet.handle now, Function.update_of_ne (Ne.symm haxis), hnone]
        rfl
      · exact .inr hwaits

/-- In every run that keeps to the condition, the pins show the direction of the axis 0 whenever nothing is to be
    handled. -/
theorem pins_agree {dirInvert : Bool} {ls : List Label} {a : Arbiter} (run : Run step PinsKept (boot dirInvert) ls a)
    (hempty : a.inbox = []) : PinsAgree a := by
  have hinv : PinsAgree a ∨ Waits a.inbox :=
    run.invariant (I := fun a => PinsAgree a ∨ Waits a.inbox) (.inl (pins_boot dirInvert))
      fun _ _ _ h hok hstep => pins_step h hok hstep
  refine hinv.resolve_right ?_
  rintro ⟨msg, hmem, -⟩
  rw [hempty] at hmem
  cases hmem

/-- The forward request of the power, and what the entry of FAULT sends to both axes. -/
def faultLabels : List Label :=
  [.send 1 ⟨0, .powerPos, prioPower, .runFwd, 100, 0⟩ false, .recv, .process 1, .setEnable 0 false,
    .send 2 ⟨0, .emergency, prioEmergency, .emergencyStop, 0, 0⟩ true, .setEnable 1 false,
    .send 2 ⟨1, .emergency, prioEmergency, .emergencyStop, 0, 0⟩ true, .recv, .process 3, .recv, .process 3]

theorem pins_agree_fault :
    ∃ a, exec (guarded step PinsKept) (boot true) faultLabels = some a ∧ a.inbox = [] ∧ PinsAgree a := by
  obtain ⟨a, hexec, hempty⟩ : ∃ a, exec (guarded step PinsKept) (boot true) faultLabels = some a ∧ a.inbox = [] :=
    exists_of_any (by decide +kernel)
  exact ⟨a, hexec, hempty, pins_agree (Run.of_exec hexec) hempty⟩

/-- The axes are reset while the axis 0 drives forwards: its direction is gone, and the pins go on driving. -/
theorem pins_outlive_reset :
    ∃ a, exec step (boot false) [.send 1 ⟨0, .powerPos, prioPower, .runFwd, 100, 0⟩ false, .recv, .process 1, .reset 0,
        .reset 1] = some a ∧
      a.inbox = [] ∧ a.motor.written = some .fwd ∧ (a.axis 0).activeDir = none ∧ ¬PinsAgree a := by
  refine ⟨_, rfl, by decide, by decide, by decide, ?_⟩
  unfold PinsAgree
  decide

end Arbiter

end RodActuator.Arb
