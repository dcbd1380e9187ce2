import RodActuator.Param.Settings

/-! The fill test of the parameters (`Dev_Param_FillTest`). It saves as long as two records fit in the current sector; as
    a save takes one slot, or two when the pointer is still on the newest record, no save of it erases anything. -/

namespace RodActuator.Param
open Nor Transition Binary32

namespace Layout
variable {L : Layout} {fill : Nat → Nat} {σ : Store} {r : List Word}

/-- An attempt with room for its record stays in the sector. -/
theorem saveAttempt_room (ok : Outcome) (hroom : σ.rt.currAddr + L.paramSize ≤ (σ.rt.currSec + 1) * paramSectorSize) :
    (saveAttempt L.toConfig ok σ).2.rt.currSec = σ.rt.currSec ∧
      (saveAttempt L.toConfig ok σ).2.rt.currAddr = σ.rt.currAddr + L.paramSize ∧
      getField32 (saveAttempt L.toConfig ok σ).2.buf L.eraseCntOffset = getField32 σ.buf L.eraseCntOffset := by
  have hopen : openSlot L.toConfig ok σ = (some σ.rt.currAddr, σ) := if_neg (by omega)
  have := L.seq_mod; have := L.eraseCnt_mod; have := L.checksum_mod; have := L.seq_ne_eraseCnt
  have := L.eraseCnt_lt
  have hstamp : getField32 (stamp L.toConfig σ.buf) L.eraseCntOffset = getField32 σ.buf L.eraseCntOffset := by
    rw [stamp, getField32_setField32_ne _ _ (by omega), getField32_setField32_ne _ _ (by omega)]
  unfold saveAttempt
  rw [hopen]
  dsimp only
  split
  · exact ⟨rfl, rfl, hstamp⟩
  · exact ⟨rfl, rfl, hstamp⟩

/-- A save with room for two records writes the first of them or the second. -/
theorem Ready.save_room (h : L.Ready fill σ r) (hwrap : (L.seqOf σ.buf).toNat + 2 < 2 ^ 32)
    (hroom : σ.rt.currAddr + 2 * L.paramSize ≤ (σ.rt.currSec + 1) * paramSectorSize) :
    (paramSave L.toConfig .all σ).2.rt.currSec = σ.rt.currSec ∧
      σ.rt.currAddr + L.paramSize ≤ (paramSave L.toConfig .all σ).2.rt.currAddr ∧
      (paramSave L.toConfig .all σ).2.rt.currAddr ≤ σ.rt.currAddr + 2 * L.paramSize ∧
      getField32 (paramSave L.toConfig .all σ).2.buf L.eraseCntOffset = getField32 σ.buf L.eraseCntOffset ∧
      (L.seqOf (paramSave L.toConfig .all σ).2.buf).toNat ≤ (L.seqOf σ.buf).toNat + 2 := by
  obtain ⟨k, hnewest, haddr⟩ := h.last
  have hbound := hnewest.bound
  rw [← h.seq] at hbound
  obtain ⟨hsec, hnext, hcnt⟩ := L.saveAttempt_room (σ := σ) .all (by omega)
  rcases haddr with haddr | haddr
  · obtain ⟨hfail, hseq, hplaced, hbound, -, haddr'⟩ := L.attempt_over .all hnewest.placed hbound (by omega)
      hnewest.fill_eq haddr (by rw [hnewest.slot, h.seq]) rfl
    obtain ⟨hdone, hseq', -⟩ := L.attempt_behind .all hplaced hbound (by omega)
      (by rw [hsec, hnewest.fill_eq]; exact haddr') rfl fun _ _ _ => rfl
    obtain ⟨hsec', hnext', hcnt'⟩ := L.saveAttempt_room (σ := (saveAttempt L.toConfig .all σ).2) .all
      (by rw [hsec, hnext]; omega)
    rw [paramSave, maxWriteRetry, saveLoop_retry _ hfail, saveLoop_done _ hdone]
    refine ⟨hsec'.trans hsec, ?_, ?_, hcnt'.trans hcnt, ?_⟩
    · rw [hnext', hnext]
      exact Nat.le_add_right ..
    · rw [hnext', hnext]
      omega
    · rw [hseq', hseq]
  · obtain ⟨hdone, hseq, -⟩ := L.attempt_behind .all hnewest.placed hbound (by omega)
      (by rw [hnewest.fill_eq]; exact haddr) rfl fun _ _ _ => rfl
    rw [paramSave, maxWriteRetry, saveLoop_done _ hdone]
    refine ⟨hsec, hnext ▸ Nat.le_refl _, ?_, hcnt, ?_⟩
    · rw [hnext]
      omega
    · rw [hseq]
      omega

/-- The pointer is on a slot of the sector or behind its last one. -/
theorem Ready.cursor (h : L.Ready fill σ r) :
    σ.rt.currSec ∈ sectors L.toConfig ∧ ∃ k ≤ L.slotCount, σ.rt.currAddr = L.slotAddr σ.rt.currSec k := by
  obtain ⟨k, hnewest, -⟩ := h.last
  exact ⟨hnewest.placed.cursor.sec, hnewest.placed.cursor.addr⟩

end Layout

namespace DevParam
variable {p : DevParam} {a : Persistent}

/-- The erase counter of the record. -/
def eraseCnt (p : DevParam) : Word := getField32 p.record paramLayout.eraseCntOffset

/-- The room behind the pointer is what no record fills, and never just two records. -/
theorem Persists.remain (h : Persists p a) :
    p.remain + p.runtime.currAddr = (p.runtime.currSec + 1) * paramSectorSize ∧ p.remain ≤ paramSectorSize ∧
      p.remain ≠ 2 * paramConfig.paramSize := by
  obtain ⟨fill, r, hready, -⟩ := h.stored
  obtain ⟨hsec, k, hk, haddr⟩ := hready.cursor
  have hsec' : p.runtime.currSec ≤ 62 := (mem_sectors_iff.mp hsec).2
  have haddr' : p.runtime.currAddr = p.runtime.currSec * 8192 + k * 84 := haddr
  have hk' : k ≤ 97 := hk
  have hmod : DevParam.remain p = (p.runtime.currSec + 1) * 8192 - p.runtime.currAddr := by
    have hrem : DevParam.remain p = ((p.runtime.currSec + 1) * 8192 + 2 ^ 32 - p.runtime.currAddr) % 2 ^ 32 := rfl
    omega
  have hsize : paramSectorSize = 8192 := rfl
  have hparam : paramConfig.paramSize = 84 := rfl
  rw [hsize, hparam]
  omega

theorem Persists.save_room (h : Persists p a) (below : p.Below) (hroom : p.remain > 2 * paramConfig.paramSize) :
    (p.save .all false).2.remain + paramConfig.paramSize ≤ p.remain ∧
      (p.save .all false).2.runtime.currSec = p.runtime.currSec ∧ (p.save .all false).2.eraseCnt = p.eraseCnt ∧
      (paramLayout.seqOf (p.save .all false).2.record).toNat ≤ (paramLayout.seqOf p.record).toNat + 2 := by
  have hafter := (h.save below false).2
  obtain ⟨hremain, -, -⟩ := h.remain
  obtain ⟨hremain', -, -⟩ := hafter.remain
  have hsave : (p.save .all false).2 = p.sync.call .all .param .save := by
    rw [DevParam.save, h.inited.1]
    rfl
  have hlen : (ParamRecord.putCur p.cur (ParamRecord.putVolt p.volt p.record)).length = p.record.length := by
    simp only [ParamRecord.putCur, ParamRecord.putVolt, setField32_length]
  obtain ⟨-, -, fill, r, hready, -⟩ := h.setRecord hlen fun i hi => ParamRecord.sync_field hi
  have hrecord : p.sync.record = ParamRecord.putCur p.cur (ParamRecord.putVolt p.volt p.record) := setRecord_record _
  have hfield : ∀ off, paramLayout.isField (off / 4) = true → getField32 p.sync.record off = getField32 p.record off := by
    intro off hoff
    rw [hrecord, getField32, getField32, List.getD_eq_getElem?_getD, List.getD_eq_getElem?_getD, ParamRecord.sync_field hoff]
  have hseq : paramLayout.seqOf p.sync.record = paramLayout.seqOf p.record := hfield 4 rfl
  have hruntime : p.sync.runtime = p.runtime := (congrArg Block.Ram.rt (setRecord_param (p := p) _)).trans rfl
  have hwrap : (paramLayout.seqOf p.sync.record).toNat + 2 < 2 ^ 32 := by
    have hb : (paramLayout.seqOf p.record).toNat + 7 < 2 ^ 32 := below
    rw [hseq]
    omega
  obtain ⟨hsec, hlo, -, hcnt, hnext⟩ := Layout.Ready.save_room (σ := p.sync.flash.store .param) hready hwrap (by
    rw [store_rt, hruntime]
    have hsize : paramLayout.paramSize = paramConfig.paramSize := rfl
    omega)
  obtain ⟨hstore, -⟩ := call_self (p := p.sync) .all .param .save
  rw [store_rt, hruntime] at hsec hlo
  rw [store_buf] at hnext hcnt
  have hsec' : (p.save .all false).2.runtime.currSec = p.runtime.currSec := by
    rw [hsave, ← hsec]
    exact congrArg (fun σ : Store => σ.rt.currSec) hstore
  have hlo' : p.runtime.currAddr + paramConfig.paramSize ≤ (p.save .all false).2.runtime.currAddr := by
    rw [hsave]
    exact Nat.le_trans hlo (Nat.le_of_eq (congrArg (fun σ : Store => σ.rt.currAddr) hstore.symm))
  refine ⟨?_, hsec', ?_, ?_⟩
  · rw [hsec'] at hremain'
    omega
  · rw [hsave, eraseCnt, eraseCnt, ← hfield paramLayout.eraseCntOffset rfl]
    exact (congrArg (fun σ : Store => getField32 σ.buf paramLayout.eraseCntOffset) hstore).trans hcnt
  · rw [hsave, ← hseq]
    exact (congrArg (fun σ : Store => (paramLayout.seqOf σ.buf).toNat) hstore).trans_le hnext

/-- The loop ends by itself when it has more turns left than records fit. -/
theorem Persists.fill (h : Persists p a) {n : Nat} (below : (paramLayout.seqOf p.record).toNat + n * maxWriteRetry < 2 ^ 32)
    (hroom : p.remain ≤ 2 * paramConfig.paramSize + n * paramConfig.paramSize) :
    ∃ k, fill .all (fun _ => false) n p = (fun q => (DevParam.save .all false q).2)^[k] p ∧
      (∀ j < k, (DevParam.save .all false ((fun q => (DevParam.save .all false q).2)^[j] p)).1 = .ok) ∧
      (fill .all (fun _ => false) n p).remain + k * paramConfig.paramSize ≤ p.remain ∧
      (fill .all (fun _ => false) n p).remain < 2 * paramConfig.paramSize ∧
      (fill .all (fun _ => false) n p).runtime.currSec = p.runtime.currSec ∧
      (fill .all (fun _ => false) n p).eraseCnt = p.eraseCnt ∧
      Persists (fill .all (fun _ => false) n p) (if k = 0 then a else ⟨a.live, a.live⟩) := by
  induction n generalizing p a with
  | zero =>
    obtain ⟨-, -, hne⟩ := h.remain
    exact ⟨0, rfl, fun j hj => absurd hj (Nat.not_lt_zero j), by simp [DevParam.fill], by rw [DevParam.fill]; omega, rfl,
      rfl, h⟩
  | succ n ih =>
    obtain ⟨-, -, hne⟩ := h.remain
    by_cases hmore : p.remain > 2 * paramConfig.paramSize
    · rw [Nat.succ_mul n] at below hroom
      have hbelow : p.Below := by
        rw [Below]
        omega
      obtain ⟨hok, hsaved⟩ := h.save hbelow false
      obtain ⟨hless, hsec, hcnt, hseq⟩ := h.save_room hbelow hmore
      have hstep : DevParam.fill .all (fun _ => false) (n + 1) p =
          DevParam.fill .all (fun _ => false) n (p.save .all false).2 := by
        rw [DevParam.fill, if_pos hmore]
        exact if_pos hok
      obtain ⟨k, hk, hoks, hroom', hend, hsec', hcnt', hpersists⟩ := ih hsaved (by
        have hretry : maxWriteRetry = 7 := rfl
        omega) (by omega)
      rw [hstep]
      refine ⟨k + 1, ?_, fun j hj => ?_, ?_, hend, hsec'.trans hsec, hcnt'.trans hcnt, ?_⟩
      · rw [hk, Function.iterate_succ_apply]
      · cases j with
        | zero => exact hok
        | succ j =>
          rw [Function.iterate_succ_apply]
          exact hoks j (Nat.lt_of_succ_lt_succ hj)
      · rw [Nat.succ_mul]
        omega
      · rw [if_neg (Nat.succ_ne_zero k)]
        split at hpersists
        · exact hpersists
        · exact hpersists
    · have hstop : DevParam.fill .all (fun _ => false) (n + 1) p = p := by rw [DevParam.fill, if_neg hmore]
      rw [hstop]
      exact ⟨0, rfl, fun j hj => absurd hj (Nat.not_lt_zero j), by omega, by omega, rfl, rfl, h⟩

/-- With the motor at rest, and while the sequence numbers do not wrap, the fill test is a number of saves that all succeed.
    They stay in the sector, which is not erased, and end when at most one more record fits: the 500 turns are never used
    up. -/
theorem fill_test_stays (F : Binary32) {d : Device 32} (erased : paramLayout.Erased d.mem) {acts : List ParamAct}
    (run : Reaches F d acts p) (below : (paramLayout.seqOf p.record).toNat + 500 * maxWriteRetry < 2 ^ 32) :
    ∃ k, p.fillTest .all (fun _ => false) = (fun q => (DevParam.save .all false q).2)^[k] p ∧
      (∀ j < k, (DevParam.save .all false ((fun q => (DevParam.save .all false q).2)^[j] p)).1 = .ok) ∧
      (p.fillTest .all fun _ => false).remain + k * paramConfig.paramSize ≤ p.remain ∧
      (p.fillTest .all fun _ => false).remain < 2 * paramConfig.paramSize ∧
      (p.fillTest .all fun _ => false).runtime.currSec = p.runtime.currSec ∧
      (p.fillTest .all fun _ => false).eraseCnt = p.eraseCnt ∧
      (0 < k → (powerUp .all (p.fillTest .all fun _ => false).flash.dev).Shows
        (acts.foldl (Persistent.step F) .start).live) := by
  have h := persists_run erased run
  have hsize : paramSectorSize ≤ 2 * paramConfig.paramSize + 500 * paramConfig.paramSize := by decide
  obtain ⟨k, hk, hoks, hroom, hend, hsec, hcnt, hpersists⟩ := h.fill below (h.remain.2.1.trans hsize)
  refine ⟨k, hk, hoks, hroom, hend, hsec, hcnt, fun hpos => ?_⟩
  rw [if_neg (Nat.ne_of_gt hpos)] at hpersists
  exact hpersists.powerUp.shows

/-- After the first power-up it saves no more than 97 times. -/
theorem fill_test_stays_first : ∃ k, (powerUp .all ⟨fun _ => erasedWord, 0⟩).fillTest .all (fun _ => false) =
    (fun q => (DevParam.save .all false q).2)^[k] (powerUp .all ⟨fun _ => erasedWord, 0⟩) ∧ k ≤ 97 := by
  obtain ⟨k, hk, -, hroom, -⟩ := fill_test_stays ieee (d := ⟨fun _ => erasedWord, 0⟩) (fun _ _ => rfl) .nil (by decide +kernel)
  have hremain : (powerUp .all ⟨fun _ => erasedWord, 0⟩).remain = 8108 := by decide +kernel
  have hparam : paramConfig.paramSize = 84 := rfl
  rw [hremain, hparam] at hroom
  exact ⟨k, hk, by omega⟩

end DevParam

end RodActuator.Param
