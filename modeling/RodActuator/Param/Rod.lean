import RodActuator.Param.Origin
import RodActuator.Rod.Position

/-! The saved rod position (`Dev/dev_param/dev_param_rod.c`). An under-voltage edge requests a save, the
    rod task polls it and saves the position if it is calibrated; at power-up the position is restored
    from a record with a sequence number above 1. -/

namespace RodActuator.Param
open Nor Rod Binary32

/-- What `Dev_Param_RodApply` reads of `g_param_record`. -/
structure RodConfig where
  calibWin : CalibWindow
  stopMargin : Single
  strokeMm : Single
  reductionRatio : Single
  hallPulses : Single
  screwLead : Single
  deriving DecidableEq, Repr

/-- The variables of the module, with the flash. -/
structure RodParam where
  store : Store
  inited : Bool
  defaultsWritten : Bool
  posPtr : Bool
  savePending : Bool
  saveWait : Nat

def rodSaveWaitTicks : Nat := 2

def rodPositionOffset : Nat := 12

namespace RodParam

def reset (d : Device 32) : RodParam := ⟨rodLayout.fresh d, false, false, false, false, 0⟩

def rodInit (ok : Outcome) (p : RodParam) : Res × RodParam :=
  if p.inited then (.ok, p)
  else
    let i := rodLayout.init rodDefaults ok p.store
    (i.res, { p with store := i.store, defaultsWritten := i.defaults, inited := true })

def rodApply (F : Binary32) (g : RodConfig) (p : RodParam) (pos : Position) : RodParam × Position :=
  if !p.inited then (p, pos)
  else
    let p := { p with posPtr := true }
    let pos := Position.setParams F g.strokeMm g.reductionRatio g.hallPulses g.screwLead
      { pos with calibWin := g.calibWin, stopMarginMm := g.stopMargin }
    if p.defaultsWritten then (p, pos)
    else if (rodLayout.seqOf p.store.buf).toNat ≤ 1 then (p, pos)
    else (p, { pos with positionMm := getField32 p.store.buf rodPositionOffset, calibState := .calibrated })

def rodSaveRequest (p : RodParam) : RodParam :=
  if p.savePending then p else { p with savePending := true, saveWait := 0 }

/-- The store with which `Dev_Param_RodSave` calls `Param_Save`. -/
def saveStore (mm : Single) (p : RodParam) : Store :=
  { p.store with buf := setField32 p.store.buf rodPositionOffset mm }

def rodSave (ok : Outcome) (mm : Single) (p : RodParam) : Res × RodParam :=
  if !p.inited then (.errNotRdy, p)
  else
    let r := paramSave rodLayout.toConfig ok (p.saveStore mm)
    (r.1, { p with store := r.2 })

def rodPollSave (ok : Outcome) (pos : Position) (p : RodParam) : RodParam :=
  if !p.savePending || !p.inited then p
  else
    let p := { p with saveWait := p.saveWait + 1 }
    if p.saveWait < rodSaveWaitTicks then p
    else
      let p := { p with savePending := false, saveWait := 0 }
      if !p.posPtr then p
      else if !pos.isCalibrated then p
      else (rodSave ok pos.positionMm p).2

def rodEraseAll (ok : Outcome) (p : RodParam) : RodParam :=
  let i := rodLayout.eraseAll rodDefaults ok p.store
  { p with store := i.store, defaultsWritten := i.defaults }

/-- Whether a poll saves the position. -/
def pollSaves (pos : Position) (p : RodParam) : Bool :=
  p.savePending && p.inited && decide (rodSaveWaitTicks ≤ p.saveWait + 1) && p.posPtr && pos.isCalibrated

end RodParam

/-- The rod position and the module that saves it. -/
structure Board where
  param : RodParam
  pos : Position

namespace Board
open RodParam

/-- Power-up: `Dev_Param_RodInit`, then `App_Model_Init` with the default mechanical parameters 25.0,
    30.54, 12.0 and 3.0, and `Dev_Param_RodApply` at its end. -/
def powerUp (F : Binary32) (g : RodConfig) (ok : Outcome) (b : Board) : Board :=
  let p := (rodInit ok (RodParam.reset b.param.store.dev)).2
  let pos := Position.setParams F 0x41C80000#32 0x41F451EC#32 0x41400000#32 0x40400000#32 Position.init
  let r := rodApply F g p pos
  ⟨r.1, r.2⟩

/-- Who wrote a record: the default save of `Param_Init`, or a poll with its position. -/
inductive Source where
  | default
  | poll (calib : CalibState) (mm : Single)
  deriving DecidableEq, Repr

def pollTrace (ok : Outcome) (b : Board) : List Store :=
  if b.param.pollSaves b.pos then saveTrace rodLayout.toConfig ok maxWriteRetry (b.param.saveStore b.pos.positionMm)
  else []

def defaultSaves (ok : Outcome) (σ : Store) : List Store :=
  if (scanRegion rodLayout.toConfig σ.dev.mem).found then [] else [rodLayout.defaultStore rodDefaults ok σ]

/-- Runs from an erased region: the board, the source of the record in each slot, the stores before every
    attempt of a save, and the stores before every default save. -/
inductive Run (ok : Outcome) : Board → (Nat × Nat → Option Source) → List Store → List Store → Prop where
  | first {b : Board} (erased : rodLayout.Erased b.param.store.dev.mem) (F : Binary32) (g : RodConfig) :
      Run ok (powerUp F g ok b)
        ((rodLayout.initTrace rodDefaults ok (rodLayout.fresh b.param.store.dev)).foldl
          (rodLayout.retag ok .default) fun _ => none)
        (rodLayout.initTrace rodDefaults ok (rodLayout.fresh b.param.store.dev))
        (defaultSaves ok (rodLayout.fresh b.param.store.dev))
  | boot {b : Board} {o : Nat × Nat → Option Source} {as ds : List Store} (before : Run ok b o as ds)
      (F : Binary32) (g : RodConfig) :
      Run ok (powerUp F g ok b)
        ((rodLayout.initTrace rodDefaults ok (rodLayout.fresh b.param.store.dev)).foldl
          (rodLayout.retag ok .default) o)
        (as ++ rodLayout.initTrace rodDefaults ok (rodLayout.fresh b.param.store.dev))
        (ds ++ defaultSaves ok (rodLayout.fresh b.param.store.dev))
  | minLimit {b : Board} {o : Nat × Nat → Option Source} {as ds : List Store} (before : Run ok b o as ds)
      (triggered : Bool) : Run ok { b with pos := (b.pos.onMinLimit triggered).2 } o as ds
  | maxLimit {b : Board} {o : Nat × Nat → Option Source} {as ds : List Store} (before : Run ok b o as ds)
      (triggered : Bool) : Run ok { b with pos := (b.pos.onMaxLimit triggered).2 } o as ds
  | move {b : Board} {o : Nat × Nat → Option Source} {as ds : List Store} (before : Run ok b o as ds)
      (F : Binary32) (deltaPulses : Int) : Run ok { b with pos := b.pos.update F deltaPulses } o as ds
  | saveRequest {b : Board} {o : Nat × Nat → Option Source} {as ds : List Store} (before : Run ok b o as ds) :
      Run ok { b with param := b.param.rodSaveRequest } o as ds
  | pollSave {b : Board} {o : Nat × Nat → Option Source} {as ds : List Store} (before : Run ok b o as ds) :
      Run ok { b with param := rodPollSave ok b.pos b.param }
        ((b.pollTrace ok).foldl (rodLayout.retag ok (.poll b.pos.calibState b.pos.positionMm)) o)
        (as ++ b.pollTrace ok) ds
  | eraseAll {b : Board} {o : Nat × Nat → Option Source} {as ds : List Store} (before : Run ok b o as ds) :
      Run ok { b with param := rodEraseAll ok b.param }
        ((rodLayout.initTrace rodDefaults ok
          { b.param.store with dev := rodLayout.wipe ok b.param.store.dev }).foldl (rodLayout.retag ok .default) o)
        (as ++ rodLayout.initTrace rodDefaults ok { b.param.store with dev := rodLayout.wipe ok b.param.store.dev })
        (ds ++ defaultSaves ok { b.param.store with dev := rodLayout.wipe ok b.param.store.dev })

/-! ### The record of a calibrated position -/

/-- A record with a sequence number above 1 was written by a poll of a calibrated rod and holds its
    position. -/
def Genuine (r : List Word) (src : Option Source) : Prop :=
  (rodLayout.seqOf r).toNat ≤ 1 ∨ ∃ mm, src = some (.poll .calibrated mm) ∧ getField32 r rodPositionOffset = mm

variable {ok : Outcome} {b : Board} {o : Nat × Nat → Option Source} {as ds : List Store}

theorem rodPollSave_store (ok : Outcome) (pos : Position) (p : RodParam) :
    (rodPollSave ok pos p).store =
      if p.pollSaves pos then (paramSave rodLayout.toConfig ok (p.saveStore pos.positionMm)).2 else p.store := by
  cases hp : p.savePending <;> cases hi : p.inited <;> cases hn : p.posPtr <;> cases hc : pos.isCalibrated <;>
  by_cases hw : p.saveWait + 1 < rodSaveWaitTicks <;>
  simp [rodPollSave, rodSave, pollSaves, saveStore, hp, hi, hn, hc, hw, Nat.not_le.mpr, Nat.not_lt.mp]

theorem saveStore_magic {p : RodParam} (h : rodLayout.Magic p.store.buf) (mm : Single) :
    rodLayout.Magic (p.saveStore mm).buf := h.set mm (by decide) (by decide) (by decide)

theorem powerUp_store (F : Binary32) (g : RodConfig) (ok : Outcome) (b : Board) :
    (powerUp F g ok b).param.store = (rodLayout.boot rodDefaults ok b.param.store).store := by
  simp only [powerUp, rodInit, RodParam.reset, rodApply, Bool.false_eq_true, ↓reduceIte, Bool.not_true]
  split
  · rfl
  · split <;> rfl

theorem admits_default {σ : Store} (hlen : σ.buf.length = rodLayout.words) (he : ∀ t, ok.erase t = true)
    (honce : ∀ σ' ∈ defaultSaves ok σ, rodLayout.Once ok σ') :
    ∀ σ' ∈ rodLayout.initTrace rodDefaults ok σ, rodLayout.Admits Genuine ok .default σ' := by
  unfold defaultSaves at honce
  unfold Layout.initTrace
  split
  · exact fun σ' hσ' => absurd hσ' List.not_mem_nil
  · rename_i hfound
    rw [if_neg hfound] at honce
    exact (honce _ List.mem_cons_self).admits rodDefaults hlen he (by decide) fun r hr => Or.inl (Nat.le_of_eq hr)

theorem admits_poll (ok : Outcome) (hm : rodLayout.Magic b.param.store.buf) :
    ∀ σ' ∈ b.pollTrace ok, rodLayout.Admits Genuine ok (.poll b.pos.calibState b.pos.positionMm) σ' := by
  unfold pollTrace
  split
  · rename_i hsaves
    intro σ' hσ' s _ k _ _ _
    have hcalib : b.pos.calibState = .calibrated := by
      simp only [pollSaves, Position.isCalibrated, Bool.and_eq_true, beq_iff_eq] at hsaves
      exact hsaves.2
    have hfield : rodLayout.isField 3 = false := by decide
    have hbuf := rodLayout.saveTrace_payload ok _ _ hfield σ' hσ'
    rw [← rodLayout.saveAttempt_payload ok σ' hfield] at hbuf
    have hmm : (b.param.saveStore b.pos.positionMm).buf[3]? = some b.pos.positionMm := by
      have hlen := hm.length
      have hpos : 3 < b.param.store.buf.length := by
        rw [hlen]
        decide
      simp [saveStore, setField32, rodPositionOffset, hpos]
    refine Or.inr ⟨b.pos.positionMm, by rw [hcalib], ?_⟩
    rw [getField32, List.getD_eq_getElem?_getD, show rodPositionOffset / 4 = 3 from rfl, hbuf, hmm, Option.getD_some]
  · exact fun σ' hσ' => absurd hσ' List.not_mem_nil

theorem powerUp_tagged (h : rodLayout.Tagged Genuine b.param.store.dev.mem o) (he : ∀ t, ok.erase t = true)
    (ht : ∀ σ ∈ rodLayout.initTrace rodDefaults ok (rodLayout.fresh b.param.store.dev), rodLayout.Tells ok σ)
    (hd : ∀ σ ∈ defaultSaves ok (rodLayout.fresh b.param.store.dev), rodLayout.Once ok σ) (F : Binary32)
    (g : RodConfig) :
    rodLayout.Tagged Genuine (powerUp F g ok b).param.store.dev.mem
      ((rodLayout.initTrace rodDefaults ok (rodLayout.fresh b.param.store.dev)).foldl (rodLayout.retag ok .default) o) ∧
      rodLayout.Cursor (powerUp F g ok b).param.store := by
  have hlen : (rodLayout.fresh b.param.store.dev).buf.length = rodLayout.words := List.length_replicate ..
  rw [powerUp_store]
  exact Layout.Tagged.init (σ := rodLayout.fresh b.param.store.dev) h rodDefaults hlen he ht
    (admits_default hlen he hd)

theorem tagged_of_erased {m : Nat → Word} (h : rodLayout.Erased m) (o : Nat × Nat → Option Source) :
    rodLayout.Tagged Genuine m o := by
  refine ⟨fun s hs k hk => Or.inr (h.slot_blank hs hk), fun s hs k hk hok => ?_⟩
  rw [h.slot_blank hs hk, rodLayout.recordOk_blank] at hok
  cases hok

theorem Run.tagged (h : Run ok b o as ds) (he : ∀ t, ok.erase t = true) (ht : ∀ σ ∈ as, rodLayout.Tells ok σ)
    (hd : ∀ σ ∈ ds, rodLayout.Once ok σ) :
    rodLayout.Tagged Genuine b.param.store.dev.mem o ∧ rodLayout.Cursor b.param.store := by
  induction h with
  | first erased F g => exact powerUp_tagged (tagged_of_erased erased _) he ht hd F g
  | boot before F g ih =>
    obtain ⟨htag, -⟩ := ih (fun σ hσ => ht σ (List.mem_append_left _ hσ)) fun σ hσ => hd σ (List.mem_append_left _ hσ)
    exact powerUp_tagged htag he (fun σ hσ => ht σ (List.mem_append_right _ hσ))
      (fun σ hσ => hd σ (List.mem_append_right _ hσ)) F g
  | minLimit before triggered ih => exact ih ht hd
  | maxLimit before triggered ih => exact ih ht hd
  | move before F deltaPulses ih => exact ih ht hd
  | saveRequest before ih =>
    obtain ⟨htag, hcursor⟩ := ih ht hd
    unfold rodSaveRequest
    split <;> exact ⟨htag, hcursor⟩
  | @pollSave b o as ds before ih =>
    obtain ⟨htag, hcursor⟩ := ih (fun σ hσ => ht σ (List.mem_append_left _ hσ)) hd
    have hadmits := admits_poll ok hcursor.magic
    have htells : ∀ σ ∈ b.pollTrace ok, rodLayout.Tells ok σ := fun σ hσ => ht σ (List.mem_append_right _ hσ)
    dsimp only
    rw [rodPollSave_store]
    unfold pollTrace at hadmits htells ⊢
    split
    · rename_i hsaves
      rw [if_pos hsaves] at hadmits htells
      have hstart : rodLayout.Cursor (b.param.saveStore b.pos.positionMm) :=
        ⟨hcursor.sec, hcursor.addr, saveStore_magic hcursor.magic _⟩
      exact Layout.Tagged.saveLoop (σ := b.param.saveStore b.pos.positionMm) maxWriteRetry htag hstart he htells hadmits
    · exact ⟨htag, hcursor⟩
  | @eraseAll b o as ds before ih =>
    obtain ⟨-, hcursor⟩ := ih (fun σ hσ => ht σ (List.mem_append_left _ hσ)) fun σ hσ =>
      hd σ (List.mem_append_left _ hσ)
    have hwiped := tagged_of_erased (rodLayout.erased_wipe he b.param.store.dev) o
    exact Layout.Tagged.init (σ := { b.param.store with dev := rodLayout.wipe ok b.param.store.dev }) hwiped rodDefaults
      hcursor.magic.length he (fun σ hσ => ht σ (List.mem_append_right _ hσ))
      (admits_default hcursor.magic.length he fun σ hσ => hd σ (List.mem_append_right _ hσ))

theorem powerUp_calibrated {F : Binary32} {g : RodConfig} (h : (powerUp F g ok b).pos.calibState = .calibrated) :
    (rodLayout.boot rodDefaults ok b.param.store).defaults = false ∧
      1 < (rodLayout.seqOf (rodLayout.boot rodDefaults ok b.param.store).store.buf).toNat ∧
      (powerUp F g ok b).pos.positionMm =
        getField32 (rodLayout.boot rodDefaults ok b.param.store).store.buf rodPositionOffset := by
  have hboot : rodLayout.init rodDefaults ok (rodLayout.fresh b.param.store.dev) =
      rodLayout.boot rodDefaults ok b.param.store := rfl
  simp only [powerUp, rodInit, RodParam.reset, rodApply, Bool.false_eq_true, ↓reduceIte, Bool.not_true, hboot] at h ⊢
  by_cases hdef : (rodLayout.boot rodDefaults ok b.param.store).defaults = true
  · rw [if_pos hdef] at h
    cases h
  · by_cases hseq : (rodLayout.seqOf (rodLayout.boot rodDefaults ok b.param.store).store.buf).toNat ≤ 1
    · rw [if_neg hdef, if_pos hseq] at h
      cases h
    · rw [if_neg hdef, if_neg hseq]
      exact ⟨Bool.not_eq_true _ ▸ hdef, Nat.not_le.mp hseq, rfl⟩

/-- In a run whose default saves succeed at their first attempt or not at all, under any pattern of
    failing programs, a power-up that ends calibrated has restored the position of a poll that saved it
    while the rod was calibrated. -/
theorem boots_calibrated (h : Run ok b o as ds) (he : ∀ t, ok.erase t = true)
    (ht : ∀ σ ∈ as, rodLayout.Tells ok σ) (hd : ∀ σ ∈ ds, rodLayout.Once ok σ) (F : Binary32) (g : RodConfig)
    (hcalib : (powerUp F g ok b).pos.calibState = .calibrated) :
    ∃ k mm, (powerUp F g ok b).param.store.rt.currAddr =
        rodLayout.slotAddr (powerUp F g ok b).param.store.rt.currSec k ∧
      o ((powerUp F g ok b).param.store.rt.currSec, k) = some (.poll .calibrated mm) ∧
      (powerUp F g ok b).pos.positionMm = mm := by
  obtain ⟨htag, -⟩ := h.tagged he ht hd
  obtain ⟨hload, hseq, hpos⟩ := powerUp_calibrated hcalib
  have hfilled : rodLayout.Filled (rodLayout.fillOf b.param.store.dev.mem)
      (rodLayout.fresh b.param.store.dev).dev.mem := htag.aligned.filled
  rw [powerUp_store]
  unfold Layout.boot at hload hseq hpos ⊢
  cases hbest : rodLayout.best (rodLayout.fillOf b.param.store.dev.mem) b.param.store.dev.mem with
  | none =>
    rw [rodLayout.init_default rodDefaults ok hfilled hbest] at hload
    cases hload
  | some p =>
    rw [rodLayout.init_found rodDefaults ok hfilled hbest] at hseq hpos ⊢
    obtain ⟨hp, hok⟩ := rodLayout.best_mem hbest
    obtain ⟨hs, hk⟩ := rodLayout.mem_visited.mp hp
    rcases htag.tagged p.1 hs p.2 (Nat.lt_of_lt_of_le hk (hfilled.le _ hs)) hok with hlow | ⟨mm, hsrc, hmm⟩
    · exact absurd hseq (Nat.not_lt.mpr hlow)
    · exact ⟨p.2, mm, rfl, hsrc, hpos.trans hmm⟩

/-- Single precision on the numbers of a power-up: `30.54 * 12` and `3 / 366.48`. -/
def powerUpArith : Binary32 where
  ofInt _ := zero
  add a _ := a
  sub a _ := a
  mul a b := if a = 0x41F451EC#32 ∧ b = 0x41400000#32 then 0x43B73D71#32 else zero
  div a b := if a = 0x40400000#32 ∧ b = 0x43B73D71#32 then 0x3C061E83#32 else zero
  lt _ _ := false
  le _ _ := false

def defaultConfig : RodConfig :=
  ⟨⟨one, one, 0x41C00000#32, 0x41C00000#32⟩, zero, 0x41C80000#32, 0x41F451EC#32, 0x41400000#32, 0x40400000#32⟩

def newBoard : Board := ⟨RodParam.reset ⟨fun _ => erasedWord, 0⟩, Position.init⟩

/-- The rod is calibrated at its upper limit, 25.0, and two polls after a request save that position. -/
theorem boots_calibrated_at_limit :
    ∃ (b : Board) (o : Nat × Nat → Option Source) (k : Nat),
      (powerUp powerUpArith defaultConfig .all b).pos.calibState = .calibrated ∧
      (powerUp powerUpArith defaultConfig .all b).param.store.rt.currAddr =
        rodLayout.slotAddr (powerUp powerUpArith defaultConfig .all b).param.store.rt.currSec k ∧
      o ((powerUp powerUpArith defaultConfig .all b).param.store.rt.currSec, k) =
        some (Source.poll .calibrated 0x41C80000#32) := by
  have h : Run .all _ _ _ _ := .pollSave (.pollSave (.saveRequest (.maxLimit
    (.first (b := newBoard) (fun _ _ => rfl) powerUpArith defaultConfig) true)))
  obtain ⟨k, mm, haddr, hsrc, hpos⟩ := boots_calibrated h (fun _ => rfl) (by decide +kernel) (by decide +kernel)
    powerUpArith defaultConfig (by decide +kernel)
  have hmm : mm = 0x41C80000#32 := by
    rw [← hpos]
    decide +kernel
  rw [hmm] at hsrc
  exact ⟨_, _, k, by decide +kernel, haddr, hsrc⟩

/-- The third word of the default record fails to be programmed, so the default save takes two attempts
    and its record has the sequence number 2: the next power-up is calibrated at 0.0. -/
theorem boots_calibrated_from_defaults :
    ∃ b o as ds, Run (missing 3) b o as ds ∧
      (powerUp powerUpArith defaultConfig (missing 3) b).pos.calibState = .calibrated ∧
      (powerUp powerUpArith defaultConfig (missing 3) b).pos.positionMm = zero ∧
      (powerUp powerUpArith defaultConfig (missing 3) b).param.store.rt.currSec = 60 ∧
      (powerUp powerUpArith defaultConfig (missing 3) b).param.store.rt.currAddr = rodLayout.slotAddr 60 1 ∧
      o (60, 1) = some .default := by
  refine ⟨_, _, _, _, .first (b := newBoard) (fun _ _ => rfl) powerUpArith defaultConfig, ?_⟩
  decide +kernel

end Board

end RodActuator.Param
