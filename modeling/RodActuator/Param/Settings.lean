import RodActuator.Lib.Ieee754
import RodActuator.Param.History
import RodActuator.Param.Rod
import RodActuator.Param.Sectors
import RodActuator.Power.BusVoltage
import RodActuator.Power.CurSensor

/-! The parameters of the devices (`Dev/dev_param/dev_param.c`). They are stored in the slow block, which shares the
    flash with the stroke of the rod. A power-up brings back the settings of the last save that the running motor did
    not refuse, and the devices work with them at once. -/

namespace RodActuator.Param
open Nor Transition Power Rod Binary32

/-- What a `ParamRecord_t` says, and what the devices work with. -/
structure Settings where
  volt : VoltCfg
  cur : CurCfg
  hallDirSeq : BitVec 8
  motorDirSeq : BitVec 8
  rod : RodConfig
  deriving DecidableEq, Repr

/-! ### The record -/

namespace ParamRecord

def volt (r : List Word) : VoltCfg := ⟨getField32 r 12, getField32 r 16, getField32 r 20, getField32 r 24⟩

/-- `cur_window_ms` and `cur_block_ms` share a word. -/
def cur (r : List Word) : CurCfg := ⟨getField32 r 28, (getField32 r 32).extractLsb' 0 16, (getField32 r 32).extractLsb' 16 16⟩

def hallDirSeq (r : List Word) : BitVec 8 := (getField32 r 36).extractLsb' 0 8

def motorDirSeq (r : List Word) : BitVec 8 := (getField32 r 36).extractLsb' 8 8

def rod (r : List Word) : RodConfig where
  calibWin := ⟨getField32 r 40, getField32 r 44, getField32 r 48, getField32 r 52⟩
  stopMargin := getField32 r 56
  strokeMm := getField32 r 60
  reductionRatio := getField32 r 64
  hallPulses := getField32 r 68
  screwLead := getField32 r 72

def settings (r : List Word) : Settings := ⟨volt r, cur r, hallDirSeq r, motorDirSeq r, rod r⟩

def putVolt (v : VoltCfg) (r : List Word) : List Word :=
  setField32 (setField32 (setField32 (setField32 r 12 v.overTh) 16 v.underTh) 20 v.hyst) 24 v.recoverMs

def putCur (c : CurCfg) (r : List Word) : List Word :=
  setField32 (setField32 r 28 c.overThMa) 32 (c.blockMs ++ c.windowMs)

def putDir (hall motor : BitVec 8) (r : List Word) : List Word :=
  setField32 r 36 ((getField32 r 36).extractLsb' 16 16 ++ motor ++ hall)

end ParamRecord

/-! ### The module -/

/-- The variables of the module and those of the devices that it sets, with the flash. -/
structure DevParam where
  flash : Shared FlashBlock
  inited : Bool
  volt : VoltCfg
  cur : CurCfg
  hallInvertDir : BitVec 8
  motorDirInvert : Bool

inductive ParamAct where
  | powerUp
  | init
  | setVolt (v : VoltCfg)
  | setCur (c : CurCfg)
  | dirSet (hall motor : Nat) (running : Bool)
  | save (running : Bool)
  | saveTest (running : Bool)
  | eraseAll (running : Bool)
  | rodSave (mm : Single)

namespace DevParam

def record (p : DevParam) : List Word := (p.flash.ram .param).buf

def runtime (p : DevParam) : Runtime := (p.flash.ram .param).rt

def setRecord (r : List Word) (p : DevParam) : DevParam :=
  { p with flash := { p.flash with ram := Function.update p.flash.ram .param { p.flash.ram .param with buf := r } } }

/-- A call of the store on one of the blocks. -/
def call (ok : Outcome) (i : FlashBlock) (c : Block.Call) (p : DevParam) : DevParam :=
  { p with flash := p.flash.put i ((firmware i).call ok (p.flash.store i) c) }

/-- `Param_ApplyDirSeq`. -/
def applyDirSeq (p : DevParam) : DevParam :=
  { p with
    hallInvertDir := ParamRecord.hallDirSeq p.record
    motorDirInvert := ParamRecord.motorDirSeq p.record != 0 }

/-- `Param_ApplyToDevices`. -/
def applyToDevices (p : DevParam) : DevParam :=
  applyDirSeq { p with volt := ParamRecord.volt p.record, cur := ParamRecord.cur p.record }

/-- The RAM after a reset, with the defaults of the devices. -/
def reset (d : Device 32) : DevParam where
  flash := Shared.start firmware d
  inited := false
  volt := ⟨0x41D00000#32, 0x41A00000#32, one, 500⟩
  cur := CurCfg.default
  hallInvertDir := 0
  motorDirInvert := false

/-- `Dev_Param_RodInit`. -/
def rodInit (ok : Outcome) (p : DevParam) : DevParam :=
  if (p.flash.ram .rod).inited then p else p.call ok .rod .init

/-- `Dev_Param_Init`. -/
def init (ok : Outcome) (p : DevParam) : Res × DevParam :=
  if p.inited then (.ok, p)
  else
    let res := (paramInit paramConfig paramSetDefaults ok (p.flash.store .param)).res
    let p := p.call ok .param .init
    let p := if res = .ok then p.applyToDevices else p
    (res, { p.rodInit ok with inited := true })

/-- A reset and the call in `main`. -/
def powerUp (ok : Outcome) (d : Device 32) : DevParam := ((reset d).init ok).2

/-- The devices' configuration as `Dev_Param_Save` copies it into the record. -/
def sync (p : DevParam) : DevParam := p.setRecord (ParamRecord.putCur p.cur (ParamRecord.putVolt p.volt p.record))

/-- `Dev_Param_Save`, where the motor is running or not. -/
def save (ok : Outcome) (running : Bool) (p : DevParam) : Res × DevParam :=
  if !p.inited then (.errNotRdy, p)
  else if running then (.err, p)
  else ((paramSave paramConfig ok (p.sync.flash.store .param)).1, p.sync.call ok .param .save)

/-- `cmd_dir_set`. -/
def dirSet (ok : Outcome) (hall motor : Nat) (running : Bool) (p : DevParam) : DevParam :=
  if hall > 1 ∨ motor > 1 then p
  else
    let p := p.setRecord (ParamRecord.putDir (BitVec.ofNat 8 hall) (BitVec.ofNat 8 motor) p.record)
    (p.applyDirSeq.save ok running).2

/-- The next threshold of `Dev_Param_SaveTest`: half a volt more, from 27.0 back to 23.0. -/
def nextOverTh (F : Binary32) (v : VoltCfg) : VoltCfg :=
  let overTh := F.add v.overTh 0x3F000000#32
  { v with overTh := if F.le 0x41D80000#32 overTh then 0x41B80000#32 else overTh }

def saveTest (F : Binary32) (ok : Outcome) (running : Bool) (p : DevParam) : DevParam :=
  ({ p with volt := nextOverTh F p.volt }.save ok running).2

/-- `Dev_Param_EraseAll`. -/
def eraseAll (ok : Outcome) (running : Bool) (p : DevParam) : DevParam :=
  if running then p else (p.call ok .param .eraseAll).applyToDevices.call ok .rod .eraseAll

/-- `Dev_Param_RodSave`. -/
def rodSave (ok : Outcome) (mm : Single) (p : DevParam) : DevParam :=
  if !(p.flash.ram .rod).inited then p
  else
    let r := { p.flash.ram .rod with buf := setField32 (p.flash.ram .rod).buf rodPositionOffset mm }
    call ok .rod .save { p with flash := { p.flash with ram := Function.update p.flash.ram .rod r } }

def step (F : Binary32) (ok : Outcome) (p : DevParam) : ParamAct → DevParam
  | .powerUp => powerUp ok p.flash.dev
  | .init => (p.init ok).2
  | .setVolt v => { p with volt := v }
  | .setCur c => { p with cur := c }
  | .dirSet hall motor running => p.dirSet ok hall motor running
  | .save running => (p.save ok running).2
  | .saveTest running => p.saveTest F ok running
  | .eraseAll running => p.eraseAll ok running
  | .rodSave mm => p.rodSave ok mm

/-- The room behind the pointer, in the 32 bits of the program. -/
def remain (p : DevParam) : Nat := ((p.runtime.currSec + 1) * paramSectorSize + 2 ^ 32 - p.runtime.currAddr) % 2 ^ 32

/-- The loop of `Dev_Param_FillTest`, with the motor as each save finds it. -/
def fill (ok : Outcome) (running : Nat → Bool) : Nat → DevParam → DevParam
  | 0, p => p
  | n + 1, p =>
    if p.remain > 2 * paramConfig.paramSize then
      let r := p.save ok (running n)
      if r.1 = .ok then fill ok running n r.2 else r.2
    else p

/-- `Dev_Param_FillTest`. -/
def fillTest (ok : Outcome) (running : Nat → Bool) (p : DevParam) : DevParam := fill ok running 500 p

end DevParam

/-! ### What it is for -/

/-- The settings in force, and those that the next power-up brings back. -/
structure Persistent where
  live : Settings
  stored : Settings

namespace Persistent

def defaults : Settings := ParamRecord.settings (paramSetDefaults [])

def start : Persistent := ⟨defaults, defaults⟩

/-- A running motor refuses it. -/
def save (running : Bool) (a : Persistent) : Persistent := if running then a else ⟨a.live, a.live⟩

def step (F : Binary32) (a : Persistent) : ParamAct → Persistent
  | .powerUp => ⟨a.stored, a.stored⟩
  | .init | .rodSave _ => a
  | .setVolt v => ⟨{ a.live with volt := v }, a.stored⟩
  | .setCur c => ⟨{ a.live with cur := c }, a.stored⟩
  | .dirSet hall motor running =>
    if hall > 1 ∨ motor > 1 then a
    else save running
      ⟨{ a.live with hallDirSeq := BitVec.ofNat 8 hall, motorDirSeq := BitVec.ofNat 8 motor }, a.stored⟩
  | .save running => a.save running
  | .saveTest running => save running ⟨{ a.live with volt := DevParam.nextOverTh F a.live.volt }, a.stored⟩
  | .eraseAll running => if running then a else start

end Persistent

/-- The devices work with the settings. -/
structure DevParam.Shows (p : DevParam) (s : Settings) : Prop where
  volt : p.volt = s.volt
  cur : p.cur = s.cur
  hallInvertDir : p.hallInvertDir = s.hallDirSeq
  motorDirInvert : p.motorDirInvert = (s.motorDirSeq != 0)
  rod : ParamRecord.rod p.record = s.rod

/-! ### The layout of the record -/

def paramLayout : Layout where
  toConfig := paramConfig
  size_le := paramBlock.size_le
  size_mod := paramBlock.size_mod
  seq_mod := by decide
  eraseCnt_mod := by decide
  checksum_mod := by decide
  seq_pos := by decide
  eraseCnt_pos := by decide
  seq_ne_eraseCnt := by decide
  seq_lt := by decide
  eraseCnt_lt := by decide
  checksum_lt := by decide
  sec_le := paramBlock.sec_le
  sec_lt := by decide
  head_ne := by decide

def paramDefaults : paramLayout.Defaults := ⟨paramSetDefaults, fun _ _ => ⟨rfl, rfl, rfl⟩⟩

namespace ParamRecord
variable {r r' : List Word}

/-- The settings are in the words that are not the store's own. -/
theorem settings_congr (h : ∀ i, paramLayout.isField i = false → r'[i]? = r[i]?) : settings r' = settings r := by
  have hword : ∀ off, paramLayout.isField (off / 4) = false → getField32 r' off = getField32 r off := fun off hoff => by
    rw [getField32, getField32, List.getD_eq_getElem?_getD, List.getD_eq_getElem?_getD, h _ hoff]
  have h12 := hword 12 rfl; have h16 := hword 16 rfl; have h20 := hword 20 rfl; have h24 := hword 24 rfl
  have h28 := hword 28 rfl; have h32 := hword 32 rfl; have h36 := hword 36 rfl; have h40 := hword 40 rfl
  have h44 := hword 44 rfl; have h48 := hword 48 rfl; have h52 := hword 52 rfl; have h56 := hword 56 rfl
  have h60 := hword 60 rfl; have h64 := hword 64 rfl; have h68 := hword 68 rfl; have h72 := hword 72 rfl
  simp only [settings, volt, cur, hallDirSeq, motorDirSeq, rod, h12, h16, h20, h24, h28, h32, h36, h40, h44, h48, h52,
    h56, h60, h64, h68, h72]

theorem getField32_set {b : List Word} (hlen : b.length = paramLayout.words) (off off' : Nat) (v : Word)
    (hoff : off < 84) (hmod : off % 4 = 0) (hmod' : off' % 4 = 0) :
    getField32 (setField32 b off v) off' = if off' = off then v else getField32 b off' := by
  have hlt : off / 4 < b.length := by
    rw [hlen]
    exact (by omega : off / 4 < 21)
  split
  · rename_i heq
    rw [heq, getField32_setField32_self v hlt]
  · exact getField32_setField32_ne b v (by omega)

theorem settings_sync (hlen : r.length = paramLayout.words) (v : VoltCfg) (c : CurCfg) :
    settings (putCur c (putVolt v r)) = { settings r with volt := v, cur := c } := by
  have h1 : (setField32 r 12 v.overTh).length = paramLayout.words := (setField32_length ..).trans hlen
  have h2 : (setField32 (setField32 r 12 v.overTh) 16 v.underTh).length = paramLayout.words := (setField32_length ..).trans h1
  have h3 := (setField32_length (setField32 (setField32 r 12 v.overTh) 16 v.underTh) 20 v.hyst).trans h2
  have h4 : (putVolt v r).length = paramLayout.words := (setField32_length ..).trans h3
  have h5 : (setField32 (putVolt v r) 28 c.overThMa).length = paramLayout.words := (setField32_length ..).trans h4
  have hwords : ∀ off, off % 4 = 0 → getField32 (putCur c (putVolt v r)) off =
      if off = 32 then c.blockMs ++ c.windowMs else if off = 28 then c.overThMa else if off = 24 then v.recoverMs
      else if off = 20 then v.hyst else if off = 16 then v.underTh else if off = 12 then v.overTh
      else getField32 r off := by
    intro off hoff
    rw [putCur, getField32_set h5 _ _ _ (by decide) (by decide) hoff, getField32_set h4 _ _ _ (by decide) (by decide) hoff,
      putVolt, getField32_set h3 _ _ _ (by decide) (by decide) hoff,
      getField32_set h2 _ _ _ (by decide) (by decide) hoff, getField32_set h1 _ _ _ (by decide) (by decide) hoff,
      getField32_set hlen _ _ _ (by decide) (by decide) hoff]
  have hlow : (c.blockMs ++ c.windowMs).extractLsb' 0 16 = c.windowMs := BitVec.extractLsb'_append_eq_right
  have hhigh : (c.blockMs ++ c.windowMs).extractLsb' 16 16 = c.blockMs := BitVec.extractLsb'_append_eq_left
  simp only [settings, volt, cur, hallDirSeq, motorDirSeq, rod, hwords, Nat.reduceMod, Nat.reduceEqDiff, if_true, if_false,
    hlow, hhigh]

theorem settings_putDir (hlen : r.length = paramLayout.words) (hall motor : BitVec 8) :
    settings (putDir hall motor r) = { settings r with hallDirSeq := hall, motorDirSeq := motor } := by
  have hwords : ∀ off, off % 4 = 0 → getField32 (putDir hall motor r) off =
      if off = 36 then (getField32 r 36).extractLsb' 16 16 ++ motor ++ hall else getField32 r off :=
    fun off hoff => getField32_set hlen _ _ _ (by decide) (by decide) hoff
  have hlow (w : BitVec 16) : (w ++ motor ++ hall).extractLsb' 0 8 = hall := BitVec.extractLsb'_append_eq_right
  have hhigh (w : BitVec 16) : (w ++ motor ++ hall).extractLsb' 8 8 = motor := by
    ext i hi
    simp only [BitVec.getElem_extractLsb', BitVec.getLsbD_append]
    rw [if_neg (by omega), if_pos (by omega), BitVec.getLsbD_eq_getElem (by omega)]
    congr 1
    omega
  simp only [settings, volt, cur, hallDirSeq, motorDirSeq, rod, hwords, Nat.reduceMod, Nat.reduceEqDiff, if_true, if_false,
    hlow, hhigh]

theorem sync_field {v : VoltCfg} {c : CurCfg} {i : Nat} (hi : paramLayout.isField i = true) :
    (putCur c (putVolt v r))[i]? = r[i]? := by
  have hne : i ≠ 3 ∧ i ≠ 4 ∧ i ≠ 5 ∧ i ≠ 6 ∧ i ≠ 7 ∧ i ≠ 8 := by
    refine ⟨?_, ?_, ?_, ?_, ?_, ?_⟩ <;> rintro rfl <;> cases hi
  simp only [putCur, putVolt, setField32]
  rw [List.getElem?_set_ne (by omega), List.getElem?_set_ne (by omega), List.getElem?_set_ne (by omega),
    List.getElem?_set_ne (by omega), List.getElem?_set_ne (by omega), List.getElem?_set_ne (by omega)]

theorem putDir_field {hall motor : BitVec 8} {i : Nat} (hi : paramLayout.isField i = true) :
    (putDir hall motor r)[i]? = r[i]? := by
  have hne : i ≠ 9 := by
    rintro rfl
    cases hi
  rw [putDir, setField32, List.getElem?_set_ne (by omega)]

end ParamRecord

/-! ### The store of the record -/

namespace Layout
variable {L : Layout} {fill : Nat → Nat} {σ σ' : Store} {r b : List Word}

/-- A change of the payload alone. -/
theorem Ready.edit (h : L.Ready fill σ r) (hlen : b.length = σ.buf.length)
    (hfield : ∀ i, L.isField i = true → b[i]? = σ.buf[i]?) : L.Ready fill { σ with buf := b } r := by
  have hb : L.setPayload (fun i => b.getD i 0) σ.buf = b := by
    refine List.ext_getElem? fun i => ?_
    rw [L.getElem?_setPayload]
    by_cases hi : i < b.length
    · rw [List.getElem?_eq_getElem (hlen ▸ hi), List.getElem?_eq_getElem hi, Option.map_some]
      split
      · rename_i hf
        have heq := hfield i hf
        rw [List.getElem?_eq_getElem hi, List.getElem?_eq_getElem (hlen ▸ hi)] at heq
        exact heq.symm
      · rw [List.getD_eq_getElem?_getD, List.getElem?_eq_getElem hi, Option.getD_some]
    · rw [List.getElem?_eq_none (by omega), List.getElem?_eq_none (by omega), Option.map_none]
  rw [← hb]
  exact h.setPayload _

/-- Only the words of its own sectors matter. -/
theorem Ready.of_same (h : L.Ready fill σ r) (hbuf : σ'.buf = σ.buf) (hrt : σ'.rt = σ.rt)
    (hmem : ∀ x, x / paramSectorSize ∈ sectors L.toConfig → σ'.dev.mem x = σ.dev.mem x) : L.Ready fill σ' r := by
  have hslot : ∀ s ∈ sectors L.toConfig, ∀ k < L.slotCount, L.slot σ'.dev.mem s k = L.slot σ.dev.mem s k := by
    refine fun s hs k hk => readWords_congr fun i hi => hmem _ ?_
    rw [L.slotAddr_word_div hk hi]
    exact hs
  obtain ⟨k, hnewest, haddr⟩ := h.last
  obtain ⟨hpacked, hcursor, hnear⟩ := hnewest.placed
  have hpacked' : L.Packed fill σ'.dev.mem := by
    refine ⟨hpacked.le, fun s hs k hk => ?_, fun s hs k hk hlt => ?_⟩
    · rw [hslot s hs k (Nat.lt_of_lt_of_le hk (hpacked.le s hs))]
      exact hpacked.head s hs k hk
    · rw [hslot s hs k hlt]
      exact hpacked.blank s hs k hk hlt
  have hcursor' : L.Cursor σ' := ⟨hrt ▸ hcursor.sec, hrt ▸ hcursor.addr, hbuf ▸ hcursor.magic⟩
  have hk : k < L.slotCount := by
    have hle := hpacked.le _ hcursor.sec
    rw [hnewest.fill_eq] at hle
    exact hle
  refine ⟨hbuf ▸ h.seq, k, ⟨⟨hpacked', hcursor', hrt ▸ hnear⟩, ?_, hrt ▸ hnewest.fill_eq, hnewest.valid, ?_⟩, hrt ▸ haddr⟩
  · rw [hrt, hslot _ hcursor.sec k hk]
    exact hnewest.slot
  · rintro ⟨s, j⟩ hq hne hok
    obtain ⟨hs, hj⟩ := L.mem_visited.mp hq
    have hsame := hslot s hs j (Nat.lt_of_lt_of_le hj (hpacked.le s hs))
    rw [hsame] at hok ⊢
    exact hnewest.above (s, j) hq (hrt ▸ hne) hok

/-- The first record of an erased region, whatever the buffer holds. -/
theorem Erased.init (h : L.Erased σ.dev.mem) (hlen : σ.buf.length = L.words) (D : L.Defaults) :
    (L.init D .all σ).res = .ok ∧ (∃ fill, L.Ready fill (L.init D .all σ).store (L.init D .all σ).store.buf) ∧
      ∀ i, L.isField i = false → (L.init D .all σ).store.buf[i]? = (D.set σ.buf)[i]? := by
  have hpacked := h.packed
  have hbest := L.best_eq_none_of_empty σ.dev.mem
  obtain ⟨hplaced, hbound, hseq⟩ := L.defaultStore_placed D .all hpacked hbest hlen rfl
  obtain ⟨hdone, -, fill', hready⟩ := L.attempt_behind .all hplaced (by rw [hseq]; exact hbound)
    (by rw [hseq]; decide) (by simp [defaultStore]) rfl fun _ _ _ => rfl
  rw [L.init_default D .all hpacked.filled hbest]
  refine ⟨rfl, ⟨fill', ?_⟩, fun i hi => ?_⟩
  · rw [paramSave, maxWriteRetry, saveLoop_done _ hdone]
    obtain ⟨k, hnewest, haddr⟩ := hready.last
    exact ⟨hready.seq, k, ⟨hnewest.placed.updateRuntime .ok, hnewest.slot, hnewest.fill_eq, hnewest.valid, hnewest.above⟩,
      haddr⟩
  · rw [paramSave, L.saveLoop_payload .all _ _ hi]
    simp only [isField, Bool.or_eq_false_iff, beq_eq_false_iff_ne] at hi
    simp only [defaultStore, setField32]
    rw [List.getElem?_set_ne (Ne.symm hi.1.1.2), List.getElem?_set_ne (Ne.symm hi.1.1.1.2)]

theorem Ready.length (h : L.Ready fill σ r) : σ.buf.length = L.words := by
  obtain ⟨k, hnewest, -⟩ := h.last
  exact hnewest.placed.cursor.magic.length

end Layout

/-! ### The calls -/

theorem Block.Fits.buf {B : Block} {ram : Block.Ram} (h : B.Fits ram) {b : List Word} (hlen : b.length = ram.buf.length) :
    B.Fits { ram with buf := b } := by
  refine ⟨hlen.trans h.length, fun hinited d => ?_⟩
  have hinside := h.inside hinited d
  exact ⟨hinside.sec, hinside.addr, hlen.trans h.length⟩

namespace DevParam
variable {p p' : DevParam} {a : Persistent} {ok : Outcome}

/-- The flash holds the stored settings, and the devices work with those in force. -/
structure Persists (p : DevParam) (a : Persistent) : Prop where
  fits : Shared.Fits firmware p.flash
  inited : p.inited = true ∧ ∀ i, (p.flash.ram i).inited = true
  stored : ∃ fill r, paramLayout.Ready fill (p.flash.store .param) r ∧ ParamRecord.settings r = a.stored
  shows : p.Shows a.live
  hallDirSeq : ParamRecord.hallDirSeq p.record = a.live.hallDirSeq
  motorDirSeq : ParamRecord.motorDirSeq p.record = a.live.motorDirSeq

theorem store_buf (p : DevParam) : (p.flash.store .param).buf = p.record := rfl

theorem store_dev (p : DevParam) : (p.flash.store .param).dev = p.flash.dev := rfl

theorem store_rt (p : DevParam) : (p.flash.store .param).rt = p.runtime := rfl

theorem call_inited (i : FlashBlock) (c : Block.Call) : (p.call ok i c).inited = p.inited := rfl

theorem call_self (ok : Outcome) (i : FlashBlock) (c : Block.Call) : (p.call ok i c).flash.store i =
    (firmware i).call ok (p.flash.store i) c ∧ ((p.call ok i c).flash.ram i).inited = true := by
  simp only [call, Shared.put, Shared.store, Function.update_self]
  exact ⟨rfl, trivial⟩

theorem call_other {i j : FlashBlock} (hne : j ≠ i) (c : Block.Call) : (p.call ok i c).flash.ram j = p.flash.ram j :=
  Function.update_of_ne hne ..

theorem setRecord_param (b : List Word) : (p.setRecord b).flash.ram .param = { p.flash.ram .param with buf := b } := by
  simp only [setRecord, Function.update_self]

theorem setRecord_rod (b : List Word) : (p.setRecord b).flash.ram .rod = p.flash.ram .rod := by
  simp [setRecord]

theorem applyToDevices_call (c : Block.Call) :
    p.applyToDevices.call ok .rod c = (p.call ok .rod c).applyToDevices := by
  have hne : FlashBlock.param ≠ .rod := FlashBlock.noConfusion
  have hrecord : (p.call ok .rod c).record = p.record := congrArg Block.Ram.buf (call_other hne c)
  have happly : ∀ q : DevParam, q.applyToDevices = { q with
      volt := ParamRecord.volt q.record
      cur := ParamRecord.cur q.record
      hallInvertDir := ParamRecord.hallDirSeq q.record
      motorDirInvert := ParamRecord.motorDirSeq q.record != 0 } := fun _ => rfl
  rw [happly, happly, hrecord]
  rfl

/-- What a call on the rod's block leaves alone. -/
theorem call_rod (ok : Outcome) (fits : Shared.Fits firmware p.flash) {c : Block.Call}
    (hsave : c = .save → (p.flash.ram .rod).inited = true) :
    Shared.Fits firmware (p.call ok .rod c).flash ∧ (p.call ok .rod c).flash.ram .param = p.flash.ram .param ∧
      ∀ x, x / paramSectorSize ∈ sectors paramLayout.toConfig → (p.call ok .rod c).flash.dev.mem x = p.flash.dev.mem x := by
  have hne : FlashBlock.param ≠ .rod := FlashBlock.noConfusion
  refine ⟨fits.update ((fits .rod).call hsave ok p.flash.dev).fits _, call_other hne c, ?_⟩
  intro x hx
  have hops := (firmware .rod).call_dev ok (p.flash.store .rod) c
  have howns : (firmware .param).Owns (x / paramSectorSize) := mem_sectors_iff.mp hx
  have happly := Block.applyOps_outside ((fits .rod).permitted hsave ok p.flash.dev) ok p.flash.dev
    (firmware_apart hne howns)
  rw [← happly]
  exact congrArg (fun d => d.mem x) hops

theorem Persists.call_rod (h : Persists p a) (c : Block.Call) : Persists (p.call .all .rod c) a := by
  obtain ⟨hfits, hram, hmem⟩ := DevParam.call_rod .all h.fits (c := c) fun _ => h.inited.2 .rod
  obtain ⟨fill, r, hready, hr⟩ := h.stored
  have hrecord : (p.call .all .rod c).record = p.record := congrArg Block.Ram.buf hram
  refine ⟨hfits, ⟨h.inited.1, fun i => ?_⟩, ⟨fill, r, ?_, hr⟩, ?_, hrecord ▸ h.hallDirSeq, hrecord ▸ h.motorDirSeq⟩
  · cases i with
    | param =>
      rw [hram]
      exact h.inited.2 .param
    | rod => exact (call_self _ .rod c).2
  · exact hready.of_same (congrArg Block.Ram.buf hram) (congrArg Block.Ram.rt hram) hmem
  · exact ⟨h.shows.volt, h.shows.cur, h.shows.hallInvertDir, h.shows.motorDirInvert, hrecord ▸ h.shows.rod⟩

/-- The record loaded or written first, applied to the devices. -/
theorem persists_apply (fits : Shared.Fits firmware p.flash) (inited : p.inited = true ∧ ∀ i, (p.flash.ram i).inited = true)
    {fill : Nat → Nat} {r : List Word} (hready : paramLayout.Ready fill (p.flash.store .param) r)
    (hsettings : ParamRecord.settings p.record = ParamRecord.settings r) :
    Persists p.applyToDevices ⟨ParamRecord.settings r, ParamRecord.settings r⟩ := by
  refine ⟨fits, inited, ⟨fill, r, hready, rfl⟩, ⟨?_, ?_, ?_, ?_, ?_⟩, ?_, ?_⟩
  · exact congrArg Settings.volt hsettings
  · exact congrArg Settings.cur hsettings
  · exact congrArg Settings.hallDirSeq hsettings
  · exact congrArg (fun s : Settings => s.motorDirSeq != 0) hsettings
  · exact congrArg Settings.rod hsettings
  · exact congrArg Settings.hallDirSeq hsettings
  · exact congrArg Settings.motorDirSeq hsettings

theorem setRecord_record (r : List Word) : (p.setRecord r).record = r := by
  rw [record, setRecord_param]

/-- A change of the payload of the record. -/
theorem Persists.setRecord (h : Persists p a) {b : List Word} (hlen : b.length = p.record.length)
    (hfield : ∀ i, paramLayout.isField i = true → b[i]? = p.record[i]?) :
    Shared.Fits firmware (p.setRecord b).flash ∧ (∀ i, ((p.setRecord b).flash.ram i).inited = true) ∧
      ∃ fill r, paramLayout.Ready fill ((p.setRecord b).flash.store .param) r ∧ ParamRecord.settings r = a.stored := by
  obtain ⟨fill, r, hready, hr⟩ := h.stored
  refine ⟨h.fits.update ((h.fits .param).buf hlen) _, fun i => ?_, fill, r, ?_, hr⟩
  · cases i with
    | param => exact (congrArg Block.Ram.inited (setRecord_param (p := p) b)).trans (h.inited.2 .param)
    | rod => exact (congrArg Block.Ram.inited (setRecord_rod (p := p) b)).trans (h.inited.2 .rod)
  · refine (hready.edit hlen hfield).of_same ?_ ?_ fun x _ => rfl
    · exact congrArg Block.Ram.buf (setRecord_param (p := p) b)
    · exact (congrArg Block.Ram.rt (setRecord_param (p := p) b)).trans rfl

theorem Persists.length (h : Persists p a) : p.record.length = paramLayout.words := by
  obtain ⟨fill, r, hready, -⟩ := h.stored
  exact hready.length

/-- The number of the next records fits in its word. -/
def Below (p : DevParam) : Prop := (paramLayout.seqOf p.record).toNat + maxWriteRetry < 2 ^ 32

theorem Persists.save (h : Persists p a) (below : p.Below) (running : Bool) :
    (p.save .all running).1 = (if running then .err else .ok) ∧ Persists (p.save .all running).2 (a.save running) := by
  cases running with
  | true =>
    rw [DevParam.save, h.inited.1]
    exact ⟨rfl, h⟩
  | false =>
    have hsave : p.save .all false = ((paramSave paramConfig .all (p.sync.flash.store .param)).1,
        p.sync.call .all .param .save) := by
      rw [DevParam.save, h.inited.1]
      rfl
    rw [hsave]
    have hlen : (ParamRecord.putCur p.cur (ParamRecord.putVolt p.volt p.record)).length = p.record.length := by
      simp only [ParamRecord.putCur, ParamRecord.putVolt, setField32_length]
    obtain ⟨hfits, hinited, fill, r, hready, hr⟩ := h.setRecord hlen fun i hi => ParamRecord.sync_field hi
    have hrecord : p.sync.record = ParamRecord.putCur p.cur (ParamRecord.putVolt p.volt p.record) := setRecord_record _
    have hseq : paramLayout.seqOf p.sync.record = paramLayout.seqOf p.record := by
      rw [hrecord, Layout.seqOf, Layout.seqOf, getField32, getField32, List.getD_eq_getElem?_getD, List.getD_eq_getElem?_getD,
        ParamRecord.sync_field rfl]
    have hbound : (paramLayout.seqOf (p.sync.flash.store .param).buf).toNat +
        (saveTrace paramLayout.toConfig .all maxWriteRetry (p.sync.flash.store .param)).length < 2 ^ 32 := by
      have htrace := saveTrace_length_le paramLayout.toConfig .all maxWriteRetry (p.sync.flash.store .param)
      have hb : (paramLayout.seqOf p.sync.record).toNat + maxWriteRetry < 2 ^ 32 := hseq ▸ below
      exact Nat.lt_of_le_of_lt (Nat.add_le_add_left htrace _) hb
    obtain ⟨hres, ⟨fill', hready'⟩, -⟩ := hready.paramSave_ok hbound
    -- The live settings are what the record says.
    have hsettings : ParamRecord.settings p.sync.record = a.live := by
      rw [hrecord, ParamRecord.settings_sync h.length]
      obtain ⟨hvolt, hcur, -, -, hrod⟩ := h.shows
      rw [ParamRecord.settings, h.hallDirSeq, h.motorDirSeq, hrod, hvolt, hcur]
    obtain ⟨hstore, hparam⟩ := call_self (p := p.sync) .all .param .save
    have hsaved : ParamRecord.settings (p.sync.call .all .param .save).record = a.live := by
      rw [← hsettings]
      refine ParamRecord.settings_congr fun i hi => ?_
      rw [show (p.sync.call .all .param .save).record = _ from congrArg Store.buf hstore]
      exact paramLayout.saveLoop_payload .all _ _ hi
    refine ⟨hres, ?_, ⟨h.inited.1, fun i => ?_⟩, ⟨fill', _, by rw [hstore]; exact hready', ?_⟩, ?_, ?_, ?_⟩
    · exact hfits.update ((hfits .param).call (c := .save) (fun _ => hinited .param) .all _).fits _
    · cases i with
      | param => exact hparam
      | rod => exact (congrArg Block.Ram.inited (call_other FlashBlock.noConfusion .save)).trans (hinited .rod)
    · exact (congrArg (fun σ => ParamRecord.settings σ.buf) hstore.symm).trans hsaved
    · exact ⟨h.shows.volt, h.shows.cur, h.shows.hallInvertDir, h.shows.motorDirInvert, congrArg Settings.rod hsaved⟩
    · exact congrArg Settings.hallDirSeq hsaved
    · exact congrArg Settings.motorDirSeq hsaved

/-- A reset, on a flash whose record the scan of `Param_Init` finds or writes. -/
theorem persists_powerUp {d : Device 32} {fill : Nat → Nat} {r : List Word}
    (hres : (paramLayout.init paramDefaults .all (paramLayout.fresh d)).res = .ok)
    (hready : paramLayout.Ready fill (paramLayout.init paramDefaults .all (paramLayout.fresh d)).store r)
    (hbuf : ParamRecord.settings (paramLayout.init paramDefaults .all (paramLayout.fresh d)).store.buf =
      ParamRecord.settings r) : Persists (powerUp .all d) ⟨ParamRecord.settings r, ParamRecord.settings r⟩ := by
  have hstart : (reset d).flash.store .param = paramLayout.fresh d := rfl
  obtain ⟨hstore, hparam⟩ := call_self (p := reset d) .all .param .init
  have hcall : ((reset d).call .all .param .init).flash.store .param =
      (paramLayout.init paramDefaults .all (paramLayout.fresh d)).store := hstore.trans (by rw [hstart]; rfl)
  have hfits : Shared.Fits firmware ((reset d).call .all .param .init).flash :=
    (Shared.fits_start firmware d).update ((Shared.fits_start firmware d .param).call (c := .init) nofun .all d).fits _
  -- The rod's block is initialised after the parameters are applied.
  obtain ⟨hfits', hram, hmem⟩ := call_rod .all (c := .init) (p := (reset d).call .all .param .init) hfits nofun
  have hpower : powerUp .all d = applyToDevices
      { ((reset d).call .all .param .init).call .all .rod .init with inited := true } := by
    have hfresh : (((reset d).call .all .param .init).applyToDevices.flash.ram .rod).inited = false :=
      congrArg Block.Ram.inited (call_other FlashBlock.noConfusion .init)
    have hinit : (paramInit paramConfig paramSetDefaults .all ((reset d).flash.store .param)).res = .ok := hres
    have hinited : (reset d).inited = false := rfl
    simp only [powerUp, init, hinit, hinited, Bool.false_eq_true, if_false, if_true, rodInit, hfresh, applyToDevices_call]
    rfl
  rw [hpower]
  have hrecord := congrArg Block.Ram.buf hram
  refine persists_apply (p := { ((reset d).call .all .param .init).call .all .rod .init with inited := true }) hfits'
    ⟨rfl, fun i => ?_⟩ ((hcall ▸ hready).of_same hrecord (congrArg Block.Ram.rt hram) hmem) ?_
  · cases i with
    | param => exact (congrArg Block.Ram.inited hram).trans hparam
    | rod => exact (call_self _ .rod .init).2
  · exact (congrArg ParamRecord.settings (hrecord.trans (congrArg Store.buf hcall))).trans hbuf

theorem Persists.putDir (h : Persists p a) (hall motor : BitVec 8) :
    Persists (p.setRecord (ParamRecord.putDir hall motor p.record)).applyDirSeq
      ⟨{ a.live with hallDirSeq := hall, motorDirSeq := motor }, a.stored⟩ := by
  obtain ⟨hfits, hinited, hstored⟩ := h.setRecord (setField32_length ..) fun i hi => ParamRecord.putDir_field hi
  have hsettings := ParamRecord.settings_putDir h.length hall motor
  rw [← setRecord_record (p := p) (ParamRecord.putDir hall motor p.record)] at hsettings
  have hhall := congrArg Settings.hallDirSeq hsettings
  have hmotor := congrArg Settings.motorDirSeq hsettings
  refine ⟨hfits, ⟨h.inited.1, hinited⟩, hstored, ⟨h.shows.volt, h.shows.cur, hhall, ?_, ?_⟩, hhall, hmotor⟩
  · exact congrArg (fun b : BitVec 8 => b != 0) hmotor
  · exact (congrArg Settings.rod hsettings).trans h.shows.rod

theorem Persists.eraseAll (h : Persists p a) : Persists (p.eraseAll .all false) .start := by
  obtain ⟨hstore, hparam⟩ := call_self (p := p) .all .param .eraseAll
  have hwiped : paramLayout.Erased (paramLayout.wipe .all p.flash.dev).mem :=
    paramLayout.erased_wipe (fun _ => rfl) p.flash.dev
  obtain ⟨-, ⟨fill, hready⟩, hbuf⟩ := Layout.Erased.init (σ := { p.flash.store .param with dev := paramLayout.wipe .all p.flash.dev })
    hwiped h.length paramDefaults
  have hfits : Shared.Fits firmware (p.call .all .param .eraseAll).flash :=
    h.fits.update ((h.fits .param).call (c := .eraseAll) nofun .all _).fits _
  obtain ⟨hfits', hram, hmem⟩ := DevParam.call_rod .all (c := .eraseAll) hfits nofun
  have hrecord : ((p.call .all .param .eraseAll).call .all .rod .eraseAll).record = (p.call .all .param .eraseAll).record :=
    congrArg Block.Ram.buf hram
  have hcall : (p.call .all .param .eraseAll).flash.store .param = (paramLayout.init paramDefaults .all
      { p.flash.store .param with dev := paramLayout.wipe .all p.flash.dev }).store := hstore
  have hdefaults : ∀ buf, ParamRecord.settings (paramDefaults.set buf) = Persistent.defaults := fun _ => rfl
  have hsettings := (ParamRecord.settings_congr hbuf).trans (hdefaults _)
  rw [← hcall] at hready hsettings
  have hready' : paramLayout.Ready fill (((p.call .all .param .eraseAll).call .all .rod .eraseAll).flash.store .param) _ :=
    hready.of_same (by rw [store_buf, store_buf, hrecord]) (by rw [store_rt, store_rt, runtime, runtime, hram])
    (by rw [store_dev, store_dev]; exact hmem)
  have hrod : (p.eraseAll .all false) = ((p.call .all .param .eraseAll).call .all .rod .eraseAll).applyToDevices :=
    applyToDevices_call .eraseAll
  rw [hrod, Persistent.start, ← hsettings]
  refine persists_apply hfits' ⟨?_, fun i => ?_⟩ hready' (by rw [hrecord, store_buf])
  · rw [call_inited, call_inited]
    exact h.inited.1
  cases i with
  | param => exact (congrArg Block.Ram.inited hram).trans hparam
  | rod => exact (call_self _ .rod .eraseAll).2

theorem Persists.rodSave (h : Persists p a) (mm : Single) : Persists (p.rodSave .all mm) a := by
  unfold DevParam.rodSave
  rw [h.inited.2 .rod]
  refine Persists.call_rod ?_ .save
  have hfits := h.fits.update ((h.fits .rod).buf (b := setField32 (p.flash.ram .rod).buf rodPositionOffset mm)
    (setField32_length ..)) p.flash.dev
  have hrod : (Function.update p.flash.ram .rod { p.flash.ram .rod with
      buf := setField32 (p.flash.ram .rod).buf rodPositionOffset mm } .rod).inited = true := by
    rw [Function.update_self]
    exact h.inited.2 .rod
  have hparam : Function.update p.flash.ram .rod { p.flash.ram .rod with
      buf := setField32 (p.flash.ram .rod).buf rodPositionOffset mm } .param = p.flash.ram .param := by simp
  generalize Function.update p.flash.ram .rod { p.flash.ram .rod with
      buf := setField32 (p.flash.ram .rod).buf rodPositionOffset mm } = ram at hfits hrod hparam
  obtain ⟨fill, r, hready, hr⟩ := h.stored
  refine ⟨hfits, ⟨h.inited.1, fun i => ?_⟩, ⟨fill, r, ?_, hr⟩, ?_, ?_, ?_⟩
  · cases i with
    | param => exact (congrArg Block.Ram.inited hparam).trans (h.inited.2 .param)
    | rod => exact hrod
  · exact hready.of_same (congrArg Block.Ram.buf hparam) (congrArg Block.Ram.rt hparam) fun x _ => rfl
  · refine ⟨h.shows.volt, h.shows.cur, h.shows.hallInvertDir, h.shows.motorDirInvert, ?_⟩
    exact (congrArg (fun r : Block.Ram => ParamRecord.rod r.buf) hparam).trans h.shows.rod
  · exact (congrArg (fun r : Block.Ram => ParamRecord.hallDirSeq r.buf) hparam).trans h.hallDirSeq
  · exact (congrArg (fun r : Block.Ram => ParamRecord.motorDirSeq r.buf) hparam).trans h.motorDirSeq

theorem Persists.powerUp (h : Persists p a) : Persists (powerUp .all p.flash.dev) ⟨a.stored, a.stored⟩ := by
  obtain ⟨fill, r, hready, hr⟩ := h.stored
  obtain ⟨hres, -, hbuf, hready'⟩ := hready.boot paramDefaults .all
  have hup := persists_powerUp (d := p.flash.dev) hres hready' (congrArg ParamRecord.settings hbuf)
  rwa [hr] at hup

theorem persists_first {d : Device 32} (erased : paramLayout.Erased d.mem) : Persists (DevParam.powerUp .all d) .start := by
  obtain ⟨hres, ⟨fill, hready⟩, hbuf⟩ := Layout.Erased.init (σ := paramLayout.fresh d) erased (List.length_replicate ..)
    paramDefaults
  have hdefaults : ∀ buf, ParamRecord.settings (paramDefaults.set buf) = Persistent.defaults := fun _ => rfl
  have hup := persists_powerUp hres hready rfl
  rwa [(ParamRecord.settings_congr hbuf).trans (hdefaults _)] at hup

theorem Persists.step (h : Persists p a) (below : p.Below) (F : Binary32) (act : ParamAct) :
    Persists (p.step F .all act) (a.step F act) := by
  cases act with
  | powerUp => exact h.powerUp
  | init =>
    have hinit : p.init .all = (.ok, p) := if_pos h.inited.1
    show Persists (p.init .all).2 a
    rw [hinit]
    exact h
  | setVolt v => exact ⟨h.fits, h.inited, h.stored, { h.shows with volt := rfl }, h.hallDirSeq, h.motorDirSeq⟩
  | setCur c => exact ⟨h.fits, h.inited, h.stored, { h.shows with cur := rfl }, h.hallDirSeq, h.motorDirSeq⟩
  | dirSet hall motor running =>
    simp only [DevParam.step, Persistent.step, DevParam.dirSet]
    split
    · exact h
    · have hdir := h.putDir (BitVec.ofNat 8 hall) (BitVec.ofNat 8 motor)
      refine (hdir.save ?_ running).2
      have hseq : paramLayout.seqOf (p.setRecord (ParamRecord.putDir (BitVec.ofNat 8 hall) (BitVec.ofNat 8 motor)
          p.record)).applyDirSeq.record = paramLayout.seqOf p.record := by
        have hrecord : (p.setRecord (ParamRecord.putDir (BitVec.ofNat 8 hall) (BitVec.ofNat 8 motor)
            p.record)).applyDirSeq.record = _ := setRecord_record _
        rw [hrecord, Layout.seqOf, Layout.seqOf, getField32, getField32, List.getD_eq_getElem?_getD,
          List.getD_eq_getElem?_getD, ParamRecord.putDir_field rfl]
      rw [Below, hseq]
      exact below
  | save running => exact (h.save below running).2
  | saveTest running =>
    have hvolt : Persists { p with volt := nextOverTh F p.volt } ⟨{ a.live with volt := nextOverTh F a.live.volt }, a.stored⟩ :=
      ⟨h.fits, h.inited, h.stored, { h.shows with volt := congrArg (nextOverTh F) h.shows.volt }, h.hallDirSeq, h.motorDirSeq⟩
    exact (hvolt.save below running).2
  | eraseAll running =>
    cases running with
    | true => exact h
    | false => exact h.eraseAll
  | rodSave mm => exact h.rodSave mm

/-- The module from its first power-up on an erased block, as long as the numbers of the records fit. -/
abbrev Reaches (F : Binary32) (d : Device 32) (acts : List ParamAct) (p : DevParam) : Prop :=
  Run (fun p act => some (p.step F .all act)) (fun p _ => p.Below) (powerUp .all d) acts p

theorem persists_run {F : Binary32} {d : Device 32} (erased : paramLayout.Erased d.mem) {acts : List ParamAct}
    (run : Reaches F d acts p) : Persists p (acts.foldl (Persistent.step F) .start) := by
  induction run with
  | nil => exact persists_first erased
  | @snoc ls t u act _ below hstep ih =>
    cases hstep
    rw [List.foldl_append]
    exact ih.step below F act

/-- On a working flash the devices always work with the settings that the calls set, and a power-up at any point brings
    back those of the last save or erasure that was not refused; a save is refused exactly while the motor is running. -/
theorem settings_persist (F : Binary32) {d : Device 32} (erased : paramLayout.Erased d.mem) {acts : List ParamAct}
    (run : Reaches F d acts p) :
    p.Shows (acts.foldl (Persistent.step F) .start).live ∧
      (powerUp .all p.flash.dev).Shows (acts.foldl (Persistent.step F) .start).stored ∧
      (p.Below → ∀ running, (p.save .all running).1 = if running then .err else .ok) := by
  have h := persists_run erased run
  exact ⟨h.shows, h.powerUp.shows, fun below running => (h.save below running).1⟩

instance (p : DevParam) : Decidable p.Below := inferInstanceAs (Decidable (_ < _))

/-- A threshold of 26.5 V is saved, the stroke of the rod as well, and a change of the current sensor is not. -/
def savedRun : List ParamAct :=
  [.saveTest false, .rodSave 0x41200000#32, .setCur ⟨0x44BB8000#32, 10, 10⟩, .save true]

theorem settings_persist_saved : ∃ p, Reaches ieee ⟨fun _ => erasedWord, 0⟩ savedRun p ∧ p.cur.windowMs = 10 ∧
    (powerUp .all p.flash.dev).volt.overTh = 0x41D40000#32 ∧ (powerUp .all p.flash.dev).cur = CurCfg.default := by
  have hsome : (exec (guarded (fun p act => some (p.step ieee .all act)) fun p _ => p.Below)
      (powerUp .all ⟨fun _ => erasedWord, 0⟩) savedRun).isSome := by decide +kernel
  obtain ⟨p, hp⟩ := Option.isSome_iff_exists.mp hsome
  have hrun : Reaches ieee ⟨fun _ => erasedWord, 0⟩ savedRun p := Run.of_exec hp
  obtain ⟨hlive, hstored, -⟩ := settings_persist ieee (fun _ _ => rfl) hrun
  have hspec : (savedRun.foldl (Persistent.step ieee) .start).stored.volt.overTh = 0x41D40000#32 ∧
      (savedRun.foldl (Persistent.step ieee) .start).stored.cur = CurCfg.default := by decide +kernel
  refine ⟨p, hrun, congrArg CurCfg.windowMs hlive.cur, ?_, hstored.cur.trans hspec.2⟩
  exact (congrArg VoltCfg.overTh hstored.volt).trans hspec.1

end DevParam

end RodActuator.Param
