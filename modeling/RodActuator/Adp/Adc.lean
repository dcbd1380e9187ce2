import RodActuator.Lib.Binary32
import RodActuator.Lib.FixedArray

/-! The ADC driver (`Adp/hc32_drv_adc.c`). At each conversion the interrupt takes the raw value of every channel, as a
    voltage into a ring and raw into the window of a sliding mean. -/

namespace RodActuator.Adp
open Binary32 FixedArray

/-- The channel and the conversion of `adc_drv_ch_t`. -/
structure AdcDrvCh where
  channel : BitVec 8
  gain : Single
  offset : Single
  abs : Bool
  deriving DecidableEq, Repr

def adcDrvRingSize : Nat := 256
def adcMeanWindowSamples : Nat := 20
def hc32AdcMaxInst : Nat := 4

/-- `ADC_VREF` of 3.3 V. -/
def adcVref : Single := 0x40533333#32
def adcRes : Nat := 12

structure AdcDrvInst where
  ch : AdcDrvCh
  ring : Fin adcDrvRingSize → Single
  writeIdx : BitVec 16
  count : BitVec 16
  latest : Single
  latestRaw : BitVec 16
  sampleCount : BitVec 32
  meanWin : Fin adcMeanWindowSamples → BitVec 32
  meanSum : BitVec 32
  meanIdx : BitVec 16
  meanCnt : BitVec 16

namespace AdcDrvInst

def init (ch : AdcDrvCh) : AdcDrvInst where
  ch := ch
  ring := fun _ => zero
  writeIdx := 0
  count := 0
  latest := zero
  latestRaw := 0
  sampleCount := 0
  meanWin := fun _ => 0
  meanSum := 0
  meanIdx := 0
  meanCnt := 0

/-- A raw value in the unit of the channel. -/
def toValue (F : Binary32) (ch : AdcDrvCh) (raw : BitVec 16) : Single :=
  let val := F.add (F.mul (F.div (F.mul (F.ofInt raw.toNat) adcVref) (F.ofInt (2 ^ adcRes))) ch.gain) ch.offset
  if ch.abs && F.lt val zero then val ^^^ 0x80000000#32 else val

/-- The index behind one, in unsigned arithmetic of 32 bits. -/
def nextIdx (size : Nat) (idx : BitVec 16) : BitVec 16 :=
  ((idx.setWidth 32 + 1) % BitVec.ofNat 32 size).setWidth 16

/-- The window of the mean: once it is full the oldest value is taken off the sum before the newest is added. -/
def meanPush (raw : BitVec 16) (p : AdcDrvInst) : Option AdcDrvInst :=
  if p.meanCnt < BitVec.ofNat 16 adcMeanWindowSamples then
    (store p.meanWin p.meanIdx.toNat (raw.setWidth 32)).map fun meanWin =>
      { p with
        meanSum := p.meanSum + raw.setWidth 32
        meanWin := meanWin
        meanIdx := nextIdx adcMeanWindowSamples p.meanIdx
        meanCnt := p.meanCnt + 1 }
  else
    (load p.meanWin p.meanIdx.toNat).bind fun oldest =>
      (store p.meanWin p.meanIdx.toNat (raw.setWidth 32)).map fun meanWin =>
        { p with
          meanSum := p.meanSum - oldest + raw.setWidth 32
          meanWin := meanWin
          meanIdx := nextIdx adcMeanWindowSamples p.meanIdx }

/-- What the interrupt does with one instance. -/
def sample (F : Binary32) (raw : BitVec 16) (p : AdcDrvInst) : Option AdcDrvInst :=
  let val := toValue F p.ch raw
  (store p.ring p.writeIdx.toNat val).bind fun ring =>
    meanPush raw { p with
      latestRaw := raw
      sampleCount := p.sampleCount + 1
      latest := val
      ring := ring
      writeIdx := nextIdx adcDrvRingSize p.writeIdx
      count := if p.count < BitVec.ofNat 16 adcDrvRingSize then p.count + 1 else p.count }

/-- The integer mean that `AdcDrv_GetMean` converts. -/
def average (p : AdcDrvInst) : BitVec 16 := (p.meanSum / p.meanCnt.setWidth 32).setWidth 16

/-- Copies the newest `n` values, the newest first. -/
def copyRing (p : AdcDrvInst) (n : BitVec 16) (buf : Nat → Single) : Option (Nat → Single) :=
  (List.range n.toNat).foldlM (fun buf i =>
    let idx : BitVec 16 := ((p.writeIdx.setWidth 32 + BitVec.ofNat 32 adcDrvRingSize - 1 - BitVec.ofNat 32 i) %
      BitVec.ofNat 32 adcDrvRingSize).setWidth 16
    (load p.ring idx.toNat).map fun val => Function.update buf i val) buf

end AdcDrvInst

/-- The values of the channels after a conversion, as `ADC_GetValue` reads them. -/
abbrev Conversion := BitVec 8 → BitVec 16

/-- `AdcDrv_ADC1_IRQHandler`: every instance in turn. -/
def adcIrqHandler (F : Binary32) (value : Conversion) : List AdcDrvInst → Option (List AdcDrvInst)
  | [] => some []
  | p :: insts =>
    (p.sample F (value p.ch.channel)).bind fun p => (adcIrqHandler F value insts).map fun insts => p :: insts

/-- `AdcDrv_GetMean`. -/
def adcGetMean (F : Binary32) (insts : List AdcDrvInst) (id : BitVec 8) : Single :=
  match insts[id.toNat]? with
  | none => zero
  | some p => if p.meanCnt = 0 then zero else AdcDrvInst.toValue F p.ch p.average

/-- `AdcDrv_ReadRing` into a buffer: the number of values and the buffer. -/
def adcReadRing (insts : List AdcDrvInst) (id : BitVec 8) (buf : Nat → Single) (max : BitVec 16) :
    Option (BitVec 16 × (Nat → Single)) :=
  match insts[id.toNat]? with
  | none => some (0, buf)
  | some p =>
    if max = 0 then some (0, buf)
    else
      let n := if p.count < max then p.count else max
      (p.copyRing n buf).map fun buf => (n, buf)

/-- The channels that the board has, and their numbers in the converter. -/
def hc32AdcChMap : List (BitVec 8 × BitVec 8) := [(4, 4), (6, 6)]

/-- `hc32_adc_init` at power-up with the table of the device, or its error code. -/
def hc32AdcInit (table : List AdcDrvCh) : Except Int (List AdcDrvInst) :=
  if table.length = 0 ∨ hc32AdcMaxInst < table.length then .error (-1)
  else table.mapM fun cfg =>
    match hc32AdcChMap.find? fun map => map.1 == cfg.channel with
    | none => .error (-2)
    | some map => .ok (AdcDrvInst.init { cfg with channel := map.2 })

/-- The channels of `Dev/dev_adc/dev_adc.c`: the voltage by 31.3, and the output of the current sensor. -/
def adcChTable : List AdcDrvCh := [⟨4, 0x41FA6666#32, zero, false⟩, ⟨6, one, zero, false⟩]

end RodActuator.Adp
