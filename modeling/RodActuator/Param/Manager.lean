import RodActuator.Lib.Nor

/-! The flash parameter store (`Utils/param_manager.c`). Records of `paramSize` bytes are appended to
    the sectors `secStart` down to `secEnd`; `paramInit` scans them for the valid record with the
    largest sequence number, `paramSave` appends the buffer with the next sequence number. The buffer
    is the caller's parameter struct as words; byte offsets of fields are multiples of 4. -/

namespace RodActuator.Param

abbrev Word := BitVec 32

def erasedWord : Word := 0xFFFFFFFF#32

def maxEraseLife : Nat := 10000
def maxWriteRetry : Nat := 7
def paramSectorSize : Nat := 0x2000
def paramMaxRecordSize : Nat := 256

/-- Return codes (`PARAM_OK` 0, `PARAM_ERR` -1, `PARAM_ERR_INVD_PARAM` -3, `PARAM_ERR_NOT_RDY` -5). -/
inductive Res where
  | ok | err | errInvdParam | errNotRdy
  deriving DecidableEq, Repr

/-- `Param_Config_t` without its buffer pointer. -/
structure Config where
  paramSize : Nat
  magicHead : Word
  magicTail : Word
  checksumOffset : Nat
  seqOffset : Nat
  eraseCntOffset : Nat
  secStart : Nat
  secEnd : Nat
  deriving DecidableEq, Repr

structure Runtime where
  currSec : Nat
  currAddr : Nat
  saveCount : Word
  lastRes : Res
  deriving DecidableEq, Repr

/-- Everything a call reads and writes: the flash, the parameter buffer and the runtime. -/
structure Store where
  dev : Nor.Device 32
  buf : List Word
  rt : Runtime

/-! ### Internal helpers -/

def getField32 (buf : List Word) (offset : Nat) : Word := buf.getD (offset / 4) 0

def setField32 (buf : List Word) (offset : Nat) (value : Word) : List Word := buf.set (offset / 4) value

/-- One shift of the reflected CRC-32 remainder. -/
def crcShift (crc : Word) : Word := (crc >>> 1) ^^^ (0xEDB88320#32 &&& (0 - (crc &&& 1)))

def crcByte (crc : Word) (b : BitVec 8) : Word := crcShift^[8] (crc ^^^ b.setWidth 32)

def wordBytes (v : Word) : List (BitVec 8) :=
  [v.setWidth 8, (v >>> 8).setWidth 8, (v >>> 16).setWidth 8, (v >>> 24).setWidth 8]

def calcParamCRC (buf : List Word) (paramSize checksumOffset : Nat) : Word :=
  if checksumOffset > paramSize then 0
  else ((buf.flatMap wordBytes).take checksumOffset).foldl crcByte 0xFFFFFFFF#32 ^^^ 0xFFFFFFFF#32

def updateRuntime (rt : Runtime) (res : Res) : Runtime :=
  { rt with lastRes := res, saveCount := if res = .ok then rt.saveCount + 1 else rt.saveCount }

def internalErase (ok : Nor.Outcome) (d : Nor.Device 32) (address : Nat) : Nor.Device 32 × Bool :=
  Nor.erase ok d fun x => x / paramSectorSize == address / paramSectorSize

def internalWriteBuffer (ok : Nor.Outcome) (d : Nor.Device 32) (addr : Nat) (buffer : List Word) :
    Nor.Device 32 × Bool :=
  Nor.writeWords ok 4 d addr buffer

def internalVerifyBuffer (d : Nor.Device 32) (addr : Nat) (buffer : List Word) : Bool :=
  Nor.readWords d.mem 4 addr buffer.length == buffer

/-! ### Param_Save -/

/-- The sector after a worn out one, with wrap from `secEnd` to `secStart`. -/
def nextSec (cfg : Config) (sec : Nat) : Nat := if sec ≤ cfg.secEnd then cfg.secStart else sec - 1

/-- Where the next attempt writes. When the record does not fit, the current sector is erased, or a
    worn out sector is left for the next one. `none`: the erase failed. -/
def openSlot (cfg : Config) (ok : Nor.Outcome) (σ : Store) : Option Nat × Store :=
  if σ.rt.currAddr + cfg.paramSize > (σ.rt.currSec + 1) * paramSectorSize then
    let eraseCnt := getField32 σ.buf cfg.eraseCntOffset
    if eraseCnt.toNat < maxEraseLife then
      let e := internalErase ok σ.dev (σ.rt.currSec * paramSectorSize)
      if e.2 then
        (some (σ.rt.currSec * paramSectorSize),
          { σ with dev := e.1, buf := setField32 σ.buf cfg.eraseCntOffset (eraseCnt + 1) })
      else (none, { σ with dev := e.1 })
    else
      let sec := nextSec cfg σ.rt.currSec
      (some (sec * paramSectorSize),
        { dev := (internalErase ok σ.dev (sec * paramSectorSize)).1
          buf := setField32 σ.buf cfg.eraseCntOffset 1
          rt := { σ.rt with currSec := sec } })
  else (some σ.rt.currAddr, σ)

/-- Steps the sequence number of the buffer and renews its checksum. -/
def stamp (cfg : Config) (buf : List Word) : List Word :=
  let buf := setField32 buf cfg.seqOffset (getField32 buf cfg.seqOffset + 1)
  setField32 buf cfg.checksumOffset (calcParamCRC buf cfg.paramSize cfg.checksumOffset)

/-- The body of the retry loop; `true` when the record was written and verified. -/
def saveAttempt (cfg : Config) (ok : Nor.Outcome) (σ : Store) : Bool × Store :=
  match openSlot cfg ok σ with
  | (none, σ) => (false, σ)
  | (some writeAddr, σ) =>
    let buf := stamp cfg σ.buf
    let w := internalWriteBuffer ok σ.dev writeAddr buf
    let rt := { σ.rt with currAddr := writeAddr + cfg.paramSize }
    if w.2 && internalVerifyBuffer w.1 writeAddr buf then
      (true, { dev := w.1, buf := buf, rt := updateRuntime rt .ok })
    else (false, { dev := w.1, buf := buf, rt := rt })

def saveLoop (cfg : Config) (ok : Nor.Outcome) : Nat → Store → Res × Store
  | 0, σ => (.err, { σ with rt := updateRuntime σ.rt .err })
  | n + 1, σ =>
    if (saveAttempt cfg ok σ).1 then (.ok, (saveAttempt cfg ok σ).2)
    else saveLoop cfg ok n (saveAttempt cfg ok σ).2

def paramSave (cfg : Config) (ok : Nor.Outcome) (σ : Store) : Res × Store :=
  saveLoop cfg ok maxWriteRetry σ

/-! ### Param_Init -/

structure Scan where
  maxSeq : Word
  bestAddr : Nat
  bestSec : Nat
  found : Bool
  deriving DecidableEq, Repr

/-- Tail magic and checksum of the block at `addr`; its head magic is already known to match. -/
def checkBlock (cfg : Config) (m : Nat → Word) (addr : Nat) : Bool :=
  let block := Nor.readWords m 4 addr (cfg.paramSize / 4)
  m (addr + cfg.paramSize - 4) == cfg.magicTail &&
    calcParamCRC block cfg.paramSize cfg.checksumOffset == getField32 block cfg.checksumOffset

/-- Takes the block at `addr` if it is the first found or newer than the best so far. -/
def scanBlock (cfg : Config) (m : Nat → Word) (s addr : Nat) (acc : Scan) : Scan :=
  let seq := m (addr + cfg.seqOffset)
  if checkBlock cfg m addr && (!acc.found || acc.maxSeq < seq) then
    { maxSeq := seq, bestAddr := addr, bestSec := s, found := true }
  else acc

/-- The scan of one sector: a block with the head magic is stepped over as a whole, an erased word
    ends the sector, any other word is stepped over alone. -/
def scanSector (cfg : Config) (m : Nat → Word) (s : Nat) : Nat → Nat → Scan → Scan
  | 0, _, acc => acc
  | fuel + 1, addr, acc =>
    if addr + cfg.paramSize ≤ (s + 1) * paramSectorSize then
      if m addr = cfg.magicHead then
        scanSector cfg m s fuel (addr + cfg.paramSize) (scanBlock cfg m s addr acc)
      else if m addr = erasedWord then acc
      else scanSector cfg m s fuel (addr + 4) acc
    else acc

def sectors (cfg : Config) : List Nat :=
  (List.range (cfg.secStart + 1 - cfg.secEnd)).map (cfg.secStart - ·)

/-- The scan of the whole region. A sector has `paramSectorSize / 4` words, so the scan of a sector
    takes at most as many steps. -/
def scanRegion (cfg : Config) (m : Nat → Word) : Scan :=
  (sectors cfg).foldl (fun acc s => scanSector cfg m s (paramSectorSize / 4) (s * paramSectorSize) acc)
    { maxSeq := 0, bestAddr := 0, bestSec := cfg.secStart, found := false }

/-- What `Param_Init` leaves: its return code, whether it called `pSetDefaults`, and the store. -/
structure Init where
  res : Res
  defaults : Bool
  store : Store

def paramInit (cfg : Config) (setDefaults : List Word → List Word) (ok : Nor.Outcome) (σ : Store) : Init :=
  if cfg.paramSize = 0 ∨ cfg.paramSize > paramMaxRecordSize ∨ cfg.paramSize % 4 ≠ 0 then
    ⟨.errInvdParam, false, σ⟩
  else
    let best := scanRegion cfg σ.dev.mem
    let loaded : Store :=
      if best.found then
        { dev := σ.dev
          buf := Nor.readWords σ.dev.mem 4 best.bestAddr (cfg.paramSize / 4)
          rt := { σ.rt with currSec := best.bestSec, currAddr := best.bestAddr } }
      else
        let buf := setDefaults σ.buf
        let buf := setField32 (setField32 buf cfg.seqOffset 0) cfg.eraseCntOffset 1
        (paramSave cfg ok
          { dev := (internalErase ok σ.dev (cfg.secStart * paramSectorSize)).1
            buf := buf
            rt := { σ.rt with currSec := cfg.secStart, currAddr := cfg.secStart * paramSectorSize } }).2
    ⟨.ok, !best.found, { loaded with rt := updateRuntime loaded.rt .ok }⟩

/-! ### Param_Debug_EraseAll -/

def paramDebugEraseAll (cfg : Config) (setDefaults : List Word → List Word) (ok : Nor.Outcome) (σ : Store) : Init :=
  paramInit cfg setDefaults ok
    { σ with dev := (sectors cfg).foldl (fun d s => (internalErase ok d (s * paramSectorSize)).1) σ.dev }

end RodActuator.Param
