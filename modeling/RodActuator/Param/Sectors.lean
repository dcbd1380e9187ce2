import RodActuator.Lib.Transition
import RodActuator.Param.Boot
import RodActuator.Param.Log

/-! Every block stays in its sectors. Several blocks share the flash, each with its own configuration, buffer and
    runtime; whatever the flash holds and however its operations end, the pointer of a block never stands in front
    of its current sector, and that sector is one of the block's. -/

namespace RodActuator.Param
open Nor Transition

/-- A configuration that `Param_Init` accepts, with the `pSetDefaults` that fills in its record. -/
structure Block extends Config where
  setDefaults : List Word → List Word
  size_pos : paramSize ≠ 0
  size_le : paramSize ≤ paramMaxRecordSize
  size_mod : paramSize % 4 = 0
  sec_le : secEnd ≤ secStart
  defaults_length : ∀ buf : List Word, buf.length = paramSize / 4 → (setDefaults buf).length = paramSize / 4

namespace Block
variable (B : Block)

def Owns (s : Nat) : Prop := B.secEnd ≤ s ∧ s ≤ B.secStart

/-- The `n` bytes at the address `a` are in one sector of the block. -/
def Holds (a n : Nat) : Prop := ∃ s, B.Owns s ∧ s * paramSectorSize ≤ a ∧ a + n ≤ (s + 1) * paramSectorSize

def Permits : FlashOp → Prop
  | .erase address => B.Owns (address / paramSectorSize)
  | .write address _ => B.Holds address 4

/-- The current sector is one of the block's, and the pointer does not stand in front of it. -/
structure Inside (σ : Store) : Prop where
  sec : B.Owns σ.rt.currSec
  addr : σ.rt.currSec * paramSectorSize ≤ σ.rt.currAddr
  length : σ.buf.length = B.paramSize / 4

variable {B} {ok : Outcome} {σ : Store}

theorem size_le_sector (B : Block) : B.paramSize ≤ paramSectorSize := B.size_le.trans (by decide)

theorem owns_sector {s : Nat} (h : B.Owns s) : B.Owns (s * paramSectorSize / paramSectorSize) := by
  rwa [Nat.mul_div_cancel s (by decide)]

theorem owns_nextSec {s : Nat} (h : B.Owns s) : B.Owns (nextSec B.toConfig s) := nextSec_bounds h.1 h.2

theorem mem_sectors {s : Nat} (h : s ∈ sectors B.toConfig) : B.Owns s := mem_sectors_iff.mp h

theorem length_stamp (cfg : Config) (buf : List Word) : (stamp cfg buf).length = buf.length := by
  rw [stamp, setField32_length, setField32_length]

/-! ### Attempts -/

/-- What is known when an attempt starts to write; the pointer follows behind the record. -/
structure Opens (B : Block) (r : Option Nat × Store) : Prop where
  sec : B.Owns r.2.rt.currSec
  length : r.2.buf.length = B.paramSize / 4
  addr : ∀ a ∈ r.1, r.2.rt.currSec * paramSectorSize ≤ a ∧ a + B.paramSize ≤ (r.2.rt.currSec + 1) * paramSectorSize
  failed : r.1 = none → B.Inside r.2

theorem Inside.opens (h : B.Inside σ) (ok : Outcome) : B.Opens (openSlot B.toConfig ok σ) := by
  have hfirst : ∀ s : Nat, s * paramSectorSize + B.paramSize ≤ (s + 1) * paramSectorSize := by
    intro s
    rw [Nat.succ_mul]
    exact Nat.add_le_add_left B.size_le_sector _
  unfold openSlot
  dsimp only
  split_ifs with hfull hlife herase
  · refine ⟨h.sec, (setField32_length ..).trans h.length, ?_, nofun⟩
    rintro a ⟨⟩
    exact ⟨Nat.le_refl _, hfirst _⟩
  · exact ⟨h.sec, h.length, nofun, fun _ => ⟨h.sec, h.addr, h.length⟩⟩
  · refine ⟨owns_nextSec h.sec, (setField32_length ..).trans h.length, ?_, nofun⟩
    rintro a ⟨⟩
    exact ⟨Nat.le_refl _, hfirst _⟩
  · refine ⟨h.sec, h.length, ?_, nofun⟩
    rintro a ⟨⟩
    exact ⟨h.addr, Nat.not_lt.mp hfull⟩

theorem Opens.holds {r : Option Nat × Store} (h : B.Opens r) {a : Nat} (ha : a ∈ r.1) : B.Holds a B.paramSize :=
  ⟨r.2.rt.currSec, h.sec, h.addr a ha⟩

theorem Inside.attempt (h : B.Inside σ) (ok : Outcome) : B.Inside (saveAttempt B.toConfig ok σ).2 := by
  have hopens := h.opens ok
  unfold saveAttempt
  rcases hslot : openSlot B.toConfig ok σ with ⟨_ | writeAddr, σ₁⟩
  · rw [hslot] at hopens
    exact hopens.failed rfl
  · rw [hslot] at hopens
    have hbehind : σ₁.rt.currSec * paramSectorSize ≤ writeAddr + B.paramSize :=
      (hopens.addr writeAddr rfl).1.trans (Nat.le_add_right ..)
    have hlen := (length_stamp B.toConfig σ₁.buf).trans hopens.length
    dsimp only
    split
    · exact ⟨hopens.sec, hbehind, hlen⟩
    · exact ⟨hopens.sec, hbehind, hlen⟩

theorem openOps_permitted (h : B.Inside σ) : ∀ op ∈ openOps B.toConfig σ, B.Permits op := by
  intro op hop
  unfold openOps at hop
  split_ifs at hop with hfull hlife
  · rw [List.mem_singleton.mp hop]
    exact owns_sector h.sec
  · rw [List.mem_singleton.mp hop]
    exact owns_sector (owns_nextSec h.sec)
  · cases hop

theorem Inside.attempt_permitted (h : B.Inside σ) (ok : Outcome) : ∀ op ∈ attemptOps B.toConfig ok σ, B.Permits op := by
  intro op hop
  rcases List.mem_append.mp hop with hop | hop
  · exact openOps_permitted h op hop
  · have hopens := h.opens ok
    rcases hslot : openSlot B.toConfig ok σ with ⟨_ | writeAddr, σ₁⟩
    · rw [hslot] at hop
      cases hop
    · rw [hslot] at hop hopens
      obtain ⟨i, hi, v, rfl⟩ := mem_writeOps hop
      obtain ⟨hlo, hhi⟩ := hopens.addr writeAddr rfl
      have hwords : 4 * (i + 1) ≤ B.paramSize := by
        rw [length_stamp, hopens.length] at hi
        omega
      have hend : writeAddr + 4 * i + 4 ≤ writeAddr + B.paramSize := by omega
      exact ⟨σ₁.rt.currSec, hopens.sec, hlo.trans (Nat.le_add_right ..), hend.trans hhi⟩

/-! ### Calls -/

theorem Inside.saveTrace (h : B.Inside σ) (ok : Outcome) (n : Nat) :
    ∀ σ' ∈ saveTrace B.toConfig ok n σ, B.Inside σ' := by
  induction n generalizing σ with
  | zero => exact fun _ hσ' => nomatch hσ'
  | succ n ih =>
    intro σ' hσ'
    rcases List.mem_cons.mp hσ' with rfl | hrest
    · exact h
    · split at hrest
      · cases hrest
      · exact ih (h.attempt ok) σ' hrest

theorem Inside.updateRuntime (h : B.Inside σ) (res : Res) : B.Inside { σ with rt := updateRuntime σ.rt res } :=
  ⟨h.sec, h.addr, h.length⟩

theorem Inside.save (h : B.Inside σ) (ok : Outcome) : B.Inside (paramSave B.toConfig ok σ).2 := by
  refine saveLoop_induction (P := B.Inside) (Q := fun _ => B.Inside) maxWriteRetry h ?_ ?_
  · exact fun σ' h' => h'.updateRuntime .err
  · exact fun σ' _ h' => ⟨fun _ => h'.attempt ok, fun _ => h'.attempt ok⟩

theorem Inside.save_permitted (h : B.Inside σ) (ok : Outcome) : ∀ op ∈ saveOps B.toConfig ok σ, B.Permits op := by
  intro op hop
  obtain ⟨σ', hσ', hop⟩ := List.mem_flatMap.mp hop
  exact (h.saveTrace ok _ σ' hσ').attempt_permitted ok op hop

/-- The best block of a scan is in one of the sectors, and not in front of it. -/
def Scanned (B : Block) (acc : Scan) : Prop :=
  acc.found = true → B.Owns acc.bestSec ∧ acc.bestSec * paramSectorSize ≤ acc.bestAddr

theorem scanSector_scanned (m : Nat → Word) {s : Nat} (hs : B.Owns s) (fuel : Nat) {addr : Nat} {acc : Scan}
    (haddr : s * paramSectorSize ≤ addr) (hacc : B.Scanned acc) :
    B.Scanned (scanSector B.toConfig m s fuel addr acc) := by
  induction fuel generalizing addr acc with
  | zero => exact hacc
  | succ fuel ih =>
    unfold scanSector
    split_ifs with hfit hhead herased
    · refine ih (haddr.trans (Nat.le_add_right ..)) ?_
      unfold scanBlock
      dsimp only
      split
      · exact fun _ => ⟨hs, haddr⟩
      · exact hacc
    · exact hacc
    · exact ih (haddr.trans (Nat.le_add_right ..)) hacc
    · exact hacc

theorem scanRegion_scanned (B : Block) (m : Nat → Word) : B.Scanned (scanRegion B.toConfig m) := by
  have hfold : ∀ (ss : List Nat), (∀ s ∈ ss, B.Owns s) → ∀ acc, B.Scanned acc →
      B.Scanned (ss.foldl (fun acc s => scanSector B.toConfig m s (paramSectorSize / 4) (s * paramSectorSize) acc) acc) := by
    intro ss
    induction ss with
    | nil => exact fun _ _ hacc => hacc
    | cons s ss ih =>
      intro hss acc hacc
      obtain ⟨hs, hrest⟩ := List.forall_mem_cons.mp hss
      exact ih hrest _ (scanSector_scanned m hs _ (Nat.le_refl _) hacc)
  exact hfold _ (fun s hs => mem_sectors hs) _ nofun

theorem initStore_inside (hlen : σ.buf.length = B.paramSize / 4) (ok : Outcome) :
    B.Inside (initStore B.toConfig B.setDefaults ok σ) where
  sec := ⟨B.sec_le, Nat.le_refl _⟩
  addr := Nat.le_refl _
  length := by
    unfold initStore
    rw [setField32_length, setField32_length]
    exact B.defaults_length _ hlen

theorem init_inside (hlen : σ.buf.length = B.paramSize / 4) (ok : Outcome) :
    B.Inside (paramInit B.toConfig B.setDefaults ok σ).store := by
  rw [paramInit_store B.size_pos B.size_le B.size_mod]
  dsimp only
  split
  · rename_i hfound
    obtain ⟨hsec, haddr⟩ := scanRegion_scanned B σ.dev.mem hfound
    exact ⟨hsec, haddr, readWords_length ..⟩
  · exact ((initStore_inside hlen ok).save ok).updateRuntime .ok

theorem init_permitted (hlen : σ.buf.length = B.paramSize / 4) (ok : Outcome) :
    ∀ op ∈ initOps B.toConfig B.setDefaults ok σ, B.Permits op := by
  intro op hop
  unfold initOps at hop
  split at hop
  · cases hop
  · rcases List.mem_cons.mp hop with rfl | hop
    · exact owns_sector ⟨B.sec_le, Nat.le_refl _⟩
    · exact (initStore_inside hlen ok).save_permitted ok op hop

/-- The RAM of a block. -/
structure Ram where
  buf : List Word
  rt : Runtime
  inited : Bool

def Ram.store (r : Ram) (d : Device 32) : Store := ⟨d, r.buf, r.rt⟩

/-- The calls of a block that use the flash. -/
inductive Call where
  | init | save | eraseAll
  deriving DecidableEq, Repr

def call (B : Block) (ok : Outcome) (σ : Store) : Call → Store
  | .init => (paramInit B.toConfig B.setDefaults ok σ).store
  | .save => (paramSave B.toConfig ok σ).2
  | .eraseAll => (paramDebugEraseAll B.toConfig B.setDefaults ok σ).store

def callOps (B : Block) (ok : Outcome) (σ : Store) : Call → List FlashOp
  | .init => initOps B.toConfig B.setDefaults ok σ
  | .save => saveOps B.toConfig ok σ
  | .eraseAll => eraseAllOps B.toConfig B.setDefaults ok σ

/-- The store before every attempt of a call to write a record. -/
def callAttempts (B : Block) (ok : Outcome) (σ : Store) : Call → List Store
  | .init => initAttempts B.toConfig B.setDefaults ok σ
  | .save => saveTrace B.toConfig ok maxWriteRetry σ
  | .eraseAll => initAttempts B.toConfig B.setDefaults ok (wiped B.toConfig ok σ)

theorem call_dev (B : Block) (ok : Outcome) (σ : Store) (c : Call) :
    (B.call ok σ c).dev = applyOps ok σ.dev (B.callOps ok σ c) := by
  cases c with
  | init => exact paramInit_dev B.size_pos B.size_le B.size_mod
  | save => exact paramSave_dev B.toConfig ok σ
  | eraseAll =>
    simp only [callOps, eraseAllOps, applyOps_append, ← wiped_dev]
    exact paramInit_dev B.size_pos B.size_le B.size_mod

/-- A call can be made with the buffer of the block, a save only once the block is initialised. -/
structure Fits (B : Block) (r : Ram) : Prop where
  length : r.buf.length = B.paramSize / 4
  inside : r.inited = true → ∀ d, B.Inside (r.store d)

section
variable {r : Ram} {c : Call}

theorem Inside.fits (h : B.Inside σ) : B.Fits ⟨σ.buf, σ.rt, true⟩ :=
  ⟨h.length, fun _ _ => ⟨h.sec, h.addr, h.length⟩⟩

theorem Fits.edit (h : B.Fits r) (f : Nat → Word) : B.Fits { r with buf := r.buf.mapIdx fun k _ => f k } := by
  have hlen : (r.buf.mapIdx fun k _ => f k).length = B.paramSize / 4 := List.length_mapIdx.trans h.length
  refine ⟨hlen, fun hinited d => ?_⟩
  have hinside := h.inside hinited d
  exact ⟨hinside.sec, hinside.addr, hlen⟩

theorem Fits.call (h : B.Fits r) (hsave : c = .save → r.inited = true) (ok : Outcome) (d : Device 32) :
    B.Inside (B.call ok (r.store d) c) := by
  cases c with
  | init => exact init_inside h.length ok
  | save => exact (h.inside (hsave rfl) d).save ok
  | eraseAll => exact init_inside (σ := wiped B.toConfig ok (r.store d)) h.length ok

theorem Fits.permitted (h : B.Fits r) (hsave : c = .save → r.inited = true) (ok : Outcome) (d : Device 32) :
    ∀ op ∈ B.callOps ok (r.store d) c, B.Permits op := by
  cases c with
  | init => exact init_permitted h.length ok
  | save => exact (h.inside (hsave rfl) d).save_permitted ok
  | eraseAll =>
    intro op hop
    rcases List.mem_append.mp hop with hop | hop
    · obtain ⟨s, hs, rfl⟩ := List.mem_map.mp hop
      exact owns_sector (mem_sectors hs)
    · exact init_permitted (σ := wiped B.toConfig ok (r.store d)) h.length ok op hop

theorem initAttempts_inside (hlen : σ.buf.length = B.paramSize / 4) (ok : Outcome) :
    ∀ σ' ∈ initAttempts B.toConfig B.setDefaults ok σ, B.Inside σ' := by
  intro σ' hσ'
  unfold initAttempts at hσ'
  split at hσ'
  · cases hσ'
  · exact (initStore_inside hlen ok).saveTrace ok _ σ' hσ'

theorem Fits.attempts (h : B.Fits r) (hsave : c = .save → r.inited = true) (ok : Outcome) (d : Device 32) :
    ∀ σ' ∈ B.callAttempts ok (r.store d) c, B.Inside σ' := by
  cases c with
  | init => exact initAttempts_inside h.length ok
  | save => exact (h.inside (hsave rfl) d).saveTrace ok _
  | eraseAll => exact initAttempts_inside (σ := wiped B.toConfig ok (r.store d)) h.length ok

end

/-! ### What the operations leave alone -/

theorem Permits.apply {op : FlashOp} (h : B.Permits op) (ok : Outcome) (d : Device 32) {x : Nat}
    (hx : ¬B.Owns (x / paramSectorSize)) : (op.apply ok d).mem x = d.mem x := by
  cases op with
  | erase address =>
    have hne : x / paramSectorSize ≠ address / paramSectorSize := fun heq => hx (heq ▸ h)
    exact erase_mem_of_not ok d (by simp [hne])
  | write address data =>
    obtain ⟨s, hs, hlo, hhi⟩ := h
    refine program_mem_of_ne ok d data ?_
    rintro rfl
    have hsec : x / paramSectorSize = s := Nat.div_eq_of_lt_le hlo (by omega)
    exact hx (hsec ▸ hs)

theorem applyOps_outside {ops : List FlashOp} (h : ∀ op ∈ ops, B.Permits op) (ok : Outcome) (d : Device 32) {x : Nat}
    (hx : ¬B.Owns (x / paramSectorSize)) : (applyOps ok d ops).mem x = d.mem x := by
  induction ops generalizing d with
  | nil => rfl
  | cons op ops ih =>
    obtain ⟨hop, hrest⟩ := List.forall_mem_cons.mp h
    rw [applyOps_cons, ih hrest, hop.apply ok d hx]

end Block

/-! ### The shared flash -/

/-- The flash and the blocks that share it. -/
structure Shared (ι : Type) where
  dev : Device 32
  ram : ι → Block.Ram

namespace Shared

/-- A call of a block, a change of its record by the program, and a reset of the processor. -/
inductive Label (ι : Type) where
  | call (i : ι) (c : Block.Call)
  | edit (i : ι) (f : Nat → Word)
  | reset

variable {ι : Type}

def store (m : Shared ι) (i : ι) : Store := (m.ram i).store m.dev

/-- After a reset the RAM is zero. -/
def start (B : ι → Block) (d : Device 32) : Shared ι :=
  ⟨d, fun i => ⟨List.replicate ((B i).paramSize / 4) 0, ⟨0, 0, 0, .ok⟩, false⟩⟩

def Fits (B : ι → Block) (m : Shared ι) : Prop := ∀ i, (B i).Fits (m.ram i)

theorem fits_start (B : ι → Block) (d : Device 32) : Fits B (start B d) := fun _ => ⟨List.length_replicate .., nofun⟩

variable [DecidableEq ι]

def put (m : Shared ι) (i : ι) (σ : Store) : Shared ι := ⟨σ.dev, Function.update m.ram i ⟨σ.buf, σ.rt, true⟩⟩

def step (B : ι → Block) (ok : Outcome) (m : Shared ι) : Label ι → Option (Shared ι)
  | .call i c => if c = .save → (m.ram i).inited = true then some (m.put i ((B i).call ok (m.store i) c)) else none
  | .edit i f => some { m with
      ram := Function.update m.ram i { m.ram i with buf := (m.ram i).buf.mapIdx fun k _ => f k } }
  | .reset => some (start B m.dev)

variable {B : ι → Block} {ok : Outcome} {m m' : Shared ι}

theorem step_call {i : ι} {c : Block.Call} (h : step B ok m (.call i c) = some m') :
    (c = .save → (m.ram i).inited = true) ∧ m' = m.put i ((B i).call ok (m.store i) c) := by
  simp only [step] at h
  split at h
  · rename_i hsave
    exact ⟨hsave, (Option.some.inj h).symm⟩
  · cases h

theorem Fits.update (h : Fits B m) {i : ι} {r : Block.Ram} (hr : (B i).Fits r) (d : Device 32) :
    Fits B ⟨d, Function.update m.ram i r⟩ := by
  intro j
  rcases eq_or_ne j i with rfl | hne
  · simpa using hr
  · simpa [hne] using h j

theorem Fits.step (h : Fits B m) {l : Label ι} (hstep : step B ok m l = some m') : Fits B m' := by
  cases l with
  | call i c =>
    obtain ⟨hsave, rfl⟩ := step_call hstep
    exact h.update ((h i).call hsave ok m.dev).fits _
  | edit i f =>
    cases hstep
    exact h.update ((h i).edit f) _
  | reset =>
    cases hstep
    exact fits_start B m.dev

end Shared

/-! ### The blocks of the program -/

/-- `s_param_config`: a `ParamRecord_t` is head magic, sequence number, erase count, four words of the voltage, two
    and two bytes of the current sensor, nine words of the rod, checksum and tail magic; it is stored in the
    sectors 62 and 61. -/
def paramConfig : Config where
  paramSize := 84
  magicHead := 0x55AA55AA#32
  magicTail := 0xAA44AA44#32
  checksumOffset := 76
  seqOffset := 4
  eraseCntOffset := 8
  secStart := 62
  secEnd := 61

/-- `Param_SetDefaults`. -/
def paramSetDefaults (_ : List Word) : List Word :=
  [paramConfig.magicHead, 0, 0, 0x41D00000#32, 0x41A00000#32, 0x3F800000#32, 500, 0x447A0000#32, 0x001E001E#32, 0,
    0x3F800000#32, 0x3F800000#32, 0x41C00000#32, 0x41C00000#32, 0, 0x41C80000#32, 0x41F451EC#32, 0x41400000#32,
    0x40400000#32, 0, paramConfig.magicTail]

theorem length_paramSetDefaults (buf : List Word) : (paramSetDefaults buf).length = paramConfig.paramSize / 4 := rfl

theorem length_rodSetDefaults (buf : List Word) : (rodSetDefaults buf).length = rodLayout.paramSize / 4 := rfl

/-- The slow block with the parameters and the fast one with the stroke of the rod. -/
inductive FlashBlock where
  | param | rod
  deriving DecidableEq, Repr

def paramBlock : Block where
  toConfig := paramConfig
  setDefaults := paramSetDefaults
  size_pos := by decide
  size_le := by decide
  size_mod := by decide
  sec_le := by decide
  defaults_length buf _ := length_paramSetDefaults buf

def rodBlock : Block where
  toConfig := rodLayout.toConfig
  setDefaults := rodSetDefaults
  size_pos := by decide
  size_le := by decide
  size_mod := by decide
  sec_le := by decide
  defaults_length buf _ := length_rodSetDefaults buf

def firmware : FlashBlock → Block
  | .param => paramBlock
  | .rod => rodBlock

theorem firmware_apart {i j : FlashBlock} (hne : j ≠ i) {s : Nat} (hj : (firmware j).Owns s) : ¬(firmware i).Owns s := by
  rintro ⟨hlo, hhi⟩
  obtain ⟨hlo', hhi'⟩ := hj
  cases i <;> cases j
  · exact hne rfl
  · exact absurd (hlo.trans hhi') (by decide)
  · exact absurd (hlo'.trans hhi) (by decide)
  · exact hne rfl

open Shared in
/-- In every run of the blocks that share a flash, what a call does to the flash is in the sectors of its block: each
    sector that it erases, each word that it programs, and each record, which is in one sector; so the two blocks of
    the program leave each other's flash as it is. -/
theorem stores_in_their_sectors :
    (∀ {ι : Type} [DecidableEq ι] (B : ι → Block) (ok : Outcome) (d : Device 32) (ls : List (Label ι)) (m m' : Shared ι)
      (i : ι) (c : Block.Call), Run (step B ok) (fun _ _ => True) (start B d) ls m → step B ok m (.call i c) = some m' →
        m'.dev = applyOps ok m.dev ((B i).callOps ok (m.store i) c) ∧
        (∀ a, .erase a ∈ (B i).callOps ok (m.store i) c → (B i).Owns (a / paramSectorSize)) ∧
        (∀ a v, .write a v ∈ (B i).callOps ok (m.store i) c → (B i).Holds a 4) ∧
        ∀ σ ∈ (B i).callAttempts ok (m.store i) c, ∀ a ∈ (openSlot (B i).toConfig ok σ).1,
          (B i).Holds a (B i).paramSize) ∧
    ∀ (ok : Outcome) (d : Device 32) (ls : List (Label FlashBlock)) (m m' : Shared FlashBlock) (i : FlashBlock)
      (c : Block.Call), Run (step firmware ok) (fun _ _ => True) (start firmware d) ls m →
        step firmware ok m (.call i c) = some m' →
        ∀ j ≠ i, ∀ x, (firmware j).Owns (x / paramSectorSize) → m'.dev.mem x = m.dev.mem x := by
  have hfits : ∀ {ι : Type} [DecidableEq ι] {B : ι → Block} {ok : Outcome} {d : Device 32} {ls : List (Label ι)}
      {m : Shared ι}, Run (step B ok) (fun _ _ => True) (start B d) ls m → Fits B m := by
    intro ι _ B ok d ls m run
    exact run.invariant (fits_start B d) fun _ _ _ h _ hstep => h.step hstep
  constructor
  · intro ι _ B ok d ls m m' i c run hstep
    obtain ⟨hsave, rfl⟩ := step_call hstep
    have hpermits := (hfits run i).permitted hsave ok m.dev
    refine ⟨(B i).call_dev ok _ c, fun a ha => hpermits _ ha, fun a v ha => hpermits _ ha, fun σ hσ a ha => ?_⟩
    exact (((hfits run i).attempts hsave ok m.dev σ hσ).opens ok).holds ha
  · intro ok d ls m m' i c run hstep j hj x hx
    obtain ⟨hsave, rfl⟩ := step_call hstep
    have hpermits := (hfits run i).permitted hsave ok m.dev
    have hdev : (m.put i ((firmware i).call ok (m.store i) c)).dev =
        applyOps ok m.dev ((firmware i).callOps ok (m.store i) c) := (firmware i).call_dev ok _ c
    rw [hdev]
    exact Block.applyOps_outside hpermits ok m.dev (firmware_apart hj hx)

open Shared in
/-- The first boot of both blocks; a program of the save of the rod that follows fails. -/
theorem stores_in_their_sectors_boot :
    ∃ m m', exec (guarded (step firmware (missing 30)) fun _ _ => True) (start firmware ⟨fun _ => erasedWord, 0⟩)
        [.call .param .init, .call .rod .init] = some m ∧
      step firmware (missing 30) m (.call .rod .save) = some m' ∧
      m'.dev = applyOps (missing 30) m.dev (rodBlock.callOps (missing 30) (m.store .rod) .save) ∧
      m'.dev.mem (62 * paramSectorSize) = paramConfig.magicHead := by
  obtain ⟨m, hm, hinited, hmem⟩ : ∃ m, exec (guarded (step firmware (missing 30)) fun _ _ => True)
      (start firmware ⟨fun _ => erasedWord, 0⟩) [.call .param .init, .call .rod .init] = some m ∧
      (m.ram .rod).inited = true ∧ m.dev.mem (62 * paramSectorSize) = paramConfig.magicHead :=
    exists_of_any (by decide +kernel)
  have hstep : step firmware (missing 30) m (.call .rod .save) =
      some (m.put .rod (rodBlock.call (missing 30) (m.store .rod) .save)) := if_pos fun _ => hinited
  have hrun := Run.of_exec hm
  refine ⟨m, _, hm, hstep, (stores_in_their_sectors.1 _ _ _ _ _ _ _ _ hrun hstep).1, ?_⟩
  rw [stores_in_their_sectors.2 _ _ _ _ _ _ _ hrun hstep .param (by decide) _ (by unfold Block.Owns; decide), hmem]

end RodActuator.Param
