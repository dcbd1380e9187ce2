import RodActuator.Param.Attempt

/-! The flash operations that a call issues, in their order. What a call leaves of the flash is what its operations
    make of it. -/

namespace RodActuator.Param
open Nor

/-- One call of `HC32FLASH_EraseSector` or `HC32FLASH_WritedWord_Check`. -/
inductive FlashOp where
  | erase (address : Nat)
  | write (address : Nat) (data : Word)
  deriving DecidableEq, Repr

def FlashOp.apply (ok : Outcome) (d : Device 32) : FlashOp → Device 32
  | .erase address => (internalErase ok d address).1
  | .write address data => (program ok d address data).1

def applyOps (ok : Outcome) (d : Device 32) (ops : List FlashOp) : Device 32 := ops.foldl (FlashOp.apply ok) d

/-! ### The operations of a call -/

/-- `Internal_WriteBuffer` stops behind the first word that fails. -/
def writeOps (ok : Outcome) (d : Device 32) (addr : Nat) : List Word → List FlashOp
  | [] => []
  | v :: vs => .write addr v ::
      if (program ok d addr v).2 then writeOps ok (program ok d addr v).1 (addr + 4) vs else []

def openOps (cfg : Config) (σ : Store) : List FlashOp :=
  if σ.rt.currAddr + cfg.paramSize > (σ.rt.currSec + 1) * paramSectorSize then
    if (getField32 σ.buf cfg.eraseCntOffset).toNat < maxEraseLife then [.erase (σ.rt.currSec * paramSectorSize)]
    else [.erase (nextSec cfg σ.rt.currSec * paramSectorSize)]
  else []

def attemptOps (cfg : Config) (ok : Outcome) (σ : Store) : List FlashOp :=
  openOps cfg σ ++
    match openSlot cfg ok σ with
    | (none, _) => []
    | (some writeAddr, σ) => writeOps ok σ.dev writeAddr (stamp cfg σ.buf)

def saveOps (cfg : Config) (ok : Outcome) (σ : Store) : List FlashOp :=
  (saveTrace cfg ok maxWriteRetry σ).flatMap (attemptOps cfg ok)

/-- The store with which `Param_Init` saves the defaults. -/
def initStore (cfg : Config) (setDefaults : List Word → List Word) (ok : Outcome) (σ : Store) : Store where
  dev := (internalErase ok σ.dev (cfg.secStart * paramSectorSize)).1
  buf := setField32 (setField32 (setDefaults σ.buf) cfg.seqOffset 0) cfg.eraseCntOffset 1
  rt := { σ.rt with currSec := cfg.secStart, currAddr := cfg.secStart * paramSectorSize }

/-- The store before each attempt of the save of the defaults. -/
def initAttempts (cfg : Config) (setDefaults : List Word → List Word) (ok : Outcome) (σ : Store) : List Store :=
  if (scanRegion cfg σ.dev.mem).found then []
  else saveTrace cfg ok maxWriteRetry (initStore cfg setDefaults ok σ)

/-- The operations of `Param_Init`, whose configuration is accepted. -/
def initOps (cfg : Config) (setDefaults : List Word → List Word) (ok : Outcome) (σ : Store) : List FlashOp :=
  if (scanRegion cfg σ.dev.mem).found then []
  else .erase (cfg.secStart * paramSectorSize) :: saveOps cfg ok (initStore cfg setDefaults ok σ)

/-- The store after `Param_Debug_EraseAll` erased the sectors. -/
def wiped (cfg : Config) (ok : Outcome) (σ : Store) : Store :=
  { σ with dev := (sectors cfg).foldl (fun d s => (internalErase ok d (s * paramSectorSize)).1) σ.dev }

def eraseAllOps (cfg : Config) (setDefaults : List Word → List Word) (ok : Outcome) (σ : Store) : List FlashOp :=
  (sectors cfg).map (fun s => .erase (s * paramSectorSize)) ++ initOps cfg setDefaults ok (wiped cfg ok σ)

/-! ### What they make of the flash -/

section
variable {cfg : Config} {setDefaults : List Word → List Word} {ok : Outcome} {σ : Store}

@[simp] theorem applyOps_nil (d : Device 32) : applyOps ok d [] = d := rfl

@[simp] theorem applyOps_cons (d : Device 32) (op : FlashOp) (ops : List FlashOp) :
    applyOps ok d (op :: ops) = applyOps ok (op.apply ok d) ops := rfl

theorem applyOps_append (d : Device 32) (ops ops' : List FlashOp) :
    applyOps ok d (ops ++ ops') = applyOps ok (applyOps ok d ops) ops' := List.foldl_append

theorem applyOps_write (d : Device 32) (addr : Nat) (vs : List Word) :
    applyOps ok d (writeOps ok d addr vs) = (internalWriteBuffer ok d addr vs).1 := by
  unfold internalWriteBuffer
  induction vs generalizing d addr with
  | nil => rfl
  | cons v vs ih =>
    rw [writeOps, writeWords, applyOps_cons]
    split
    · exact ih _ _
    · rfl

theorem mem_openOps {op : FlashOp} (h : op ∈ openOps cfg σ) : ∃ address, op = .erase address := by
  unfold openOps at h
  split_ifs at h with hfull hlife
  · exact ⟨_, List.mem_singleton.mp h⟩
  · exact ⟨_, List.mem_singleton.mp h⟩
  · cases h

theorem mem_writeOps {op : FlashOp} {d : Device 32} {addr : Nat} {vs : List Word} (h : op ∈ writeOps ok d addr vs) :
    ∃ i < vs.length, ∃ v, op = .write (addr + 4 * i) v := by
  induction vs generalizing d addr with
  | nil => cases h
  | cons v vs ih =>
    rcases List.mem_cons.mp h with rfl | hrest
    · exact ⟨0, Nat.succ_pos _, v, rfl⟩
    · split at hrest
      · obtain ⟨i, hi, u, rfl⟩ := ih hrest
        exact ⟨i + 1, Nat.succ_lt_succ hi, u, by rw [Nat.mul_succ, Nat.add_right_comm, ← Nat.add_assoc]⟩
      · cases hrest

/-- Over erased words a write programs each word once. -/
theorem writeOps_erased {d : Device 32} {addr a : Nat} {v : Word} {vs : List Word} {before after : List FlashOp}
    (herased : ∀ i < vs.length, d.mem (addr + i * 4) = erasedWord)
    (hops : writeOps ok d addr vs = before ++ .write a v :: after) : (applyOps ok d before).mem a = erasedWord := by
  induction vs generalizing d addr before with
  | nil => simp [writeOps] at hops
  | cons u vs ih =>
    rw [writeOps] at hops
    cases before with
    | nil =>
      obtain ⟨hop, -⟩ := List.cons.inj hops
      cases hop
      simpa using herased 0 (Nat.succ_pos _)
    | cons op before =>
      obtain ⟨rfl, hrest⟩ := List.cons.inj hops
      change (applyOps ok (program ok d addr u).1 before).mem a = erasedWord
      split at hrest
      · have hlater : ∀ i < vs.length, (program ok d addr u).1.mem (addr + 4 + i * 4) = erasedWord := by
          intro i hi
          have hword := herased (i + 1) (Nat.succ_lt_succ hi)
          rw [program_mem_of_ne ok d u (by omega)]
          rwa [Nat.succ_mul, Nat.add_comm (i * 4), ← Nat.add_assoc] at hword
        exact ih hlater hrest
      · simp at hrest

theorem openSlot_dev (cfg : Config) (ok : Outcome) (σ : Store) :
    (openSlot cfg ok σ).2.dev = applyOps ok σ.dev (openOps cfg σ) := by
  unfold openSlot openOps
  dsimp only
  split_ifs <;> rfl

theorem saveAttempt_dev (cfg : Config) (ok : Outcome) (σ : Store) :
    (saveAttempt cfg ok σ).2.dev = applyOps ok σ.dev (attemptOps cfg ok σ) := by
  have hopen := openSlot_dev cfg ok σ
  unfold saveAttempt attemptOps
  rw [applyOps_append]
  rcases hslot : openSlot cfg ok σ with ⟨_ | writeAddr, σ₁⟩
  · rw [hslot] at hopen
    exact hopen
  · rw [hslot] at hopen
    dsimp only
    rw [← hopen, applyOps_write]
    split <;> rfl

theorem saveLoop_dev (cfg : Config) (ok : Outcome) (n : Nat) (σ : Store) :
    (saveLoop cfg ok n σ).2.dev = applyOps ok σ.dev ((saveTrace cfg ok n σ).flatMap (attemptOps cfg ok)) := by
  induction n generalizing σ with
  | zero => rfl
  | succ n ih =>
    cases hdone : (saveAttempt cfg ok σ).1 with
    | true =>
      rw [saveLoop_done n hdone, saveTrace_done n hdone, List.flatMap_singleton]
      exact saveAttempt_dev cfg ok σ
    | false =>
      rw [saveLoop_retry n hdone, saveTrace_retry n hdone, List.flatMap_cons, applyOps_append, ← saveAttempt_dev]
      exact ih _

theorem paramSave_dev (cfg : Config) (ok : Outcome) (σ : Store) :
    (paramSave cfg ok σ).2.dev = applyOps ok σ.dev (saveOps cfg ok σ) := saveLoop_dev cfg ok maxWriteRetry σ

theorem paramInit_store (hpos : cfg.paramSize ≠ 0) (hle : cfg.paramSize ≤ paramMaxRecordSize) (hmod : cfg.paramSize % 4 = 0) :
    (paramInit cfg setDefaults ok σ).store =
      let best := scanRegion cfg σ.dev.mem
      let loaded : Store :=
        if best.found then
          { dev := σ.dev
            buf := Nor.readWords σ.dev.mem 4 best.bestAddr (cfg.paramSize / 4)
            rt := { σ.rt with currSec := best.bestSec, currAddr := best.bestAddr } }
        else (paramSave cfg ok (initStore cfg setDefaults ok σ)).2
      { loaded with rt := updateRuntime loaded.rt .ok } := by
  have haccepted : ¬(cfg.paramSize = 0 ∨ cfg.paramSize > paramMaxRecordSize ∨ cfg.paramSize % 4 ≠ 0) := by
    rintro (hzero | hgt | hne)
    · exact hpos hzero
    · exact Nat.not_lt.mpr hle hgt
    · exact hne hmod
  rw [paramInit, if_neg haccepted]
  rfl

theorem paramInit_dev (hpos : cfg.paramSize ≠ 0) (hle : cfg.paramSize ≤ paramMaxRecordSize) (hmod : cfg.paramSize % 4 = 0) :
    (paramInit cfg setDefaults ok σ).store.dev = applyOps ok σ.dev (initOps cfg setDefaults ok σ) := by
  rw [paramInit_store hpos hle hmod]
  unfold initOps
  dsimp only
  split
  · rfl
  · exact paramSave_dev cfg ok _

theorem wiped_dev (cfg : Config) (ok : Outcome) (σ : Store) :
    (wiped cfg ok σ).dev = applyOps ok σ.dev ((sectors cfg).map fun s => .erase (s * paramSectorSize)) := by
  unfold wiped applyOps
  rw [List.foldl_map]
  rfl

end

end RodActuator.Param
