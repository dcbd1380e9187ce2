import RodActuator.Param.Attempt

/-! Reboots and saves. A boot runs `paramInit` with fresh RAM: it loads the best record, or saves the
    defaults when the scan finds none. A save stores the caller's payload in the words of the buffer that
    are not the store's own, which no attempt changes. -/

namespace RodActuator.Param
open Nor

namespace Layout
variable (L : Layout)

/-- A `pSetDefaults` that keeps both magics in the buffer. -/
structure Defaults where
  set : List Word → List Word
  magic : ∀ b : List Word, b.length = L.words → L.Magic (set b)

/-- Word indices that the store itself uses. -/
def isField (i : Nat) : Bool :=
  i == 0 || i == L.seqOffset / 4 || i == L.eraseCntOffset / 4 || i == L.checksumOffset / 4 || i + 1 == L.words

/-- The caller fills in the words of the buffer that are not the store's own. -/
def setPayload (f : Nat → Word) (b : List Word) : List Word :=
  b.mapIdx fun i w => if L.isField i then w else f i

def fresh (d : Device 32) : Store := ⟨d, List.replicate L.words 0, ⟨0, 0, 0, .ok⟩⟩

def init (D : L.Defaults) (ok : Outcome) (σ : Store) : Init := paramInit L.toConfig D.set ok σ

/-- A reboot: `Param_Init` with fresh RAM and runtime. -/
def boot (D : L.Defaults) (ok : Outcome) (σ : Store) : Init := L.init D ok (L.fresh σ.dev)

/-- The flash after `Param_Debug_EraseAll` erased the region. -/
def wipe (ok : Outcome) (d : Device 32) : Device 32 :=
  (sectors L.toConfig).foldl (fun d s => (internalErase ok d (s * paramSectorSize)).1) d

def eraseAll (D : L.Defaults) (ok : Outcome) (σ : Store) : Init := paramDebugEraseAll L.toConfig D.set ok σ

/-- The caller stores its payload in the buffer and calls `Param_Save`. -/
def save (ok : Outcome) (f : Nat → Word) (σ : Store) : Res × Store :=
  paramSave L.toConfig ok { σ with buf := L.setPayload f σ.buf }

def attempts (ok : Outcome) (f : Nat → Word) (σ : Store) : List Store :=
  saveTrace L.toConfig ok maxWriteRetry { σ with buf := L.setPayload f σ.buf }

/-! ### Buffers and boots -/

theorem getElem?_setPayload (f : Nat → Word) (b : List Word) (i : Nat) :
    (L.setPayload f b)[i]? = b[i]?.map fun w => if L.isField i then w else f i := by
  simp [setPayload]

theorem getField32_setPayload (f : Nat → Word) (b : List Word) {off : Nat} (h : L.isField (off / 4) = true) :
    getField32 (L.setPayload f b) off = getField32 b off := by
  simp [getField32, List.getD_eq_getElem?_getD, getElem?_setPayload, h]

theorem setPayload_magic (f : Nat → Word) {b : List Word} (h : L.Magic b) : L.Magic (L.setPayload f b) where
  length := by simp [setPayload, h.length]
  head := by rw [L.getField32_setPayload f b (by simp [isField]), h.head]
  tail := by
    have := L.size_eq
    have := L.words_pos
    rw [L.getField32_setPayload f b, h.tail]
    simp only [isField, Bool.or_eq_true, beq_iff_eq]
    omega

theorem seqOf_setPayload (f : Nat → Word) (b : List Word) : L.seqOf (L.setPayload f b) = L.seqOf b :=
  L.getField32_setPayload f b (by simp [isField])

/-- The store with which `Param_Init` saves the defaults. -/
def defaultStore (D : L.Defaults) (ok : Outcome) (σ : Store) : Store where
  dev := (internalErase ok σ.dev (L.secStart * paramSectorSize)).1
  buf := setField32 (setField32 (D.set σ.buf) L.seqOffset 0) L.eraseCntOffset 1
  rt := { σ.rt with currSec := L.secStart, currAddr := L.secStart * paramSectorSize }

def initTrace (D : L.Defaults) (ok : Outcome) (σ : Store) : List Store :=
  if (scanRegion L.toConfig σ.dev.mem).found then []
  else saveTrace L.toConfig ok maxWriteRetry (L.defaultStore D ok σ)

theorem init_eq (D : L.Defaults) (ok : Outcome) {fill : Nat → Nat} {σ : Store}
    (hf : L.Filled fill σ.dev.mem) : L.init D ok σ = match L.best fill σ.dev.mem with
      | some p => ⟨.ok, false,
          ⟨σ.dev, L.slot σ.dev.mem p.1 p.2,
            updateRuntime { σ.rt with currSec := p.1, currAddr := L.slotAddr p.1 p.2 } .ok⟩⟩
      | none =>
        let saved := (paramSave L.toConfig ok (L.defaultStore D ok σ)).2
        ⟨.ok, true, { saved with rt := updateRuntime saved.rt .ok }⟩ := by
  have := L.size_pos
  have := L.size_le
  have := L.size_mod
  have hscan := L.scanRegion_filled hf
  rw [init, paramInit, if_neg (by omega)]
  simp only [hscan]
  cases L.best fill σ.dev.mem with
  | none => rfl
  | some p => rfl

theorem init_found (D : L.Defaults) (ok : Outcome) {fill : Nat → Nat} {σ : Store} (hf : L.Filled fill σ.dev.mem)
    {p : Nat × Nat} (hbest : L.best fill σ.dev.mem = some p) :
    L.init D ok σ = ⟨.ok, false,
      ⟨σ.dev, L.slot σ.dev.mem p.1 p.2,
        updateRuntime { σ.rt with currSec := p.1, currAddr := L.slotAddr p.1 p.2 } .ok⟩⟩ := by
  rw [L.init_eq D ok hf, hbest]

theorem init_default (D : L.Defaults) (ok : Outcome) {fill : Nat → Nat} {σ : Store} (hf : L.Filled fill σ.dev.mem)
    (hbest : L.best fill σ.dev.mem = none) :
    L.init D ok σ = ⟨.ok, true,
      { (paramSave L.toConfig ok (L.defaultStore D ok σ)).2 with
        rt := updateRuntime (paramSave L.toConfig ok (L.defaultStore D ok σ)).2.rt .ok }⟩ := by
  rw [L.init_eq D ok hf, hbest]

theorem initTrace_default (D : L.Defaults) (ok : Outcome) {fill : Nat → Nat} {σ : Store}
    (hf : L.Filled fill σ.dev.mem) (hbest : L.best fill σ.dev.mem = none) :
    L.initTrace D ok σ = saveTrace L.toConfig ok maxWriteRetry (L.defaultStore D ok σ) := by
  simp [initTrace, L.scanRegion_filled hf, hbest, scanOf]

theorem magic_of_recordOk {r : List Word} (hlen : r.length = L.words) (h : L.recordOk r = true) : L.Magic r := by
  simp only [recordOk, Bool.and_eq_true, beq_iff_eq] at h
  exact ⟨hlen, h.1.1, h.1.2⟩

/-! ### Payloads -/

theorem saveAttempt_payload (ok : Outcome) (σ : Store) {i : Nat} (hi : L.isField i = false) :
    (saveAttempt L.toConfig ok σ).2.buf[i]? = σ.buf[i]? := by
  simp only [isField, Bool.or_eq_false_iff, beq_eq_false_iff_ne] at hi
  obtain ⟨⟨⟨⟨-, hseq⟩, hcnt⟩, hsum⟩, -⟩ := hi
  have hopen : (openSlot L.toConfig ok σ).2.buf[i]? = σ.buf[i]? := by
    have hset (v : Word) : (setField32 σ.buf L.eraseCntOffset v)[i]? = σ.buf[i]? :=
      List.getElem?_set_ne (Ne.symm hcnt)
    unfold openSlot
    dsimp only
    repeat' split
    all_goals first | rfl | exact hset _
  rw [← hopen]
  unfold saveAttempt
  split
  · rename_i heq
    rw [heq]
  · rename_i heq
    rw [heq]
    dsimp only
    split <;> exact L.getElem?_stamp _ hseq hsum

theorem saveLoop_payload (ok : Outcome) (n : Nat) (σ : Store) {i : Nat} (hi : L.isField i = false) :
    (saveLoop L.toConfig ok n σ).2.buf[i]? = σ.buf[i]? := by
  induction n generalizing σ with
  | zero => rfl
  | succ n ih =>
    rw [saveLoop]
    split
    · exact L.saveAttempt_payload ok σ hi
    · rw [ih, L.saveAttempt_payload ok σ hi]

theorem saveTrace_payload (ok : Outcome) (n : Nat) (σ : Store) {i : Nat} (hi : L.isField i = false) :
    ∀ σ' ∈ saveTrace L.toConfig ok n σ, σ'.buf[i]? = σ.buf[i]? := by
  induction n generalizing σ with
  | zero => exact fun σ' hσ' => absurd hσ' List.not_mem_nil
  | succ n ih =>
    intro σ' hσ'
    rcases List.mem_cons.mp hσ' with rfl | hσ'
    · rfl
    · split at hσ'
      · cases hσ'
      · rw [ih _ σ' hσ', L.saveAttempt_payload ok σ hi]

/-- The words of a buffer that are not the store's own are `f`. -/
def Carries (f : Nat → Word) (b : List Word) : Prop := ∀ i < L.words, L.isField i = false → b[i]? = some (f i)

theorem carries_save (ok : Outcome) (f : Nat → Word) {σ : Store} (hlen : σ.buf.length = L.words) :
    L.Carries f (L.save ok f σ).2.buf := fun i hi hfield => by
  rw [save, paramSave, L.saveLoop_payload ok _ _ hfield, getElem?_setPayload, List.getElem?_eq_getElem (by omega)]
  simp [hfield]

def Defaults.payload {L : Layout} (D : L.Defaults) (i : Nat) : Word := (D.set (List.replicate L.words 0)).getD i 0

theorem carries_default (D : L.Defaults) (ok : Outcome) {fill : Nat → Nat} {σ : Store}
    (hf : L.Filled fill σ.dev.mem) (hbest : L.best fill σ.dev.mem = none) :
    L.Carries D.payload (L.boot D ok σ).store.buf := fun i hi hfield => by
  have hlen := (D.magic (List.replicate L.words 0) (List.length_replicate ..)).length
  have hf' : L.Filled fill (L.fresh σ.dev).dev.mem := hf
  rw [boot, L.init_default D ok hf' hbest, paramSave, L.saveLoop_payload ok _ _ hfield]
  simp only [isField, Bool.or_eq_false_iff, beq_eq_false_iff_ne] at hfield
  simp only [defaultStore, fresh, setField32]
  rw [List.getElem?_set_ne (Ne.symm hfield.1.1.2), List.getElem?_set_ne (Ne.symm hfield.1.1.1.2),
    List.getElem?_eq_getElem (by omega), Defaults.payload, List.getD_eq_getElem?_getD,
    List.getElem?_eq_getElem (by omega), Option.getD_some]

end Layout

def rodDefaults : rodLayout.Defaults := ⟨rodSetDefaults, fun b _ => rodSetDefaults_magic b⟩

def missing (n : Nat) : Outcome := ⟨fun t => t != n, fun _ => true⟩

def erasedStore : Store := rodLayout.fresh ⟨fun _ => erasedWord, 0⟩

end RodActuator.Param
