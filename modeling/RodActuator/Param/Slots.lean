import RodActuator.Param.Manager
import Mathlib.Data.List.MinMax

/-! The region as slots. A configuration whose fields are five distinct words divides each sector into
    `slotCount` slots of one record. Writing a record changes one slot, erasing a sector resets its
    slots, and the scan finds the first valid slot with the largest sequence number among those in front
    of the first erased slot of each sector. -/

namespace RodActuator.Param
open Nor

theorem mem_sectors_iff {cfg : Config} {s : Nat} : s ∈ sectors cfg ↔ cfg.secEnd ≤ s ∧ s ≤ cfg.secStart := by
  simp only [sectors, List.mem_map, List.mem_range]
  constructor
  · rintro ⟨i, hi, rfl⟩
    omega
  · rintro ⟨h1, h2⟩
    exact ⟨cfg.secStart - s, by omega, by omega⟩

theorem nextSec_bounds {cfg : Config} {s : Nat} (hlo : cfg.secEnd ≤ s) (hhi : s ≤ cfg.secStart) :
    cfg.secEnd ≤ nextSec cfg s ∧ nextSec cfg s ≤ cfg.secStart := by
  unfold nextSec
  split_ifs <;> omega

/-- A configuration `paramInit` accepts, with the layout its callers give: head magic first, sequence
    number and erase count before the checksum, tail magic last, sector range not empty. -/
structure Layout extends Config where
  size_le : paramSize ≤ paramMaxRecordSize
  size_mod : paramSize % 4 = 0
  seq_mod : seqOffset % 4 = 0
  eraseCnt_mod : eraseCntOffset % 4 = 0
  checksum_mod : checksumOffset % 4 = 0
  seq_pos : 0 < seqOffset
  eraseCnt_pos : 0 < eraseCntOffset
  seq_ne_eraseCnt : seqOffset ≠ eraseCntOffset
  seq_lt : seqOffset < checksumOffset
  eraseCnt_lt : eraseCntOffset < checksumOffset
  checksum_lt : checksumOffset + 4 < paramSize
  sec_le : secEnd ≤ secStart
  sec_lt : secStart < 256
  head_ne : magicHead ≠ erasedWord

namespace Layout
variable (L : Layout)

def words : Nat := L.paramSize / 4

def slotCount : Nat := paramSectorSize / L.paramSize

def slotAddr (s k : Nat) : Nat := s * paramSectorSize + k * L.paramSize

/-- The record in slot `k` of sector `s`. -/
def slot (m : Nat → Word) (s k : Nat) : List Word := readWords m 4 (L.slotAddr s k) L.words

def seqOf (r : List Word) : Word := getField32 r L.seqOffset

/-- What the scan asks of a record: both magics and the checksum. -/
def recordOk (r : List Word) : Bool :=
  getField32 r 0 == L.magicHead && getField32 r (L.paramSize - 4) == L.magicTail &&
    calcParamCRC r L.paramSize L.checksumOffset == getField32 r L.checksumOffset

def blank : List Word := List.replicate L.words erasedWord

/-! ### Addresses -/

theorem size_eq : L.paramSize = 4 * L.words := by
  have := L.size_mod
  unfold words
  omega

theorem words_pos : 5 ≤ L.words := by
  have := L.seq_mod; have := L.eraseCnt_mod; have := L.checksum_mod; have := L.seq_pos
  have := L.eraseCnt_pos; have := L.seq_ne_eraseCnt; have := L.seq_lt; have := L.eraseCnt_lt
  have := L.checksum_lt; have := L.size_eq
  omega

theorem size_pos : 20 ≤ L.paramSize := by
  have := L.words_pos
  have := L.size_eq
  omega

theorem slotCount_mul_le : L.slotCount * L.paramSize ≤ paramSectorSize := Nat.div_mul_le_self _ _

theorem slotCount_pos : 0 < L.slotCount := by
  apply Nat.div_pos
  · exact Nat.le_trans L.size_le (by decide)
  · have := L.size_pos
    omega

theorem slotCount_lt : L.slotCount < paramSectorSize / 4 := by
  have h := L.slotCount_mul_le
  have hp := L.size_pos
  have h20 : L.slotCount * 20 ≤ L.slotCount * L.paramSize := Nat.mul_le_mul_left _ hp
  simp only [paramSectorSize] at h ⊢
  omega

theorem slot_fits (s k : Nat) :
    L.slotAddr s k + L.paramSize ≤ (s + 1) * paramSectorSize ↔ k < L.slotCount := by
  have hp : 0 < L.paramSize := Nat.lt_of_lt_of_le (by decide) L.size_pos
  rw [slotCount, Nat.lt_iff_add_one_le, Nat.le_div_iff_mul_le hp, Nat.succ_mul, Nat.succ_mul]
  unfold slotAddr
  omega

theorem slotAddr_succ (s k : Nat) : L.slotAddr s (k + 1) = L.slotAddr s k + L.paramSize := by
  rw [slotAddr, slotAddr, Nat.succ_mul, Nat.add_assoc]

@[simp] theorem slotAddr_zero (s : Nat) : L.slotAddr s 0 = s * paramSectorSize := by simp [slotAddr]

theorem slotAddr_word_div {s k i : Nat} (hk : k < L.slotCount) (hi : i < L.words) :
    (L.slotAddr s k + i * 4) / paramSectorSize = s := by
  have hfit := (L.slot_fits s k).mpr hk
  have hsz := L.size_eq
  have hlow : s * paramSectorSize ≤ L.slotAddr s k := Nat.le_add_right _ _
  apply Nat.div_eq_of_lt_le
  · omega
  · omega

theorem slotAddr_word_ne {s k s' k' i i' : Nat} (hk : k < L.slotCount) (hk' : k' < L.slotCount)
    (hi : i < L.words) (hi' : i' < L.words) (h : (s', k') ≠ (s, k)) :
    L.slotAddr s' k' + i' * 4 ≠ L.slotAddr s k + i * 4 := by
  intro heq
  have hs : s' = s := by rw [← L.slotAddr_word_div (s := s') hk' hi', heq, L.slotAddr_word_div hk hi]
  subst hs
  have hsz := L.size_eq
  unfold slotAddr at heq
  rcases Nat.lt_trichotomy k k' with hlt | rfl | hlt
  · have := Nat.mul_le_mul_right L.paramSize hlt
    rw [Nat.succ_mul] at this
    omega
  · exact h rfl
  · have := Nat.mul_le_mul_right L.paramSize hlt
    rw [Nat.succ_mul] at this
    omega

/-! ### What operations do to slots -/

@[simp] theorem slot_length (m : Nat → Word) (s k : Nat) : (L.slot m s k).length = L.words := by simp [slot]

theorem getField32_slot (m : Nat → Word) (s k : Nat) {off : Nat} (hmod : off % 4 = 0) (hoff : off < L.paramSize) :
    getField32 (L.slot m s k) off = m (L.slotAddr s k + off) := by
  have hi : off / 4 < L.words := by
    have := L.size_eq
    omega
  rw [getField32, List.getD_eq_getElem?_getD, slot, readWords_getElem? m 4 _ hi, Option.getD_some]
  congr 2
  omega

theorem head_slot (m : Nat → Word) (s k : Nat) : getField32 (L.slot m s k) 0 = m (L.slotAddr s k) := by
  have hp := L.size_pos
  rw [L.getField32_slot m s k (by decide) (by omega), Nat.add_zero]

theorem head_blank : getField32 L.blank 0 = erasedWord := by
  have := L.words_pos
  simp [getField32, blank, List.getD_eq_getElem?_getD, show 0 < L.words by omega]

theorem slot_write (ok : Outcome) (d : Device 32) (s k : Nat) {r : List Word} (hr : r.length = L.words) :
    ∃ j, L.slot (internalWriteBuffer ok d (L.slotAddr s k) r).1.mem s k = torn j (L.slot d.mem s k) r ∧
      (ok.prog d.ops = true → 0 < j) ∧
      ((internalWriteBuffer ok d (L.slotAddr s k) r).2 = true →
        L.slot (internalWriteBuffer ok d (L.slotAddr s k) r).1.mem s k = r) := by
  obtain ⟨j, h1, h2, h3⟩ := writeWords_torn ok (show 0 < 4 by decide) d (L.slotAddr s k) r
  rw [hr] at h1 h2 h3
  exact ⟨j, h1, fun hp => h2 hp (Nat.lt_of_lt_of_le (by decide) L.words_pos), h3⟩

theorem slot_write_ne (ok : Outcome) (d : Device 32) {s k s' k' : Nat} (hk : k < L.slotCount)
    (hk' : k' < L.slotCount) {r : List Word} (hr : r.length = L.words) (h : (s', k') ≠ (s, k)) :
    L.slot (internalWriteBuffer ok d (L.slotAddr s k) r).1.mem s' k' = L.slot d.mem s' k' := by
  apply readWords_congr
  intro i' hi'
  apply writeWords_frame
  intro i hi
  exact L.slotAddr_word_ne hk hk' (hr ▸ hi) hi' h

theorem slot_erase {ok : Outcome} {d : Device 32} {s s' k' : Nat} (hok : ok.erase d.ops = true)
    (hk' : k' < L.slotCount) :
    L.slot (internalErase ok d (s * paramSectorSize)).1.mem s' k' =
      if s' = s then L.blank else L.slot d.mem s' k' := by
  have hdiv : s * paramSectorSize / paramSectorSize = s := Nat.mul_div_cancel _ (by decide)
  have hmem : ∀ i < L.words, (internalErase ok d (s * paramSectorSize)).1.mem (L.slotAddr s' k' + i * 4) =
      if s' = s then erasedWord else d.mem (L.slotAddr s' k' + i * 4) := by
    intro i hi
    simp only [internalErase, Nor.erase, hok, ↓reduceIte, hdiv, L.slotAddr_word_div hk' hi, beq_iff_eq]
    rfl
  split
  · rename_i heq
    apply readWords_eq_replicate
    intro i hi
    rw [hmem i hi, if_pos heq]
  · rename_i hne
    apply readWords_congr
    intro i hi
    rw [hmem i hi, if_neg hne]

/-! ### The scan -/

/-- What the scan sees of each sector: the first `fill s` slots carry the head magic, and the next one,
    if there is one, is erased. -/
structure Filled (fill : Nat → Nat) (m : Nat → Word) : Prop where
  le : ∀ s ∈ sectors L.toConfig, fill s ≤ L.slotCount
  head : ∀ s ∈ sectors L.toConfig, ∀ k < fill s, getField32 (L.slot m s k) 0 = L.magicHead
  stop : ∀ s ∈ sectors L.toConfig, fill s < L.slotCount → L.slot m s (fill s) = L.blank

/-- The slots the scan looks at, in its order. -/
def visited (fill : Nat → Nat) : List (Nat × Nat) :=
  (sectors L.toConfig).flatMap fun s => (List.range (fill s)).map (s, ·)

theorem mem_sectors {s : Nat} : s ∈ sectors L.toConfig ↔ L.secEnd ≤ s ∧ s ≤ L.secStart := mem_sectors_iff

theorem mem_visited {fill : Nat → Nat} {s k : Nat} :
    (s, k) ∈ L.visited fill ↔ s ∈ sectors L.toConfig ∧ k < fill s := by
  simp only [visited, List.mem_flatMap, List.mem_map, List.mem_range, Prod.mk.injEq]
  constructor
  · rintro ⟨s', hs', k', hk', rfl, rfl⟩
    exact ⟨hs', hk'⟩
  · rintro ⟨hs, hk⟩
    exact ⟨s, hs, k, hk, rfl, rfl⟩

/-- The first valid slot with the largest sequence number. -/
def best (fill : Nat → Nat) (m : Nat → Word) : Option (Nat × Nat) :=
  ((L.visited fill).filter fun p => L.recordOk (L.slot m p.1 p.2)).argmax
    fun p => (L.seqOf (L.slot m p.1 p.2)).toNat

def scanOf (m : Nat → Word) : Option (Nat × Nat) → Scan
  | none => { maxSeq := 0, bestAddr := 0, bestSec := L.secStart, found := false }
  | some p =>
    { maxSeq := L.seqOf (L.slot m p.1 p.2), bestAddr := L.slotAddr p.1 p.2, bestSec := p.1, found := true }

theorem checkBlock_slot (m : Nat → Word) {s k : Nat} (hhead : getField32 (L.slot m s k) 0 = L.magicHead) :
    checkBlock L.toConfig m (L.slotAddr s k) = L.recordOk (L.slot m s k) := by
  have hsz := L.size_eq
  have hp := L.size_pos
  have htail : m (L.slotAddr s k + L.paramSize - 4) = getField32 (L.slot m s k) (L.paramSize - 4) := by
    rw [L.getField32_slot m s k (by omega) (by omega)]
    congr 1
    omega
  simp only [checkBlock, recordOk, htail, hhead, beq_self_eq_true, Bool.true_and]
  rfl

theorem scanBlock_slot (m : Nat → Word) {s k : Nat} (hhead : getField32 (L.slot m s k) 0 = L.magicHead)
    (o : Option (Nat × Nat)) :
    scanBlock L.toConfig m s (L.slotAddr s k) (L.scanOf m o) =
      L.scanOf m (if L.recordOk (L.slot m s k) then
        List.argAux (fun b c => (L.seqOf (L.slot m c.1 c.2)).toNat < (L.seqOf (L.slot m b.1 b.2)).toNat) o (s, k)
        else o) := by
  have hseq : m (L.slotAddr s k + L.seqOffset) = L.seqOf (L.slot m s k) := by
    have := L.seq_lt; have := L.checksum_lt
    rw [seqOf, L.getField32_slot m s k L.seq_mod (by omega)]
  simp only [scanBlock, L.checkBlock_slot m hhead, hseq]
  cases hok : L.recordOk (L.slot m s k)
  · simp
  · cases o with
    | none => simp [scanOf, List.argAux]
    | some p =>
      simp only [scanOf, List.argAux, Bool.not_true, Bool.false_or, Bool.true_and, decide_eq_true_eq, ↓reduceIte,
        BitVec.lt_def]
      split <;> rfl

theorem scanSector_filled {fill : Nat → Nat} {m : Nat → Word} (hf : L.Filled fill m) {s : Nat}
    (hs : s ∈ sectors L.toConfig) : ∀ (n fuel k : Nat), k + n = fill s → n < fuel → ∀ acc : Scan,
      scanSector L.toConfig m s fuel (L.slotAddr s k) acc =
        (List.range' k n).foldl (fun acc j => scanBlock L.toConfig m s (L.slotAddr s j) acc) acc
  | 0, fuel + 1, k, hk, _, acc => by
    -- Past the filled slots the sector ends or the next slot is erased.
    simp only [scanSector, L.slot_fits, List.range'_zero, List.foldl_nil]
    split
    · rename_i hlt
      have herased : m (L.slotAddr s k) = erasedWord := by
        obtain rfl : k = fill s := by omega
        rw [← L.head_slot m s _, hf.stop s hs hlt, L.head_blank]
      rw [herased, if_neg (Ne.symm L.head_ne), if_pos rfl]
    · rfl
  | n + 1, fuel + 1, k, hk, hfuel, acc => by
    have hlt : k < L.slotCount := Nat.lt_of_lt_of_le (by omega) (hf.le s hs)
    have hhead : m (L.slotAddr s k) = L.magicHead := by rw [← hf.head s hs k (by omega), L.head_slot]
    simp only [scanSector, (L.slot_fits s k).mpr hlt, ↓reduceIte, hhead, List.range'_succ, List.foldl_cons]
    rw [← L.slotAddr_succ]
    exact scanSector_filled hf hs n fuel (k + 1) (by omega) (by omega) _

/-- The scan of a region with filled slots finds the best slot. -/
theorem scanRegion_filled {fill : Nat → Nat} {m : Nat → Word} (hf : L.Filled fill m) :
    scanRegion L.toConfig m = L.scanOf m (L.best fill m) := by
  have hfold : ∀ (l : List (Nat × Nat)), (∀ p ∈ l, p ∈ L.visited fill) → ∀ o : Option (Nat × Nat),
      l.foldl (fun acc p => scanBlock L.toConfig m p.1 (L.slotAddr p.1 p.2) acc) (L.scanOf m o) =
        L.scanOf m ((l.filter fun p => L.recordOk (L.slot m p.1 p.2)).foldl
          (List.argAux fun b c => (L.seqOf (L.slot m c.1 c.2)).toNat < (L.seqOf (L.slot m b.1 b.2)).toNat) o) := by
    intro l
    induction l with
    | nil => intro _ o; rfl
    | cons p l ih =>
      intro hl o
      obtain ⟨hs, hk⟩ := L.mem_visited.mp (hl p (by simp))
      rw [List.foldl_cons, L.scanBlock_slot m (hf.head p.1 hs p.2 hk), ih fun q hq => hl q (by simp [hq])]
      cases hok : L.recordOk (L.slot m p.1 p.2) <;> simp [hok]
  have hsec : ∀ s ∈ sectors L.toConfig, ∀ acc, scanSector L.toConfig m s (paramSectorSize / 4) (s * paramSectorSize) acc =
      ((List.range (fill s)).map (s, ·)).foldl
        (fun acc p => scanBlock L.toConfig m p.1 (L.slotAddr p.1 p.2) acc) acc := by
    intro s hs acc
    have h := L.scanSector_filled hf hs (fill s) (paramSectorSize / 4) 0 (Nat.zero_add _)
      (Nat.lt_of_le_of_lt (hf.le s hs) L.slotCount_lt) acc
    rw [L.slotAddr_zero, ← List.range_eq_range'] at h
    rw [h, List.foldl_map]
  rw [scanRegion, List.foldl_ext _ _ _ fun acc s hs => hsec s hs acc, ← List.foldl_flatMap]
  exact hfold (L.visited fill) (fun p hp => hp) none

theorem best_mem {fill : Nat → Nat} {m : Nat → Word} {p : Nat × Nat} (h : L.best fill m = some p) :
    p ∈ L.visited fill ∧ L.recordOk (L.slot m p.1 p.2) = true := List.mem_filter.mp (List.argmax_mem h)

theorem best_le {fill : Nat → Nat} {m : Nat → Word} {p q : Nat × Nat} (h : L.best fill m = some p)
    (hq : q ∈ L.visited fill) (hok : L.recordOk (L.slot m q.1 q.2) = true) :
    (L.seqOf (L.slot m q.1 q.2)).toNat ≤ (L.seqOf (L.slot m p.1 p.2)).toNat :=
  List.le_of_mem_argmax (f := fun p : Nat × Nat => (L.seqOf (L.slot m p.1 p.2)).toNat)
    (List.mem_filter.mpr ⟨hq, hok⟩) h

theorem best_of_gt {fill : Nat → Nat} {m : Nat → Word} {p : Nat × Nat} (hp : p ∈ L.visited fill)
    (hok : L.recordOk (L.slot m p.1 p.2) = true)
    (hgt : ∀ q ∈ L.visited fill, q ≠ p → L.recordOk (L.slot m q.1 q.2) = true →
      (L.seqOf (L.slot m q.1 q.2)).toNat < (L.seqOf (L.slot m p.1 p.2)).toNat) :
    L.best fill m = some p := by
  rw [best, List.argmax_eq_some_iff]
  refine ⟨List.mem_filter.mpr ⟨hp, hok⟩, fun q hq => ?_, fun q hq hle => ?_⟩
  · rcases eq_or_ne q p with rfl | hne
    · exact Nat.le_refl _
    · obtain ⟨hq1, hq2⟩ := List.mem_filter.mp hq
      exact Nat.le_of_lt (hgt q hq1 hne hq2)
  · rcases eq_or_ne q p with rfl | hne
    · exact Nat.le_refl _
    · obtain ⟨hq1, hq2⟩ := List.mem_filter.mp hq
      have := hgt q hq1 hne hq2
      omega

end Layout

end RodActuator.Param
