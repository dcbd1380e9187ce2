import RodActuator.Param.Slots

/-! Records: what `stamp` makes of a buffer with both magics, and what is left of a record when another
    one is programmed over it. A torn slot keeps its head magic, and its sequence number does not grow. -/

namespace RodActuator.Param
open Nor

theorem getField32_setField32_self {b : List Word} {off : Nat} (v : Word) (h : off / 4 < b.length) :
    getField32 (setField32 b off v) off = v := by
  simp [getField32, setField32, List.getD_eq_getElem?_getD, h]

theorem getField32_setField32_ne (b : List Word) {off off' : Nat} (v : Word) (h : off / 4 ≠ off' / 4) :
    getField32 (setField32 b off v) off' = getField32 b off' := by
  simp [getField32, setField32, List.getD_eq_getElem?_getD, List.getElem?_set_ne h]

theorem setField32_length (b : List Word) (off : Nat) (v : Word) : (setField32 b off v).length = b.length := by
  simp [setField32]

theorem getField32_eq {b : List Word} {off : Nat} (h : off / 4 < b.length) :
    b[off / 4]? = some (getField32 b off) := by
  simp [getField32, List.getD_eq_getElem?_getD, h]

theorem take_wordBytes (b : List Word) (i : Nat) :
    (b.flatMap wordBytes).take (4 * i) = (b.take i).flatMap wordBytes := by
  induction b generalizing i with
  | nil => simp
  | cons v b ih =>
    cases i with
    | zero => simp
    | succ i =>
      rw [List.flatMap_cons, List.take_succ_cons, List.flatMap_cons, ← ih i,
        show 4 * (i + 1) = (wordBytes v).length + 4 * i by simp [wordBytes]; omega, List.take_length_add_append]

theorem calcParamCRC_congr {b b' : List Word} {size off : Nat} (hmod : off % 4 = 0)
    (h : b.take (off / 4) = b'.take (off / 4)) : calcParamCRC b size off = calcParamCRC b' size off := by
  have hoff : off = 4 * (off / 4) := by omega
  rw [calcParamCRC, calcParamCRC, hoff, take_wordBytes, take_wordBytes, h]

namespace Layout
variable (L : Layout)

/-- A buffer of the right size with both magics. -/
structure Magic (b : List Word) : Prop where
  length : b.length = L.words
  head : getField32 b 0 = L.magicHead
  tail : getField32 b (L.paramSize - 4) = L.magicTail

theorem index_lt {off : Nat} (hoff : off < L.paramSize) : off / 4 < L.words := by
  have := L.size_eq
  omega

theorem seq_size : L.seqOffset < L.paramSize := by
  have := L.seq_lt
  have := L.checksum_lt
  omega

theorem checksum_size : L.checksumOffset < L.paramSize := by
  have := L.checksum_lt
  omega

theorem Magic.set {L : Layout} {b : List Word} (h : L.Magic b) {off : Nat} (v : Word) (hmod : off % 4 = 0)
    (hpos : 0 < off) (hlt : off + 4 < L.paramSize) : L.Magic (setField32 b off v) where
  length := by rw [setField32_length, h.length]
  head := by rw [getField32_setField32_ne b v (by omega), h.head]
  tail := by
    have := L.size_eq
    rw [getField32_setField32_ne b v (by omega), h.tail]

theorem Magic.setSeq {L : Layout} {b : List Word} (h : L.Magic b) (v : Word) :
    L.Magic (setField32 b L.seqOffset v) :=
  h.set v L.seq_mod L.seq_pos (by have := L.seq_lt; have := L.checksum_lt; omega)

theorem Magic.setEraseCnt {L : Layout} {b : List Word} (h : L.Magic b) (v : Word) :
    L.Magic (setField32 b L.eraseCntOffset v) :=
  h.set v L.eraseCnt_mod L.eraseCnt_pos (by have := L.eraseCnt_lt; have := L.checksum_lt; omega)

theorem seqOf_setEraseCnt (b : List Word) (v : Word) :
    L.seqOf (setField32 b L.eraseCntOffset v) = L.seqOf b := by
  have := L.seq_mod; have := L.eraseCnt_mod; have := L.seq_ne_eraseCnt
  exact getField32_setField32_ne b v (by omega)

/-! ### stamp -/

theorem stamp_magic {b : List Word} (h : L.Magic b) : L.Magic (stamp L.toConfig b) :=
  (h.setSeq _).set _ L.checksum_mod (Nat.lt_trans L.seq_pos L.seq_lt) L.checksum_lt

theorem seqOf_stamp {b : List Word} (h : L.Magic b) : L.seqOf (stamp L.toConfig b) = L.seqOf b + 1 := by
  have := L.seq_mod; have := L.checksum_mod; have := L.seq_lt
  rw [seqOf, stamp, getField32_setField32_ne _ _ (by omega),
    getField32_setField32_self _ (by rw [h.length]; exact L.index_lt L.seq_size)]
  rfl

/-- A stamped buffer with both magics passes the checks of the scan. -/
theorem recordOk_stamp {b : List Word} (h : L.Magic b) : L.recordOk (stamp L.toConfig b) = true := by
  have hm := L.stamp_magic h
  have hcrc : calcParamCRC (stamp L.toConfig b) L.paramSize L.checksumOffset =
      getField32 (stamp L.toConfig b) L.checksumOffset := by
    rw [stamp, getField32_setField32_self _
      (by rw [setField32_length, h.length]; exact L.index_lt L.checksum_size)]
    apply calcParamCRC_congr L.checksum_mod
    rw [setField32, List.take_set_of_le (Nat.le_refl _)]
  simp [recordOk, hm.head, hm.tail, hcrc]

/-- `stamp` changes only the sequence number and the checksum. -/
theorem getElem?_stamp (b : List Word) {i : Nat} (hs : i ≠ L.seqOffset / 4) (hc : i ≠ L.checksumOffset / 4) :
    (stamp L.toConfig b)[i]? = b[i]? := by
  simp only [stamp, setField32]
  rw [List.getElem?_set_ne (Ne.symm hc), List.getElem?_set_ne (Ne.symm hs)]

/-! ### Torn slots -/

theorem recordOk_blank : L.recordOk L.blank = false := by
  simp [recordOk, L.head_blank, Ne.symm L.head_ne]

theorem head_torn {j : Nat} {old new : List Word} (hlen : old.length = L.words) (hnew : L.Magic new)
    (hold : getField32 old 0 = L.magicHead) : getField32 (torn j old new) 0 = L.magicHead := by
  have hw := L.words_pos
  have ho : old[0]? = some L.magicHead := hold ▸ getField32_eq (show 0 / 4 < old.length by omega)
  have hn : new[0]? = some L.magicHead :=
    hnew.head ▸ getField32_eq (show 0 / 4 < new.length by rw [hnew.length]; omega)
  have h := torn_getElem?_same (j := j) ho hn
  simp [getField32, List.getD_eq_getElem?_getD, h]

/-- A program that reaches an erased slot at all gives it the head magic. -/
theorem head_torn_blank {j : Nat} {new : List Word} (hj : 0 < j) (hnew : L.Magic new) :
    getField32 (torn j L.blank new) 0 = L.magicHead := by
  have hw := L.words_pos
  obtain ⟨j, rfl⟩ := Nat.exists_eq_succ_of_ne_zero (Nat.ne_of_gt hj)
  cases new with
  | nil =>
    have := hnew.length
    simp only [List.length_nil] at this
    omega
  | cons v new =>
    have hv : v = L.magicHead := by simpa [getField32] using hnew.head
    have hb : L.blank = erasedWord :: List.replicate (L.words - 1) erasedWord := by
      rw [blank, ← List.replicate_succ]
      congr 1
      omega
    rw [hb, torn, ← hv]
    exact BitVec.allOnes_and

/-- A proper first part of a record on an erased slot leaves the tail magic out. -/
theorem tail_torn_blank {j : Nat} {b : List Word} (hj : j < L.words) (hlen : b.length = L.words) :
    getField32 (torn j L.blank b) (L.paramSize - 4) = erasedWord := by
  have hwords := L.words_pos
  have hsize := L.size_eq
  have hblank : torn j L.blank b = b.take j ++ List.replicate (b.length - j) erasedWord := by
    rw [blank, ← hlen]
    exact torn_erased j b
  rw [hblank, getField32, List.getD_eq_getElem?_getD, List.getElem?_append_right (by simp; omega),
    List.getElem?_replicate, if_pos (by simp; omega), Option.getD_some]

/-- Programming over a slot does not raise its sequence number. -/
theorem seqOf_torn_le (j : Nat) (old new : List Word) :
    (L.seqOf (torn j old new)).toNat ≤ (L.seqOf old).toNat := by
  simp only [seqOf, getField32, List.getD_eq_getElem?_getD]
  rcases torn_getElem? j old new (L.seqOffset / 4) with h | ⟨o, v, ho, -, h⟩
  · rw [h]
  · rw [h, ho, Option.getD_some, Option.getD_some, BitVec.toNat_and]
    exact Nat.and_le_left

end Layout

/-! ### The rod's records -/

/-- `s_rod_config`: a `ParamStrokeRecord_t` is head magic, sequence number, erase count, position,
    checksum and tail magic; it is stored in the sectors 60 down to 51. -/
def rodLayout : Layout where
  paramSize := 24
  magicHead := 0x66AA66AA#32
  magicTail := 0xAA66AA66#32
  checksumOffset := 16
  seqOffset := 4
  eraseCntOffset := 8
  secStart := 60
  secEnd := 51
  size_le := by decide
  size_mod := by decide
  seq_mod := by decide
  eraseCnt_mod := by decide
  checksum_mod := by decide
  seq_pos := by decide
  eraseCnt_pos := by decide
  seq_ne_eraseCnt := by decide
  seq_lt := by decide
  eraseCnt_lt := by decide
  checksum_lt := by decide
  sec_le := by decide
  sec_lt := by decide
  head_ne := by decide

/-- `Rod_SetDefaults`: a record of zeros between the magics; the default position is 0.0. -/
def rodSetDefaults (_ : List Word) : List Word := [rodLayout.magicHead, 0, 0, 0, 0, rodLayout.magicTail]

theorem rodSetDefaults_magic (b : List Word) : rodLayout.Magic (rodSetDefaults b) := ⟨rfl, rfl, rfl⟩

end RodActuator.Param
