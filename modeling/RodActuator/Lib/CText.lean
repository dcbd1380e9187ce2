import Mathlib.Data.BitVec
import Mathlib.Data.List.Basic
import Mathlib.Logic.Function.Basic

/-! Texts that C code formats into a buffer of bounded size. A formatted print writes at most the room that it is
    given, the closing NUL included, and returns the length that the text would have had; code that appends one text
    after another adds that length to its position, and puts the position back when it has left the buffer. -/

namespace CText

def nul : Char := '\x00'

/-- A format with its arguments: plain text, `%s`, and `%08x`. -/
inductive Piece where
  | lit (text : List Char)
  | str (text : List Char)
  | hex8 (n : BitVec 32)

def hexDigit (n : Nat) : Char := "0123456789abcdef".toList.getD n nul

namespace Piece

def text : Piece → List Char
  | .lit text | .str text => text
  | .hex8 n => (List.range 8).map fun i => hexDigit (n.toNat / 16 ^ (7 - i) % 16)

end Piece

/-- The full text of a format. -/
def formatted (fmt : List Piece) : List Char := fmt.flatMap Piece.text

/-- A formatted print to a place of the memory, and the length that it returns. -/
abbrev Print := (Nat → Char) → Nat → BitVec 32 → List Piece → (Nat → Char) × BitVec 32

/-- What a bounded print promises where it has room: the front of the text and a NUL behind it, nothing outside the
    room, and the full length. -/
structure Bounded (print : Print) : Prop where
  length : ∀ mem pos room fmt, 0 < room.toNat →
    (print mem pos room fmt).2 = BitVec.ofNat 32 (formatted fmt).length
  front : ∀ mem pos room fmt, 0 < room.toNat → ∀ i (hi : i < (formatted fmt).length), i < room.toNat - 1 →
    (print mem pos room fmt).1 (pos + i) = (formatted fmt).get ⟨i, hi⟩
  closed : ∀ mem pos room fmt, 0 < room.toNat →
    (print mem pos room fmt).1 (pos + min (formatted fmt).length (room.toNat - 1)) = nul
  frame : ∀ mem pos room fmt, 0 < room.toNat → ∀ j, j < pos ∨ pos + room.toNat ≤ j →
    (print mem pos room fmt).1 j = mem j

/-- The memory begins with the text and the NUL that ends it. -/
structure Shows (mem : Nat → Char) (text : List Char) : Prop where
  chars : ∀ i (hi : i < text.length), mem i = text.get ⟨i, hi⟩
  closed : mem text.length = nul
  plain : nul ∉ text

/-- Prints the next text at the position. A position that has left the buffer is put on its last place. -/
def append (print : Print) (size : BitVec 32) (fmt : List Piece) (mem : Nat → Char) (pos : BitVec 32) :
    (Nat → Char) × BitVec 32 :=
  let r := print mem pos.toNat (size - pos) fmt
  let pos := pos + r.2
  if size ≤ pos then (Function.update r.1 (size - 1).toNat nul, size - 1) else (r.1, pos)

/-! ### One print -/

section
variable {print : Print} {mem : Nat → Char} {text : List Char} {fmt : List Piece}

theorem Shows.nil (h : mem 0 = nul) : Shows mem [] := ⟨fun _ hi => absurd hi (Nat.not_lt_zero _), h, by simp⟩

/-- A print behind a text lengthens it by what there is room for. -/
theorem Shows.printed (h : Shows mem text) (hprint : Bounded print) (room : BitVec 32) (hroom : 0 < room.toNat)
    (hplain : nul ∉ formatted fmt) :
    Shows (print mem text.length room fmt).1 (text ++ (formatted fmt).take (room.toNat - 1)) where
  chars i hi := by
    by_cases hfront : i < text.length
    · rw [hprint.frame _ _ _ _ hroom i (.inl hfront), h.chars i hfront]
      simp [List.getElem_append_left hfront]
    · obtain ⟨k, rfl⟩ : ∃ k, i = text.length + k := ⟨i - text.length, by omega⟩
      rw [List.length_append, List.length_take] at hi
      rw [hprint.front _ _ _ _ hroom k (by omega) (by omega)]
      simp
  closed := by
    rw [List.length_append, List.length_take, Nat.min_comm]
    exact hprint.closed _ _ _ _ hroom
  plain hmem := by
    rcases List.mem_append.mp hmem with htext | hnew
    · exact h.plain htext
    · exact hplain (List.mem_of_mem_take hnew)

end

/-! ### One text after another -/

/-- The buffer shows as much of the text as it has room for, and the position is behind it. -/
structure Appended (size : BitVec 32) (text : List Char) (mem : Nat → Char) (pos : BitVec 32) : Prop where
  shows : Shows mem (text.take (size.toNat - 1))
  pos_eq : pos.toNat = min text.length (size.toNat - 1)

section
variable {print : Print} {size pos : BitVec 32} {mem : Nat → Char} {text : List Char} {fmt : List Piece}

/-- A print at the position, with the room that is left. -/
theorem Appended.printed (h : Appended size text mem pos) (hprint : Bounded print) (hsize : 0 < size.toNat)
    (hplain : nul ∉ formatted fmt) :
    Shows (print mem pos.toNat (size - pos) fmt).1 ((text ++ formatted fmt).take (size.toNat - 1)) ∧
      (print mem pos.toNat (size - pos) fmt).2 = BitVec.ofNat 32 (formatted fmt).length ∧
      ∀ j, size.toNat ≤ j → (print mem pos.toNat (size - pos) fmt).1 j = mem j := by
  have hpos := h.pos_eq
  have hle : pos ≤ size := by
    rw [BitVec.le_def]
    omega
  have hroom : (size - pos).toNat = size.toNat - pos.toNat := BitVec.toNat_sub_of_le hle
  have hshows := h.shows.printed hprint (size - pos) (by omega) hplain
  rw [List.length_take, Nat.min_comm, ← hpos] at hshows
  refine ⟨?_, hprint.length _ _ _ _ (by omega), fun j hj => hprint.frame _ _ _ _ (by omega) j (.inr (by omega))⟩
  have htake : size.toNat - pos.toNat - 1 = size.toNat - 1 - text.length := by omega
  rw [List.take_append, ← htake, ← hroom]
  exact hshows

theorem Appended.append (h : Appended size text mem pos) (hprint : Bounded print) (hsize : 0 < size.toNat)
    (fmt : List Piece) (hplain : nul ∉ formatted fmt) (hne : formatted fmt ≠ [])
    (hfits : text.length + (formatted fmt).length < 2 ^ 32) :
    Appended size (text ++ formatted fmt) (append print size fmt mem pos).1 (append print size fmt mem pos).2 ∧
      ∀ j, size.toNat ≤ j → (append print size fmt mem pos).1 j = mem j := by
  obtain ⟨hshows, hlength, hframe⟩ := h.printed hprint hsize hplain
  have hpos := h.pos_eq
  have hlen : 0 < (formatted fmt).length := List.length_pos_of_ne_nil hne
  have hsum : (pos + (print mem pos.toNat (size - pos) fmt).2).toNat = pos.toNat + (formatted fmt).length := by
    rw [hlength, BitVec.toNat_add, BitVec.toNat_ofNat, Nat.add_mod_mod]
    exact Nat.mod_eq_of_lt (by omega)
  have hlast : (size - 1).toNat = size.toNat - 1 := by
    have hone : (1 : BitVec 32).toNat = 1 := rfl
    exact BitVec.toNat_sub_of_le (BitVec.le_def.mpr (by omega))
  unfold CText.append
  dsimp only
  split
  · rename_i hleft
    rw [BitVec.le_def, hsum] at hleft
    -- The text fills the buffer, and the NUL is already on its last place.
    have htake : ((text ++ formatted fmt).take (size.toNat - 1)).length = size.toNat - 1 := by
      rw [List.length_take, List.length_append]
      omega
    have hsame : Function.update (print mem pos.toNat (size - pos) fmt).1 (size - 1).toNat nul =
        (print mem pos.toNat (size - pos) fmt).1 := by
      rw [hlast, Function.update_eq_self_iff, ← htake]
      exact hshows.closed.symm
    rw [hsame]
    refine ⟨⟨hshows, ?_⟩, hframe⟩
    rw [hlast, List.length_append]
    omega
  · rename_i hinside
    rw [BitVec.le_def, hsum] at hinside
    refine ⟨⟨hshows, ?_⟩, hframe⟩
    rw [hsum, List.length_append]
    omega

end

/-! ### Joined texts -/

section
variable {size pos : BitVec 32} {mem : Nat → Char} {text text' sep : List Char} {parts : List (List Char)}

theorem intercalate_concat (sep : List Char) (parts : List (List Char)) (part : List Char) :
    sep.intercalate (parts ++ [part]) = sep.intercalate parts ++ ((if parts = [] then [] else sep) ++ part) := by
  induction parts with
  | nil => simp
  | cons head parts ih =>
    cases parts with
    | nil => simp
    | cons next parts =>
      rw [List.cons_append, List.cons_append, List.intercalate_cons_cons, ← List.cons_append, ih,
        List.intercalate_cons_cons]
      simp

theorem intercalate_eq_nil_iff (sep : List Char) (hparts : ∀ part ∈ parts, part ≠ []) : sep.intercalate parts = [] ↔ parts = [] := by
  rcases parts.eq_nil_or_concat' with rfl | ⟨front, part, rfl⟩
  · simp
  · rw [intercalate_concat]
    have hpart := hparts part (by simp)
    simp [hpart]

/-- The buffer knows of the text only what it has room for. -/
theorem Appended.congr (h : Appended size text mem pos)
    (htake : text.take (size.toNat - 1) = text'.take (size.toNat - 1)) : Appended size text' mem pos where
  shows := htake ▸ h.shows
  pos_eq := by
    have hlen := congrArg List.length htake
    rw [List.length_take, List.length_take] at hlen
    rw [h.pos_eq]
    omega

/-- A separator where the position is not the first is one between the parts, as far as there is room. -/
theorem Appended.take_join (h : Appended size (sep.intercalate parts) mem pos) (hparts : ∀ part ∈ parts, part ≠ [])
    (part : List Char) :
    (sep.intercalate parts ++ ((if pos ≠ 0 then sep else []) ++ part)).take (size.toNat - 1) =
      (sep.intercalate (parts ++ [part])).take (size.toNat - 1) := by
  have hpos := h.pos_eq
  have hzero : pos = 0 ↔ pos.toNat = 0 := BitVec.toNat_inj.symm
  rw [intercalate_concat]
  by_cases hroom : size.toNat - 1 = 0
  · rw [hroom, List.take_zero, List.take_zero]
  · have hiff : pos ≠ 0 ↔ ¬parts = [] := by
      rw [← intercalate_eq_nil_iff sep hparts, ← List.length_eq_zero_iff, ne_eq, hzero]
      omega
    simp only [hiff, ite_not]

end

end CText
