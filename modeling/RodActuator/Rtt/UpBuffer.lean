import Mathlib.Data.List.Infix
import RodActuator.Lib.Stretch
import RodActuator.Lib.Transition

/-! The ring to the host (`RTT/SEGGER_RTT.c`). The target stores bytes and then moves the write offset; the host loads bytes
    and then moves the read offset; each reads the offset of the other once, at any time. One cell of the ring stays free. -/

namespace RodActuator.Rtt
open Transition FixedArray Stretch

/-- `SEGGER_RTT_MODE_NO_BLOCK_SKIP`, `_TRIM` and `SEGGER_RTT_MODE_BLOCK_IF_FIFO_FULL`. -/
inductive Mode where
  | skip | trim | block
  deriving DecidableEq, Repr

/-- What `SEGGER_RTT_WriteNoLock` returns where it finds the room `avail`: how many bytes of the front it takes. -/
def Mode.status (mode : Mode) (avail len : Nat) : Nat :=
  match mode with
  | .skip => if avail < len then 0 else len
  | .trim => if avail < len then avail else len
  | .block => len

/-- What a part of a write has still to do: the stores in order, the write offset behind them, and, of a blocking write, the
    data for its next rounds. -/
structure Plan (α : Type*) where
  stores : List (Nat × α)
  wrOff : Nat
  more : List α
  deriving DecidableEq, Repr

/-- What a read has still to do: the cells in order and the read offset behind them. -/
structure Fetch where
  cells : List Nat
  rdOff : Nat
  deriving DecidableEq, Repr

section
variable {α : Type*} (n : Nat)

/-- `_GetAvailWriteSpace`. -/
def getAvailWriteSpace (rdOff wrOff : Nat) : Nat :=
  if rdOff ≤ wrOff then n - 1 - wrOff + rdOff else rdOff - wrOff - 1

/-- `SEGGER_RTT_MEMCPY` to the buffer. -/
def memcpy (off : Nat) (data : List α) : List (Nat × α) := (List.range' off data.length).zip data

/-- `_WriteNoCheck`. -/
def writeNoCheck (wrOff : Nat) (data : List α) : Plan α :=
  let rem := n - wrOff
  if data.length < rem then ⟨memcpy wrOff data, wrOff + data.length, []⟩
  else ⟨memcpy wrOff (data.take rem) ++ memcpy 0 (data.drop rem), data.length - rem, []⟩

/-- A round of the loop of `_WriteBlocking`. -/
def writeRound (rdOff wrOff : Nat) (data : List α) : Plan α :=
  let space := if wrOff < rdOff then rdOff - wrOff - 1 else n - (wrOff - rdOff + 1)
  let count := min (min space (n - wrOff)) data.length
  let next := wrOff + count
  ⟨memcpy wrOff (data.take count), if next = n then 0 else next, data.drop count⟩

/-- `SEGGER_RTT_ReadUpBufferNoLock` up to the copies. Where its first part stops short of the end of the ring, it has
    filled the caller's buffer and the second part is empty. -/
def readUpBuffer (rdOff wrOff size : Nat) : Fetch :=
  let first := if wrOff < rdOff then min (n - rdOff) size else 0
  let rd := if rdOff + first = n then 0 else rdOff + first
  let second := min (wrOff - rd) (size - first)
  ⟨List.range' rdOff first ++ List.range' rd second, rd + second⟩

end

/-- The target in a write call: it is at the head of a round, or carries a plan out. -/
inductive Writer (α : Type*) where
  | idle
  | round (data : List α)
  | storing (plan : Plan α)
  deriving DecidableEq, Repr

/-- The host in a read call. -/
inductive Reader (α : Type*) where
  | idle
  | loading (fetch : Fetch) (got : List α)
  deriving DecidableEq, Repr

/-- The ring of `n` cells and both sides, with the bytes that the writes have taken, those behind which the write offset has
    moved, and those that the host has read. -/
structure UpBuffer (α : Type*) (n : Nat) where
  pBuffer : Fin n → α
  rdOff : Nat
  wrOff : Nat
  writer : Writer α
  reader : Reader α
  accepted : List α
  published : List α
  delivered : List α

inductive RttAct (α : Type*) where
  | write (mode : Mode) (data : List α)
  | round
  | store
  | publish
  | read (size : Nat)
  | load
  | finish

namespace UpBuffer
variable {α : Type*} {n : Nat}

/-- After `_DoInit`. -/
def init (mem : Fin n → α) : UpBuffer α n := ⟨mem, 0, 0, .idle, .idle, [], [], []⟩

/-- `SEGGER_RTT_WriteNoLock` up to the copies. -/
def writeNoLock (mode : Mode) (data : List α) (u : UpBuffer α n) : UpBuffer α n :=
  let avail := getAvailWriteSpace n u.rdOff u.wrOff
  match mode with
  | .skip =>
    if avail < data.length then u
    else { u with accepted := u.accepted ++ data, writer := .storing (writeNoCheck n u.wrOff data) }
  | .trim =>
    { u with accepted := u.accepted ++ data.take avail, writer := .storing (writeNoCheck n u.wrOff (data.take avail)) }
  | .block => { u with accepted := u.accepted ++ data, writer := .round data }

/-- A write takes as much of the front of the data as it returns. -/
theorem accepted_writeNoLock (mode : Mode) (data : List α) (u : UpBuffer α n) : (u.writeNoLock mode data).accepted =
    u.accepted ++ data.take (mode.status (getAvailWriteSpace n u.rdOff u.wrOff) data.length) := by
  cases mode with
  | skip =>
    simp only [writeNoLock, Mode.status]
    split
    · rw [List.take_zero, List.append_nil]
    · rw [List.take_length]
  | trim =>
    simp only [writeNoLock, Mode.status]
    split
    · rfl
    · rename_i hroom
      rw [List.take_length, List.take_of_length_le (Nat.le_of_not_lt hroom)]
  | block => rw [Mode.status, List.take_length, writeNoLock]

def step (u : UpBuffer α n) : RttAct α → Option (UpBuffer α n)
  | .write mode data =>
    match u.writer with
    | .idle => some (u.writeNoLock mode data)
    | _ => none
  | .round =>
    match u.writer with
    | .round data => some { u with writer := .storing (writeRound n u.rdOff u.wrOff data) }
    | _ => none
  | .store =>
    match u.writer with
    | .storing ⟨(off, a) :: stores, wrOff, more⟩ =>
      (FixedArray.store u.pBuffer off a).map fun mem => { u with pBuffer := mem, writer := .storing ⟨stores, wrOff, more⟩ }
    | _ => none
  | .publish =>
    match u.writer with
    | .storing ⟨[], wrOff, more⟩ =>
      some { u with
        wrOff := wrOff
        writer := if more = [] then .idle else .round more
        published := u.accepted.take (u.accepted.length - more.length) }
    | _ => none
  | .read size =>
    match u.reader with
    | .idle => some { u with reader := .loading (readUpBuffer n u.rdOff u.wrOff size) [] }
    | _ => none
  | .load =>
    match u.reader with
    | .loading ⟨off :: cells, rdOff⟩ got =>
      (FixedArray.load u.pBuffer off).map fun a => { u with reader := .loading ⟨cells, rdOff⟩ (got ++ [a]) }
    | _ => none
  | .finish =>
    match u.reader with
    | .loading ⟨[], rdOff⟩ got =>
      some { u with
        rdOff := if got = [] then u.rdOff else rdOff
        reader := .idle
        delivered := u.delivered ++ got }
    | _ => none

end UpBuffer

/-! ### Offsets and positions -/

section
variable {α : Type*} {n r w size : Nat} {data : List α}

/-- The offset of a later position, at most a ring ahead. -/
theorem offset_add {d : Nat} (hn : 0 < n) (hd : d ≤ n) :
    (r + d) % n = if r % n + d < n then r % n + d else r % n + d - n := by
  have hr := Nat.mod_lt r hn
  rw [← Nat.mod_add_mod]
  generalize r % n = x at hr ⊢
  split
  · exact Nat.mod_eq_of_lt ‹_›
  · rw [Nat.mod_eq_sub_mod (by omega), Nat.mod_eq_of_lt (by omega)]

/-- The offsets of two positions that are less than a ring apart. -/
theorem offsets_cases (hle : r ≤ w) (hlt : w < r + n) : r % n < n ∧ w % n < n ∧
    ((r % n ≤ w % n ∧ w % n - r % n = w - r) ∨ (w % n < r % n ∧ w % n + n - r % n = w - r)) := by
  have hn : 0 < n := by omega
  have hw := offset_add (r := r) hn (show w - r ≤ n by omega)
  rw [Nat.add_sub_cancel' hle] at hw
  refine ⟨Nat.mod_lt _ hn, Nat.mod_lt _ hn, ?_⟩
  have hr := Nat.mod_lt r hn
  split at hw <;> omega

theorem getAvailWriteSpace_eq (hle : r ≤ w) (hlt : w < r + n) :
    getAvailWriteSpace n (r % n) (w % n) = n - 1 - (w - r) := by
  obtain ⟨hr, hw, h⟩ := offsets_cases hle hlt
  unfold getAvailWriteSpace
  split <;> omega

theorem memcpy_eq {off : Nat} (hoff : w % n = off) (hfit : off + data.length ≤ n) :
    memcpy off data = (cells n w data.length).zip data := by rw [memcpy, cells_eq_range hoff hfit]

theorem writeNoCheck_eq (hn : 0 < n) (hfit : data.length ≤ n) :
    writeNoCheck n (w % n) data = ⟨(cells n w data.length).zip data, (w + data.length) % n, []⟩ := by
  have hw := Nat.mod_lt w hn
  have hend := offset_add (r := w) hn hfit
  unfold writeNoCheck
  dsimp only
  by_cases hin : data.length < n - w % n
  · rw [if_pos hin, memcpy_eq rfl (by omega), hend, if_pos (by omega)]
  · have hlen : (data.take (n - w % n)).length = n - w % n := List.length_take_of_le (by omega)
    have hzip : (cells n w data.length).zip data =
        memcpy (w % n) (data.take (n - w % n)) ++ memcpy 0 (data.drop (n - w % n)) := by
      rw [cells_eq_wrap rfl hn (by omega) hfit, memcpy, memcpy, hlen, List.length_drop, ← List.zip_append (by
        rw [List.length_range', hlen]), List.take_append_drop]
    have hoff : data.length - (n - w % n) = w % n + data.length - n := by omega
    rw [if_neg hin, hzip, hend, if_neg (by omega), hoff]

theorem writeRound_eq (data : List α) (hle : r ≤ w) (hlt : w < r + n) : ∃ k ≤ data.length, w + k < r + n ∧
    writeRound n (r % n) (w % n) data =
      ⟨(cells n w k).zip (data.take k), (w + k) % n, data.drop k⟩ := by
  obtain ⟨hr, hw, h⟩ := offsets_cases hle hlt
  unfold writeRound
  dsimp only
  generalize hspace : (if w % n < r % n then r % n - w % n - 1 else n - (w % n - r % n + 1)) = space
  have hspace : space = n - 1 - (w - r) := by
    rw [← hspace]
    split <;> omega
  refine ⟨min (min space (n - w % n)) data.length, Nat.min_le_right .., by omega, ?_⟩
  generalize hk : min (min space (n - w % n)) data.length = k
  have hlen : (data.take k).length = k := List.length_take_of_le (by omega)
  rw [memcpy_eq rfl (by omega), hlen, offset_add (r := w) (by omega) (show k ≤ n by omega)]
  congr 1
  split <;> split <;> omega

theorem readUpBuffer_eq (size : Nat) (hle : r ≤ w) (hlt : w < r + n) : readUpBuffer n (r % n) (w % n) size =
    ⟨cells n r (min (w - r) size), (r + min (w - r) size) % n⟩ := by
  obtain ⟨hr, hw, h⟩ := offsets_cases hle hlt
  have hend := offset_add (r := r) (by omega) (show min (w - r) size ≤ n by omega)
  unfold readUpBuffer
  dsimp only
  rw [hend]
  by_cases hwrap : w % n < r % n
  · rw [if_pos hwrap]
    by_cases hshort : size < n - r % n
    · have hfirst : min (n - r % n) size = size := by omega
      have hall : min (w - r) size = size := by omega
      rw [hfirst, hall, Nat.sub_self, Nat.min_zero, List.range'_zero, List.append_nil,
        cells_eq_range rfl (by omega), if_neg (by omega), if_pos (by omega), Nat.add_zero]
    · have hfirst : min (n - r % n) size = n - r % n := by omega
      have hall : min (w - r) size = n - r % n + min (w % n) (size - (n - r % n)) := by omega
      rw [hfirst, if_pos (by omega), hall, Nat.sub_zero, cells_eq_wrap rfl (by omega) (by omega) (by omega),
        Nat.add_sub_cancel_left, if_neg (by omega)]
      congr 1
      omega
  · have hall : min (w % n - r % n) size = min (w - r) size := by omega
    rw [if_neg hwrap, Nat.add_zero, if_neg (by omega), Nat.sub_zero, hall, List.range'_zero, List.nil_append,
      cells_eq_range rfl (by omega), if_pos (by omega)]

end

/-! ### Every interleaving -/

namespace UpBuffer
variable {α : Type*} {n : Nat} {u u' : UpBuffer α n}

/-- What the target has still to do in its call. -/
def plan (u : UpBuffer α n) : Plan α :=
  match u.writer with
  | .idle => ⟨[], u.wrOff, []⟩
  | .round data => ⟨[], u.wrOff, data⟩
  | .storing plan => plan

theorem plan_storing {p : Plan α} (h : u.writer = .storing p) : u.plan = p := by rw [plan, h]

theorem plan_next (more : List α) (h : u.writer = if more = [] then .idle else .round more) :
    u.plan = ⟨[], u.wrOff, more⟩ := by
  rw [plan, h]
  by_cases hmore : more = []
  · rw [if_pos hmore, hmore]
  · rw [if_neg hmore]

/-- Of the bytes that the target has taken, `staged` are stored and not published, and `rest` are to be stored. The ring holds
    all that is stored and not read, and has room for the rest. -/
structure Staged (u : UpBuffer α n) (staged rest : List α) : Prop where
  accepted : u.accepted = u.published ++ staged ++ rest ++ u.plan.more
  stores : u.plan.stores = (cells n (u.published.length + staged.length) rest.length).zip rest
  wrOff : u.plan.wrOff = (u.published.length + staged.length + rest.length) % n
  room : u.published.length + staged.length + rest.length < u.delivered.length + n
  held : Holds u.pBuffer u.delivered.length ((u.published ++ staged).drop u.delivered.length)
  quiet : (∀ plan, u.writer ≠ .storing plan) → staged = [] ∧ rest = []

/-- The host has loaded what was published behind the read offset, and loads no more than that. -/
def Loads (u : UpBuffer α n) : Prop :=
  ∀ fetch got, u.reader = .loading fetch got → ∃ k,
    fetch = ⟨cells n (u.delivered.length + got.length) k, (u.delivered.length + got.length + k) % n⟩ ∧
      u.delivered.length + got.length + k ≤ u.published.length ∧ got <+: u.published.drop u.delivered.length

structure Inv (u : UpBuffer α n) : Prop where
  wrOff : u.wrOff = u.published.length % n
  rdOff : u.rdOff = u.delivered.length % n
  read : u.delivered <+: u.published
  writes : ∃ staged rest, Staged u staged rest
  loads : Loads u

theorem Inv.le (inv : Inv u) : u.delivered.length ≤ u.published.length := inv.read.length_le

theorem Inv.lt (inv : Inv u) : u.published.length < u.delivered.length + n := by
  obtain ⟨staged, rest, hs⟩ := inv.writes
  have hroom := hs.room
  omega

/-- Between two plans the target has stored nothing that it has not published. -/
theorem Inv.quiet (inv : Inv u) (hquiet : ∀ plan, u.writer ≠ .storing plan) :
    u.accepted = u.published ++ u.plan.more ∧ Holds u.pBuffer u.delivered.length (u.published.drop u.delivered.length) := by
  obtain ⟨staged, rest, hs⟩ := inv.writes
  obtain ⟨rfl, rfl⟩ := hs.quiet hquiet
  have haccepted := hs.accepted
  have hheld := hs.held
  rw [List.append_nil] at haccepted hheld
  rw [List.append_nil] at haccepted
  exact ⟨haccepted, hheld⟩

theorem inv_init (hn : 0 < n) (mem : Fin n → α) : Inv (init mem) := by
  refine ⟨(Nat.zero_mod n).symm, (Nat.zero_mod n).symm, List.prefix_refl _, ⟨[], [], ?_⟩, fun fetch got h => by cases h⟩
  exact ⟨rfl, rfl, (Nat.zero_mod n).symm, (Nat.zero_add n).symm ▸ hn, holds_nil _ _, fun _ => ⟨rfl, rfl⟩⟩

/-- A plan that stores the first of the data that come next. -/
theorem Inv.begin (inv : Inv u) (hquiet : ∀ plan, u.writer ≠ .storing plan) {accepted data : List α} {k : Nat}
    (haccepted : accepted = u.published ++ data) (hk : k ≤ data.length)
    (hroom : u.published.length + k < u.delivered.length + n) :
    Inv { u with
      accepted := accepted
      writer := .storing ⟨(cells n u.published.length k).zip (data.take k), (u.published.length + k) % n, data.drop k⟩ } := by
  have hlen : (data.take k).length = k := List.length_take_of_le hk
  refine ⟨inv.wrOff, inv.rdOff, inv.read, ⟨[], data.take k, ?_⟩, inv.loads⟩
  refine ⟨?_, ?_, ?_, ?_, ?_, fun h => absurd rfl (h _)⟩
  · show accepted = _ ++ data.drop k
    rw [haccepted, List.append_nil, List.append_assoc, List.take_append_drop]
  · rw [hlen]
    rfl
  · rw [hlen]
    rfl
  · rw [hlen]
    exact hroom
  · rw [List.append_nil]
    exact (inv.quiet hquiet).2

/-- What the write calls of the two modes that do not block begin with. -/
theorem Inv.noCheck (inv : Inv u) (hidle : u.writer = .idle) {taken : List α}
    (hfit : taken.length ≤ getAvailWriteSpace n u.rdOff u.wrOff) :
    Inv { u with accepted := u.accepted ++ taken, writer := .storing (writeNoCheck n u.wrOff taken) } := by
  have hquiet : ∀ plan, u.writer ≠ .storing plan := fun plan h => by rw [hidle] at h; cases h
  have haccepted := (inv.quiet hquiet).1
  rw [plan, hidle, List.append_nil] at haccepted
  have hlt := inv.lt
  have hle := inv.le
  rw [inv.rdOff, inv.wrOff, getAvailWriteSpace_eq hle hlt] at hfit
  have hplan : writeNoCheck n (u.published.length % n) taken = _ := writeNoCheck_eq (by omega) (by omega)
  rw [← inv.wrOff] at hplan
  rw [hplan, haccepted]
  have hbegin := inv.begin hquiet (k := taken.length) (rfl : u.published ++ taken = _) (Nat.le_refl _) (by omega)
  rwa [List.take_length, List.drop_length] at hbegin

theorem Inv.write (inv : Inv u) {mode : Mode} {data : List α} (hstep : step u (.write mode data) = some u') : Inv u' := by
  cases hidle : u.writer with
  | round _ | storing _ =>
    simp only [step, hidle] at hstep
    cases hstep
  | idle =>
    have hquiet : ∀ plan, u.writer ≠ .storing plan := fun plan h => by rw [hidle] at h; cases h
    obtain ⟨haccepted, hheld⟩ := inv.quiet hquiet
    rw [plan, hidle, List.append_nil] at haccepted
    simp only [step, hidle] at hstep
    cases hstep
    cases mode with
    | skip =>
      unfold writeNoLock
      dsimp only
      by_cases hdrop : getAvailWriteSpace n u.rdOff u.wrOff < data.length
      · rw [if_pos hdrop]
        exact inv
      · rw [if_neg hdrop]
        exact inv.noCheck hidle (Nat.le_of_not_lt hdrop)
    | trim => exact inv.noCheck hidle (List.length_take_le ..)
    | block =>
      refine ⟨inv.wrOff, inv.rdOff, inv.read, ⟨[], [], ?_⟩, inv.loads⟩
      refine ⟨?_, rfl, inv.wrOff, inv.lt, ?_, fun _ => ⟨rfl, rfl⟩⟩
      · show u.accepted ++ data = _
        rw [haccepted, List.append_nil, List.append_nil]
        rfl
      · rw [List.append_nil]
        exact hheld

theorem Inv.round (inv : Inv u) (hstep : step u .round = some u') : Inv u' := by
  cases hround : u.writer with
  | idle | storing _ =>
    simp only [step, hround] at hstep
    cases hstep
  | round data =>
    simp only [step, hround] at hstep
    cases hstep
    have hquiet : ∀ plan, u.writer ≠ .storing plan := fun plan h => by rw [hround] at h; cases h
    obtain ⟨haccepted, -⟩ := inv.quiet hquiet
    rw [plan, hround] at haccepted
    obtain ⟨k, hk, hroom, hplan⟩ := writeRound_eq data inv.le inv.lt
    rw [← inv.rdOff, ← inv.wrOff] at hplan
    rw [hplan]
    exact inv.begin hquiet haccepted hk hroom

theorem Inv.store (inv : Inv u) {off wrOff : Nat} {a : α} {stores : List (Nat × α)} {more : List α}
    (hplan : u.writer = .storing ⟨(off, a) :: stores, wrOff, more⟩) :
    ∃ mem, FixedArray.store u.pBuffer off a = some mem ∧
      Inv { u with pBuffer := mem, writer := .storing ⟨stores, wrOff, more⟩ } := by
  obtain ⟨staged, rest, hs⟩ := inv.writes
  have hle := inv.le
  have hroom := hs.room
  have hstores := hs.stores
  have hoff := hs.wrOff
  have haccepted := hs.accepted
  rw [plan_storing hplan] at hstores hoff haccepted
  cases rest with
  | nil => cases hstores
  | cons b rest =>
    rw [List.length_cons, cells_succ, List.zip_cons_cons] at hstores
    obtain ⟨hhead, htail⟩ := List.cons_eq_cons.mp hstores
    cases hhead
    rw [List.length_cons] at hroom hoff
    have hlen : ((u.published ++ staged).drop u.delivered.length).length =
        u.published.length + staged.length - u.delivered.length := by rw [List.length_drop, List.length_append]
    obtain ⟨mem, hstore, hheld⟩ := hs.held.store (by omega) a
    rw [hlen, show u.delivered.length + (u.published.length + staged.length - u.delivered.length) =
      u.published.length + staged.length by omega] at hstore
    refine ⟨mem, hstore, inv.wrOff, inv.rdOff, inv.read, ⟨staged ++ [a], rest, ?_⟩, inv.loads⟩
    have hsucc : (staged ++ [a]).length = staged.length + 1 := by rw [List.length_append, List.length_singleton]
    refine ⟨?_, ?_, ?_, ?_, ?_, fun h => absurd rfl (h _)⟩
    · show u.accepted = u.published ++ (staged ++ [a]) ++ rest ++ more
      simp [haccepted]
    · rw [hsucc]
      exact htail
    · rw [hsucc, show u.published.length + (staged.length + 1) + rest.length =
        u.published.length + staged.length + (rest.length + 1) by omega]
      exact hoff
    · rw [hsucc]
      show u.published.length + (staged.length + 1) + rest.length < u.delivered.length + n
      omega
    · rw [← List.drop_append_of_le_length (by rw [List.length_append]; omega), List.append_assoc] at hheld
      exact hheld

theorem Inv.publish (inv : Inv u) {wrOff : Nat} {more : List α} (hplan : u.writer = .storing ⟨[], wrOff, more⟩) :
    Inv { u with
      wrOff := wrOff
      writer := if more = [] then .idle else .round more
      published := u.accepted.take (u.accepted.length - more.length) } := by
  obtain ⟨staged, rest, hs⟩ := inv.writes
  have hstores := hs.stores
  have hoff := hs.wrOff
  have haccepted := hs.accepted
  have hroom := hs.room
  have hheld := hs.held
  rw [plan_storing hplan] at hstores hoff haccepted
  cases rest with
  | cons b rest => cases hstores
  | nil =>
    rw [List.append_nil] at haccepted
    have hpublished : u.accepted.take (u.accepted.length - more.length) = u.published ++ staged := by
      rw [haccepted, List.length_append, Nat.add_sub_cancel, List.take_left']
      rfl
    rw [hpublished]
    refine ⟨?_, inv.rdOff, inv.read.trans (List.prefix_append ..), ⟨[], [], ?_⟩, fun fetch got h => ?_⟩
    · rw [List.length_append]
      exact hoff
    · refine ⟨?_, ?_, ?_, ?_, ?_, fun _ => ⟨rfl, rfl⟩⟩
      · rw [plan_next more rfl, List.append_nil, List.append_nil]
        exact haccepted
      · rw [plan_next more rfl]
        rfl
      · rw [plan_next more rfl, List.length_append]
        exact hoff
      · rw [List.length_append]
        exact hroom
      · rw [List.append_nil]
        exact hheld
    · obtain ⟨k, hfetch, hle, hgot⟩ := inv.loads fetch got h
      refine ⟨k, hfetch, ?_, ?_⟩
      · rw [List.length_append]
        exact Nat.le_trans hle (Nat.le_add_right ..)
      · rw [List.drop_append_of_le_length inv.le]
        exact hgot.trans (List.prefix_append ..)

theorem Inv.reading (inv : Inv u) {fetch : Fetch} {got : List α} {k : Nat}
    (hfetch : fetch = ⟨cells n (u.delivered.length + got.length) k, (u.delivered.length + got.length + k) % n⟩)
    (hle : u.delivered.length + got.length + k ≤ u.published.length) (hgot : got <+: u.published.drop u.delivered.length) :
    Inv { u with reader := .loading fetch got } := by
  obtain ⟨staged, rest, hs⟩ := inv.writes
  refine ⟨inv.wrOff, inv.rdOff, inv.read, ⟨staged, rest, ?_⟩, fun fetch' got' h => ?_⟩
  · exact ⟨hs.accepted, hs.stores, hs.wrOff, hs.room, hs.held, hs.quiet⟩
  · cases h
    exact ⟨k, hfetch, hle, hgot⟩

theorem Inv.beginRead (inv : Inv u) (size : Nat) :
    Inv { u with reader := .loading (readUpBuffer n u.rdOff u.wrOff size) [] } := by
  have hle := inv.le
  have hfetch := readUpBuffer_eq size hle inv.lt
  rw [← inv.rdOff, ← inv.wrOff] at hfetch
  refine inv.reading (k := min (u.published.length - u.delivered.length) size) hfetch ?_ (List.nil_prefix)
  rw [List.length_nil]
  omega

theorem Inv.load (inv : Inv u) {off rdOff : Nat} {cells : List Nat} {got : List α}
    (hfetch : u.reader = .loading ⟨off :: cells, rdOff⟩ got) : ∃ a, FixedArray.load u.pBuffer off = some a ∧
      Inv { u with reader := .loading ⟨cells, rdOff⟩ (got ++ [a]) } := by
  obtain ⟨k, hcells, hle, hgot⟩ := inv.loads _ _ hfetch
  obtain ⟨staged, rest, hs⟩ := inv.writes
  cases k with
  | zero => cases hcells
  | succ k =>
    rw [cells_succ] at hcells
    obtain ⟨hcells, hoff⟩ := Fetch.mk.inj hcells
    obtain ⟨rfl, htail⟩ := List.cons_eq_cons.mp hcells
    have hin : got.length < (u.published.drop u.delivered.length).length := by
      rw [List.length_drop]
      omega
    refine ⟨(u.published.drop u.delivered.length)[got.length], ?_, ?_⟩
    · rw [hs.held got.length (by rw [List.length_drop, List.length_append]; omega),
        List.drop_append_of_le_length inv.le, List.getElem?_append_left hin, List.getElem?_eq_getElem hin]
    · have hsucc : (got ++ [(u.published.drop u.delivered.length)[got.length]]).length = got.length + 1 := by
        rw [List.length_append, List.length_singleton]
      refine inv.reading (k := k) ?_ ?_ ?_
      · rw [hsucc, htail, hoff, ← Nat.add_assoc, Nat.add_right_comm _ k 1]
        rfl
      · rw [hsucc]
        omega
      · exact List.concat_get_prefix hgot hin

theorem Inv.finish (inv : Inv u) {rdOff : Nat} {got : List α} (hfetch : u.reader = .loading ⟨[], rdOff⟩ got) :
    Inv { u with
      rdOff := if got = [] then u.rdOff else rdOff
      reader := .idle
      delivered := u.delivered ++ got } := by
  obtain ⟨k, hcells, hle, hgot⟩ := inv.loads _ _ hfetch
  obtain ⟨staged, rest, hs⟩ := inv.writes
  have hroom := hs.room
  have hlen : (u.delivered ++ got).length = u.delivered.length + got.length := List.length_append
  cases k with
  | succ k => cases hcells
  | zero =>
    have hoff : rdOff = (u.delivered.length + got.length) % n := (Fetch.mk.inj hcells).2
    refine ⟨inv.wrOff, ?_, ?_, ⟨staged, rest, ?_⟩, fun fetch got h => by cases h⟩
    · rw [hlen]
      by_cases hnil : got = []
      · rw [if_pos hnil, hnil]
        exact inv.rdOff
      · rw [if_neg hnil]
        exact hoff
    · obtain ⟨tail, htail⟩ := inv.read
      rw [← htail, List.drop_left' rfl] at hgot
      rw [← htail]
      exact (List.prefix_append_right_inj _).mpr hgot
    · refine ⟨hs.accepted, hs.stores, hs.wrOff, ?_, ?_, hs.quiet⟩
      · rw [hlen]
        show u.published.length + staged.length + rest.length < u.delivered.length + got.length + n
        omega
      · rw [hlen, ← List.drop_drop]
        exact hs.held.drop _

theorem Inv.step (inv : Inv u) {act : RttAct α} (hstep : step u act = some u') : Inv u' := by
  unfold UpBuffer.step at hstep
  cases act with
  | write mode data => exact inv.write hstep
  | round => exact inv.round hstep
  | store =>
    dsimp only at hstep
    split at hstep
    · rename_i off a stores wrOff more hplan
      obtain ⟨mem, hstore, hinv⟩ := inv.store hplan
      rw [hstore] at hstep
      cases hstep
      exact hinv
    · cases hstep
  | publish =>
    dsimp only at hstep
    split at hstep
    · cases hstep
      exact inv.publish ‹_›
    · cases hstep
  | read size =>
    dsimp only at hstep
    split at hstep
    · cases hstep
      exact inv.beginRead size
    · cases hstep
  | load =>
    dsimp only at hstep
    split at hstep
    · rename_i off cells rdOff got hfetch
      obtain ⟨a, hload, hinv⟩ := inv.load hfetch
      rw [hload] at hstep
      cases hstep
      exact hinv
    · cases hstep
  | finish =>
    dsimp only at hstep
    split at hstep
    · cases hstep
      exact inv.finish ‹_›
    · cases hstep

/-- Whatever the target and the host do in between: the host reads just the bytes that the writes have taken, in order and
    none twice, all of them but those that are still under way; no store or load is out of bounds; a read takes all that is
    published, and a write sees the room that there is, with one cell less than the ring has. -/
theorem up_buffer_stream (hn : 0 < n) {mem : Fin n → α} {acts : List (RttAct α)}
    (run : Run UpBuffer.step (fun _ _ => True) (init mem) acts u) :
    u.delivered <+: u.published ∧ u.published <+: u.accepted ∧ (u.writer = .idle → u.published = u.accepted) ∧
    (∀ off a stores wrOff more, u.writer = .storing ⟨(off, a) :: stores, wrOff, more⟩ → (UpBuffer.step u .store).isSome) ∧
    (∀ off cells rdOff got, u.reader = .loading ⟨off :: cells, rdOff⟩ got → (UpBuffer.step u .load).isSome) ∧
    (∀ size, (readUpBuffer n u.rdOff u.wrOff size).cells.length =
      min (u.published.length - u.delivered.length) size) ∧
    getAvailWriteSpace n u.rdOff u.wrOff + (u.published.length - u.delivered.length) + 1 = n := by
  have inv : Inv u := run.invariant (inv_init hn mem) fun _ _ _ ht _ hstep => ht.step hstep
  have hlt := inv.lt
  have hle := inv.le
  refine ⟨inv.read, ?_, fun hidle => ?_, fun off a stores wrOff more hplan => ?_, fun off cells rdOff got hfetch => ?_,
    fun size => ?_, ?_⟩
  · obtain ⟨staged, rest, hs⟩ := inv.writes
    rw [hs.accepted, List.append_assoc, List.append_assoc]
    exact List.prefix_append ..
  · have hquiet := (inv.quiet fun plan h => by rw [hidle] at h; cases h).1
    rw [plan, hidle, List.append_nil] at hquiet
    exact hquiet.symm
  · obtain ⟨mem, hstore, -⟩ := inv.store hplan
    simp only [UpBuffer.step, hplan, hstore, Option.map_some, Option.isSome_some]
  · obtain ⟨a, hload, -⟩ := inv.load hfetch
    simp only [UpBuffer.step, hfetch, hload, Option.map_some, Option.isSome_some]
  · rw [inv.rdOff, inv.wrOff, readUpBuffer_eq size hle hlt, length_cells]
  · rw [inv.rdOff, inv.wrOff, getAvailWriteSpace_eq hle hlt]
    omega

/-- The host reads a part while the ring is full and a write waits for it. -/
def fullRun : List (RttAct Nat) :=
  [.write .skip [1, 2, 3], .store, .store, .read 2, .store, .publish, .finish, .write .skip [4], .write .block [5, 6], .round,
    .publish, .read 2, .load, .load, .finish, .round, .store, .publish, .round, .store, .publish]

theorem up_buffer_stream_full : ∃ u : UpBuffer Nat 4, u.delivered = [1, 2] ∧ u.published = [1, 2, 3, 5, 6] ∧
    u.published = u.accepted ∧ getAvailWriteSpace 4 u.rdOff u.wrOff = 0 := by
  obtain ⟨u, hexec, hdelivered, hpublished, hidle⟩ : ∃ u : UpBuffer Nat 4, exec UpBuffer.step (init fun _ => 0) fullRun = some u ∧
      u.delivered = [1, 2] ∧ u.published = [1, 2, 3, 5, 6] ∧ u.writer = .idle := exists_of_any (by decide)
  obtain ⟨-, -, hall, -, -, -, hspace⟩ := up_buffer_stream (by decide) (Run.of_exec_step hexec)
  rw [hdelivered, hpublished] at hspace
  exact ⟨u, hdelivered, hpublished, hall hidle, by simpa using hspace⟩

end UpBuffer

end RodActuator.Rtt
