import RodActuator.Rtt.Numeral
import RodActuator.Rtt.UpBuffer

/-! Formatted prints to the ring (`RTT/SEGGER_RTT_printf.c`). The text goes to a buffer, and each time the buffer is full it
    is written to the ring. After a write of which the ring does not take all the print stops, but a field that is filled up
    on the right tries the same write once more. -/

namespace RodActuator.Rtt

/-- `SEGGER_RTT_PRINTF_BUFFER_SIZE`. -/
def printfBufferSize : Nat := 64

/-- A call of `SEGGER_RTT_Write` and what it returns. -/
structure RttWrite where
  data : List Char
  status : Nat
  deriving DecidableEq, Repr

/-- `SEGGER_RTT_PRINTF_DESC`, with the writes so far. -/
structure Desc where
  buffer : List Char
  returnValue : Int
  log : List RttWrite
  deriving DecidableEq, Repr

/-- The flags of a conversion. -/
structure FormatFlags where
  leftJustify : Bool
  padZero : Bool
  printSign : Bool
  alternate : Bool
  deriving DecidableEq, Repr

/-- An argument that `va_arg` reads; a text ends before its NUL. -/
inductive Arg where
  | int (v : BitVec 32)
  | str (s : List Char)
  deriving DecidableEq, Repr

/-- What a conversion stores: parts, each unless a write has been refused before, the last of them with a tail that does not
    ask. -/
structure Output where
  parts : List (List Char)
  last : List Char
  tail : List Char
  deriving DecidableEq, Repr

/-- `_aV2C`. -/
def aV2C (d : Nat) : Char := "0123456789ABCDEF".toList.getD d '\x00'

namespace Output

def char (c : Char) : Output := ⟨[], [c], []⟩

def none : Output := ⟨[], [], []⟩

/-- `_PrintUnsigned`. -/
def unsigned (v : BitVec 32) (base numDigits fieldWidth : Nat) (flags : FormatFlags) : Output :=
  let fill := fieldWidth - numWidth base v.toNat numDigits
  ⟨[if flags.leftJustify then [] else List.replicate fill (if flags.padZero && numDigits = 0 then '0' else ' ')],
    (numeral base v.toNat numDigits).map aV2C, if flags.leftJustify then List.replicate fill ' ' else []⟩

/-- `_PrintInt`; the least number is its own opposite. -/
def int (v : BitVec 32) (base numDigits fieldWidth : Nat) (flags : FormatFlags) : Output :=
  let number := if v.toInt < 0 then -v else v
  let width := numWidth base number.toInt.toNat numDigits
  let fieldWidth := if 0 < fieldWidth ∧ (v.toInt < 0 ∨ flags.printSign) then fieldWidth - 1 else fieldWidth
  let spaces := if (!flags.padZero || numDigits ≠ 0) && !flags.leftJustify then fieldWidth - width else 0
  let zeros := if flags.padZero && !flags.leftJustify && numDigits = 0 then fieldWidth - spaces - width else 0
  let sign := if v.toInt < 0 then ['-'] else if flags.printSign then ['+'] else []
  let rest := unsigned number base numDigits (fieldWidth - spaces - zeros) flags
  ⟨List.replicate spaces ' ' :: sign :: List.replicate zeros '0' :: rest.parts, rest.last, rest.tail⟩

end Output

/-! ### The format -/

/-- `*sFormat`; behind the text stands its NUL. -/
def peek (fmt : List Char) : Char := fmt.headD '\x00'

def parseFlags : List Char → FormatFlags × List Char
  | '-' :: fmt => let r := parseFlags fmt; ({ r.1 with leftJustify := true }, r.2)
  | '0' :: fmt => let r := parseFlags fmt; ({ r.1 with padZero := true }, r.2)
  | '+' :: fmt => let r := parseFlags fmt; ({ r.1 with printSign := true }, r.2)
  | '#' :: fmt => let r := parseFlags fmt; ({ r.1 with alternate := true }, r.2)
  | fmt => (⟨false, false, false, false⟩, fmt)

/-- The digits of a field width or of a precision. -/
def parseNumber (n : Nat) : List Char → Nat × List Char
  | [] => (n, [])
  | c :: fmt =>
    if c.isDigit then parseNumber ((n * 10 + (c.toNat - '0'.toNat)) % 2 ^ 32) fmt else (n, c :: fmt)

def parseLength : List Char → List Char
  | 'l' :: fmt | 'h' :: fmt => parseLength fmt
  | fmt => fmt

/-- What a specifier stores of the arguments, and the arguments behind. -/
def convert (spec : Char) (numDigits fieldWidth : Nat) (flags : FormatFlags) (args : List Arg) :
    Option (Output × List Arg) :=
  match spec, args with
  | 'c', .int v :: args => some (.char (Char.ofNat (v.toNat % 256)), args)
  | 'd', .int v :: args => some (.int v 10 numDigits fieldWidth flags, args)
  | 'u', .int v :: args => some (.unsigned v 10 numDigits fieldWidth flags, args)
  | 'x', .int v :: args | 'X', .int v :: args => some (.unsigned v 16 numDigits fieldWidth flags, args)
  | 's', .str s :: args => some (⟨[], s, []⟩, args)
  | 'p', .int v :: args => some (.unsigned v 16 8 8 ⟨false, false, false, false⟩, args)
  | '%', args => some (.char '%', args)
  | c, args => if c ∈ ['c', 'd', 'u', 'x', 'X', 's', 'p'] then Option.none else some (.none, args)

/-- The loop of `SEGGER_RTT_vprintf` over the format up to its NUL. There is no result where an argument is missing or of
    the other kind, and where the format ends within a conversion: the loop then goes on behind the NUL. -/
def outputs : Nat → List Char → List Arg → Option (List Output)
  | 0, _, _ => Option.none
  | _ + 1, [], _ => some []
  | fuel + 1, c :: fmt, args =>
    if c ≠ '%' then (outputs fuel fmt args).map (Output.char c :: ·)
    else
      let (flags, fmt) := parseFlags fmt
      let (fieldWidth, fmt) := parseNumber 0 fmt
      let (numDigits, fmt) := if peek fmt = '.' then parseNumber 0 fmt.tail else (0, fmt)
      match parseLength fmt with
      | [] => Option.none
      | spec :: fmt => (convert spec numDigits fieldWidth flags args).bind fun r =>
        (outputs fuel fmt r.2).map (r.1 :: ·)

/-! ### The print -/

section
variable (mode : Mode) (avail : Nat → Nat)

/-- `SEGGER_RTT_Write` of the buffer; `avail` is the room of the ring at each write. -/
def Desc.write (p : Desc) : Desc :=
  { p with log := p.log ++ [⟨p.buffer, mode.status (avail p.log.length) p.buffer.length⟩] }

/-- `_StoreChar`. -/
def storeChar (c : Char) (p : Desc) : Desc :=
  let p := if p.buffer.length + 1 ≤ printfBufferSize then
    { p with buffer := p.buffer ++ [c], returnValue := p.returnValue + 1 } else p
  if p.buffer.length = printfBufferSize then
    if mode.status (avail p.log.length) p.buffer.length ≠ p.buffer.length then
      { p.write mode avail with returnValue := -1 }
    else { p.write mode avail with buffer := [] }
  else p

/-- A loop over `_StoreChar` that a refused write ends. -/
def storeChars : List Char → Desc → Desc
  | [], p => p
  | c :: text, p =>
    let p := storeChar mode avail c p
    if p.returnValue < 0 then p else storeChars text p

def guarded (p : Desc) (text : List Char) : Desc := if p.returnValue < 0 then p else storeChars mode avail text p

def Output.print (o : Output) (p : Desc) : Desc :=
  let p := o.parts.foldl (guarded mode avail) p
  if p.returnValue < 0 then p else storeChars mode avail o.tail (storeChars mode avail o.last p)

def printAll : List Output → Desc → Desc
  | [], p => p
  | o :: os, p =>
    let p := o.print mode avail p
    if p.returnValue < 0 then p else printAll os p

/-- `SEGGER_RTT_vprintf`: what it returns, and its writes. -/
def vprintf (fmt : List Char) (args : List Arg) : Option (Int × List RttWrite) :=
  (outputs (fmt.length + 1) fmt args).map fun os =>
    let p := printAll mode avail os ⟨[], 0, []⟩
    if 0 < p.returnValue then
      let q := if p.buffer.length ≠ 0 then p.write mode avail else p
      (p.returnValue + p.buffer.length, q.log)
    else (p.returnValue, p.log)

end

/-! ### What a print leaves in the ring -/

/-- The full text of an output. -/
def Output.text (o : Output) : List Char := o.parts.flatten ++ o.last ++ o.tail

namespace RttWrite

/-- What the ring has taken of the writes. -/
def taken (log : List RttWrite) : List Char := log.flatMap fun w => w.data.take w.status

/-- A full buffer of which the ring did not take all. -/
def IsRefused (w : RttWrite) : Prop := w.data.length = printfBufferSize ∧ w.status < printfBufferSize

/-- A full buffer that the ring took. -/
def IsWhole (w : RttWrite) : Prop := w.data.length = printfBufferSize ∧ w.status = printfBufferSize

theorem IsWhole.not_isRefused {w : RttWrite} (h : w.IsWhole) : ¬w.IsRefused := fun hrefused =>
  absurd hrefused.2 (Nat.not_lt_of_le (Nat.le_of_eq h.2.symm))

theorem taken_append (log log' : List RttWrite) : taken (log ++ log') = taken log ++ taken log' := List.flatMap_append

theorem taken_singleton (w : RttWrite) : taken [w] = w.data.take w.status := List.flatMap_singleton ..

theorem dvd_length_taken {log : List RttWrite} (h : ∀ w ∈ log, w.IsWhole) : printfBufferSize ∣ (taken log).length := by
  induction log with
  | nil => exact Nat.dvd_zero _
  | cons w log ih =>
    have hw := h w List.mem_cons_self
    have htake : (w.data.take w.status).length = printfBufferSize := by
      rw [List.length_take, hw.1, hw.2, Nat.min_self]
    rw [taken, List.flatMap_cons, List.length_append, htake]
    exact (Nat.dvd_add_right (Nat.dvd_refl _)).mpr (ih fun w' hw' => h w' (List.mem_cons_of_mem _ hw'))

end RttWrite

open RttWrite

section
variable {mode : Mode} {avail : Nat → Nat} {text more : List Char} {p : Desc}

theorem Mode.status_le (mode : Mode) (room len : Nat) : mode.status room len ≤ len := by
  cases mode <;> simp only [Mode.status] <;> (try split) <;> omega

/-- Only a trimming ring takes a part. -/
theorem Mode.status_zero {room len : Nat} (hmode : mode ≠ .trim) (h : mode.status room len ≠ len) :
    mode.status room len = 0 := by
  cases mode with
  | skip =>
    simp only [Mode.status] at h ⊢
    split
    · rfl
    · rename_i hroom
      exact absurd (if_neg hroom) h
  | trim => exact absurd rfl hmode
  | block => exact absurd rfl h

/-- All of the text so far is in the ring, in whole buffers, or in the buffer. -/
structure Going (text : List Char) (p : Desc) : Prop where
  value : p.returnValue = text.length
  passed : ∀ w ∈ p.log, w.IsWhole
  whole : taken p.log ++ p.buffer = text
  room : p.buffer.length < printfBufferSize

/-- A write has been refused: but for what a trimming ring took of it, the ring has whole buffers of the front of the
    text. -/
structure Over (mode : Mode) (text : List Char) (p : Desc) : Prop where
  value : p.returnValue = -1
  refused : ∃ w ∈ p.log, w.IsRefused
  front : mode ≠ .trim → taken p.log <+: text ∧ printfBufferSize ∣ (taken p.log).length
  fails : mode ≠ .block

/-- The buffer still holds what was refused. -/
structure Refused (mode : Mode) (text : List Char) (p : Desc) : Prop where
  ended : Over mode text p
  next : mode ≠ .trim → taken p.log ++ p.buffer <+: text
  full : p.buffer.length = printfBufferSize

theorem Over.append (h : Over mode text p) (more : List Char) : Over mode (text ++ more) p :=
  ⟨h.value, h.refused, fun hmode => ⟨(h.front hmode).1.trans (List.prefix_append ..), (h.front hmode).2⟩, h.fails⟩

theorem Refused.append (h : Refused mode text p) (more : List Char) : Refused mode (text ++ more) p :=
  ⟨h.ended.append more, fun hmode => (h.next hmode).trans (List.prefix_append ..), h.full⟩

theorem Going.not_neg (h : Going text p) : ¬p.returnValue < 0 := by
  rw [h.value]
  omega

theorem Over.neg (h : Over mode text p) : p.returnValue < 0 := by
  rw [h.value]
  decide

variable (mode avail) in
/-- What the write of a full buffer gives the ring. -/
theorem write_full (hfull : p.buffer.length = printfBufferSize) :
    let st := mode.status (avail p.log.length) p.buffer.length
    (st = p.buffer.length → IsWhole ⟨p.buffer, st⟩ ∧ taken (p.write mode avail).log = taken p.log ++ p.buffer) ∧
      (st ≠ p.buffer.length → IsRefused ⟨p.buffer, st⟩ ∧ mode ≠ .block ∧
        (mode ≠ .trim → taken (p.write mode avail).log = taken p.log)) := by
  intro st
  have htaken : taken (p.write mode avail).log = taken p.log ++ p.buffer.take st := by
    rw [Desc.write, taken_append, taken_singleton]
  refine ⟨fun hall => ⟨⟨hfull, hall.trans hfull⟩, ?_⟩, fun hpart => ⟨⟨hfull, ?_⟩, ?_, fun hmode => ?_⟩⟩
  · rw [htaken, hall, List.take_length]
  · have hle : st ≤ p.buffer.length := Mode.status_le ..
    rw [hfull] at hle hpart
    exact Nat.lt_of_le_of_ne hle hpart
  · rintro rfl
    exact hpart rfl
  · have hzero : st = 0 := Mode.status_zero hmode hpart
    rw [htaken, hzero, List.take_zero, List.append_nil]

variable (mode avail) in
theorem Going.storeChar (h : Going text p) (c : Char) :
    Going (text ++ [c]) (storeChar mode avail c p) ∨ Refused mode (text ++ [c]) (storeChar mode avail c p) := by
  have hwhole : taken p.log ++ (p.buffer ++ [c]) = text ++ [c] := by rw [← List.append_assoc, h.whole]
  have hvalue : p.returnValue + 1 = ((text ++ [c]).length : Int) := by
    rw [h.value, List.length_append, List.length_singleton]
    rfl
  unfold RodActuator.Rtt.storeChar
  dsimp only
  rw [if_pos (show p.buffer.length + 1 ≤ printfBufferSize from h.room)]
  generalize hq : ({ p with buffer := p.buffer ++ [c], returnValue := p.returnValue + 1 } : Desc) = q
  obtain ⟨hbuffer, hlog, hreturn⟩ : q.buffer = p.buffer ++ [c] ∧ q.log = p.log ∧ q.returnValue = p.returnValue + 1 := by
    rw [← hq]
    exact ⟨rfl, rfl, rfl⟩
  rw [← hlog, ← hbuffer] at hwhole
  by_cases hfull : q.buffer.length = printfBufferSize
  · rw [if_pos hfull]
    obtain ⟨hall, hpart⟩ := write_full mode avail hfull
    by_cases hst : mode.status (avail q.log.length) q.buffer.length = q.buffer.length
    · obtain ⟨hnew, htaken⟩ := hall hst
      rw [if_neg (not_not.mpr hst)]
      refine .inl ⟨hreturn.trans hvalue, fun w hw => ?_, ?_, Nat.zero_lt_succ 63⟩
      · rcases List.mem_append.mp hw with hw | hw
        · exact h.passed w (hlog ▸ hw)
        · rw [List.mem_singleton.mp hw]
          exact hnew
      · exact (List.append_nil _).trans (htaken.trans hwhole)
    · obtain ⟨hnew, hfails, htaken⟩ := hpart hst
      rw [if_pos hst]
      have hmem : ∃ w ∈ (q.write mode avail).log, w.IsRefused := ⟨_, List.mem_append_right _ (List.mem_singleton_self _), hnew⟩
      refine .inr ⟨⟨rfl, hmem, fun hmode => ?_, hfails⟩, fun hmode => ?_, hfull⟩
      · show taken (q.write mode avail).log <+: _ ∧ _ ∣ (taken (q.write mode avail).log).length
        rw [htaken hmode, ← hwhole, hlog]
        exact ⟨List.prefix_append .., dvd_length_taken h.passed⟩
      · show taken (q.write mode avail).log ++ q.buffer <+: _
        rw [htaken hmode, hwhole]
  · rw [if_neg hfull]
    have hroom := h.room
    rw [hbuffer, List.length_append, List.length_singleton] at hfull
    refine .inl ⟨hreturn.trans hvalue, fun w hw => h.passed w (hlog ▸ hw), hwhole, ?_⟩
    rw [hbuffer, List.length_append, List.length_singleton]
    omega

/-- Once more the write of the full buffer. -/
theorem Refused.storeChar (h : Refused mode text p) (c : Char) : Over mode text (storeChar mode avail c p) := by
  obtain ⟨hall, hpart⟩ := write_full mode avail h.full
  obtain ⟨w, hw, hrefused⟩ := h.ended.refused
  have hmem : ∃ w ∈ (p.write mode avail).log, w.IsRefused := ⟨w, List.mem_append_left _ hw, hrefused⟩
  unfold RodActuator.Rtt.storeChar
  dsimp only
  rw [if_neg (show ¬p.buffer.length + 1 ≤ printfBufferSize from h.full ▸ Nat.not_succ_le_self _), if_pos h.full]
  by_cases hst : mode.status (avail p.log.length) p.buffer.length = p.buffer.length
  · rw [if_neg (not_not.mpr hst)]
    refine ⟨h.ended.value, hmem, fun hmode => ?_, h.ended.fails⟩
    show taken (p.write mode avail).log <+: _ ∧ _ ∣ (taken (p.write mode avail).log).length
    rw [(hall hst).2, List.length_append, h.full]
    exact ⟨h.next hmode, Nat.dvd_add_self_right.mpr (h.ended.front hmode).2⟩
  · rw [if_pos hst]
    refine ⟨rfl, hmem, fun hmode => ?_, h.ended.fails⟩
    show taken (p.write mode avail).log <+: _ ∧ _ ∣ (taken (p.write mode avail).log).length
    rw [(hpart hst).2.2 hmode]
    exact h.ended.front hmode

variable (mode avail) in
theorem Going.storeChars (h : Going text p) (more : List Char) :
    Going (text ++ more) (storeChars mode avail more p) ∨ Refused mode (text ++ more) (storeChars mode avail more p) := by
  induction more generalizing text p with
  | nil =>
    rw [List.append_nil]
    exact .inl h
  | cons c more ih =>
    rw [RodActuator.Rtt.storeChars, show text ++ c :: more = text ++ [c] ++ more by rw [List.append_assoc]; rfl]
    rcases h.storeChar mode avail c with hgoing | hrefused
    · rw [if_neg hgoing.not_neg]
      exact ih hgoing
    · rw [if_pos hrefused.ended.neg]
      exact .inr (hrefused.append more)

theorem Refused.storeChars (h : Refused mode text p) (more : List Char) : Over mode text (storeChars mode avail more p) := by
  cases more with
  | nil => exact h.ended
  | cons c more =>
    rw [RodActuator.Rtt.storeChars]
    rw [if_pos (h.storeChar c).neg]
    exact h.storeChar c

theorem guarded_parts (parts : List (List Char)) (h : Going text p ∨ Refused mode text p) :
    Going (text ++ parts.flatten) (parts.foldl (guarded mode avail) p) ∨
      Refused mode (text ++ parts.flatten) (parts.foldl (guarded mode avail) p) := by
  induction parts generalizing text p with
  | nil =>
    rw [List.flatten_nil, List.append_nil]
    exact h
  | cons part parts ih =>
    rw [List.flatten_cons, ← List.append_assoc]
    refine ih ?_
    unfold guarded
    rcases h with hgoing | hrefused
    · rw [if_neg hgoing.not_neg]
      exact hgoing.storeChars mode avail part
    · rw [if_pos hrefused.ended.neg]
      exact .inr (hrefused.append part)

variable (mode avail) in
theorem Going.print (h : Going text p) (o : Output) :
    Going (text ++ o.text) (o.print mode avail p) ∨ Over mode (text ++ o.text) (o.print mode avail p) := by
  unfold Output.print Output.text
  dsimp only
  rw [List.append_assoc, ← List.append_assoc text, ← List.append_assoc]
  rcases guarded_parts o.parts (.inl h) with hparts | hparts
  · rw [if_neg hparts.not_neg]
    rcases hparts.storeChars mode avail o.last with hlast | hlast
    · rcases hlast.storeChars mode avail o.tail with htail | htail
      · exact .inl htail
      · exact .inr htail.ended
    · exact .inr ((hlast.storeChars o.tail).append o.tail)
  · rw [if_pos hparts.ended.neg]
    exact .inr ((hparts.ended.append o.last).append o.tail)

variable (mode avail) in
theorem Going.printAll (h : Going text p) (os : List Output) :
    Going (text ++ os.flatMap Output.text) (printAll mode avail os p) ∨
      Over mode (text ++ os.flatMap Output.text) (printAll mode avail os p) := by
  induction os generalizing text p with
  | nil =>
    rw [List.flatMap_nil, List.append_nil]
    exact .inl h
  | cons o os ih =>
    rw [RodActuator.Rtt.printAll, List.flatMap_cons, ← List.append_assoc]
    rcases h.print mode avail o with hgoing | hover
    · rw [if_neg hgoing.not_neg]
      exact ih hgoing
    · rw [if_pos hover.neg]
      exact .inr (hover.append _)

variable (mode avail) in
/-- The last write, of what is left in the buffer: no full buffer, and the ring takes a front of it. -/
theorem Going.last (h : Going text p) :
    let q := if p.buffer.length ≠ 0 then p.write mode avail else p
    (∀ w ∈ q.log, ¬w.IsRefused) ∧ taken q.log <+: text ∧
      (mode ≠ .trim → printfBufferSize ∣ (taken q.log).length ∨ taken q.log = text) ∧
      (mode = .block → taken q.log = text) ∧ ((∀ w ∈ q.log, w.status = w.data.length) → taken q.log = text) := by
  intro q
  have hpassed : ∀ w ∈ p.log, ¬w.IsRefused := fun w hw => (h.passed w hw).not_isRefused
  by_cases hbuffer : p.buffer.length ≠ 0
  · have hq : q = p.write mode avail := if_pos hbuffer
    have htaken : taken q.log = taken p.log ++ p.buffer.take (mode.status (avail p.log.length) p.buffer.length) := by
      rw [hq, Desc.write, taken_append, taken_singleton]
    have hall : mode.status (avail p.log.length) p.buffer.length = p.buffer.length → taken q.log = text := by
      intro hst
      rw [htaken, hst, List.take_length, h.whole]
    refine ⟨fun w hw hrefused => ?_, ?_, fun hmode => ?_, ?_, fun hlog => hall ?_⟩
    · rw [hq] at hw
      rcases List.mem_append.mp hw with hw | hw
      · exact hpassed w hw hrefused
      · rw [List.mem_singleton.mp hw] at hrefused
        exact absurd hrefused.1 (Nat.ne_of_lt h.room)
    · rw [htaken, ← h.whole]
      exact (List.prefix_append_right_inj _).mpr (List.take_prefix ..)
    · by_cases hst : mode.status (avail p.log.length) p.buffer.length = p.buffer.length
      · exact .inr (hall hst)
      · left
        rw [htaken, Mode.status_zero hmode hst, List.take_zero, List.append_nil]
        exact dvd_length_taken h.passed
    · rintro rfl
      exact hall rfl
    · rw [hq] at hlog
      exact hlog _ (List.mem_append_right _ (List.mem_singleton_self _))
  · have hq : q = p := if_neg hbuffer
    have hnil : p.buffer = [] := List.length_eq_zero_iff.mp (not_not.mp hbuffer)
    have hwhole := h.whole
    rw [hnil, List.append_nil] at hwhole
    rw [hq, hwhole]
    exact ⟨hpassed, List.prefix_refl _, fun _ => .inr rfl, fun _ => rfl, fun _ => rfl⟩

/-- A print returns -1 exactly where the ring did not take all of a full buffer, and else the length of the text, with the
    rest behind the last full buffer counted twice; then the ring has the front of the text. A ring that does not trim has
    it in any case, cut behind a whole buffer or not cut at all. A ring that blocks, or takes every write whole, has all. -/
theorem vprintf_front {fmt : List Char} {args : List Arg} {ret : Int} {log : List RttWrite}
    (h : vprintf mode avail fmt args = some (ret, log)) : ∃ os, outputs (fmt.length + 1) fmt args = some os ∧
      (ret = -1 ↔ ∃ w ∈ log, w.IsRefused) ∧
      (ret ≠ -1 → ret = ((os.flatMap Output.text).length + (os.flatMap Output.text).length % printfBufferSize : Nat) ∧
        taken log <+: os.flatMap Output.text) ∧
      (mode ≠ .trim → taken log <+: os.flatMap Output.text ∧
        (printfBufferSize ∣ (taken log).length ∨ taken log = os.flatMap Output.text)) ∧
      (mode = .block → taken log = os.flatMap Output.text) ∧
      ((∀ w ∈ log, w.status = w.data.length) → taken log = os.flatMap Output.text) := by
  obtain ⟨os, hos, hres⟩ := Option.map_eq_some_iff.mp h
  refine ⟨os, hos, ?_⟩
  have hstart : Going [] ⟨[], 0, []⟩ := ⟨rfl, fun w hw => (by cases hw), rfl, Nat.zero_lt_succ 63⟩
  dsimp only at hres
  generalize hp : printAll mode avail os ⟨[], 0, []⟩ = p at hres
  have hend := hstart.printAll mode avail os
  rw [hp, List.nil_append] at hend
  generalize os.flatMap Output.text = text at hend
  rcases hend with hgoing | hover
  · have hlen : text.length % printfBufferSize = p.buffer.length := by
      obtain ⟨k, hk⟩ := dvd_length_taken hgoing.passed
      rw [← hgoing.whole, List.length_append, hk, Nat.mul_add_mod, Nat.mod_eq_of_lt hgoing.room]
    obtain ⟨hnone, hfront, hcut, hblock, hall⟩ := hgoing.last mode avail
    have hlast : (p.returnValue + p.buffer.length, (if p.buffer.length ≠ 0 then p.write mode avail else p).log) =
        (ret, log) := by
      by_cases hpos : 0 < p.returnValue
      · rwa [if_pos hpos] at hres
      · -- Nothing was printed, so nothing is left to write.
        have hvalue := hgoing.value
        have hnil : text = [] := List.length_eq_zero_iff.mp (by omega)
        have hbuffer : p.buffer.length = 0 := by rw [← hlen, hnil]; rfl
        rw [if_neg hpos] at hres
        rw [hbuffer, if_neg (not_not.mpr rfl), ← hres]
        exact congrArg (·, p.log) (Int.add_zero _)
    obtain ⟨hret, rfl⟩ := Prod.mk.inj hlast
    have hvalue : ret = (text.length + text.length % printfBufferSize : Nat) := by
      rw [← hret, hlen, hgoing.value]
      rfl
    have hne : ret ≠ -1 := by omega
    refine ⟨iff_of_false hne fun ⟨w, hw, hrefused⟩ => hnone w hw hrefused, fun _ => ⟨hvalue, hfront⟩,
      fun hmode => ⟨hfront, hcut hmode⟩, hblock, hall⟩
  · rw [if_neg (by rw [hover.value]; decide)] at hres
    obtain ⟨rfl, rfl⟩ := Prod.mk.inj hres
    obtain ⟨w, hw, hrefused⟩ := hover.refused
    refine ⟨iff_of_true hover.value hover.refused, fun hne => absurd hover.value hne,
      fun hmode => ⟨(hover.front hmode).1, .inl (hover.front hmode).2⟩, fun hmode => absurd hmode hover.fails, fun hlog => ?_⟩
    exact absurd ((hlog w hw).trans hrefused.1) hrefused.2.ne

end

/-- The first write is refused and tried again for the field that is filled up. -/
theorem vprintf_front_refused : ∃ os, outputs 10 "%s%-70u!".toList [.str (List.replicate 62 'z'), .int 17] = some os ∧
    List.replicate 62 'z' ++ ['1', '7'] <+: os.flatMap Output.text := by
  have h : vprintf .skip (fun k => if k = 0 then 63 else 100) "%s%-70u!".toList
      [.str (List.replicate 62 'z'), .int 17] = some (-1, [⟨List.replicate 62 'z' ++ ['1', '7'], 0⟩,
        ⟨List.replicate 62 'z' ++ ['1', '7'], 64⟩]) := by decide
  obtain ⟨os, hos, -, -, hskip, -⟩ := vprintf_front h
  exact ⟨os, hos, (hskip (by decide)).1⟩

/-! ### Numbers read back -/

def ofV2C (c : Char) : Option Nat := "0123456789ABCDEF".toList.idxOf? c

def readDigits (base acc : Nat) : List Char → Nat
  | [] => acc
  | c :: text =>
    match ofV2C c with
    | some d => readDigits base (acc * base + d) text
    | none => acc

/-- Spaces, a sign, and digits up to the first character that is none. -/
def readNumber (base : Nat) : List Char → Int
  | ' ' :: text => readNumber base text
  | '-' :: text => -readDigits base 0 text
  | '+' :: text => readDigits base 0 text
  | text => readDigits base 0 text

section
variable {base : Nat} {ds : List Nat} {text : List Char}

theorem ofV2C_aV2C (d : Fin 16) : ofV2C (aV2C d) = some d.val := by
  revert d
  decide

theorem aV2C_ne (d : Fin 16) : aV2C d ≠ ' ' ∧ aV2C d ≠ '-' ∧ aV2C d ≠ '+' := by
  revert d
  decide

theorem readDigits_append (hds : ∀ d ∈ ds, d < 16) (acc : Nat) : readDigits base acc (ds.map aV2C ++ text) =
    readDigits base (acc * base ^ ds.length + Nat.ofDigits base ds.reverse) text := by
  induction ds generalizing acc with
  | nil => simp
  | cons d ds ih =>
    have hd : d < 16 := hds d List.mem_cons_self
    rw [List.map_cons, List.cons_append, readDigits, ofV2C_aV2C ⟨d, hd⟩]
    dsimp only
    rw [ih fun d' hd' => hds d' (List.mem_cons_of_mem _ hd'), Nat.ofDigits_reverse_cons, List.length_cons]
    congr 1
    ring

theorem readNumber_spaces (k : Nat) : readNumber base (List.replicate k ' ' ++ text) = readNumber base text := by
  induction k with
  | zero => rfl
  | succ k ih => rw [List.replicate_succ, List.cons_append, readNumber, ih]

theorem readNumber_digits (hds : ∀ d ∈ ds, d < 16) (hne : ds ≠ []) :
    readNumber base (ds.map aV2C ++ text) = readDigits base 0 (ds.map aV2C ++ text) := by
  obtain ⟨d, ds, rfl⟩ := List.exists_cons_of_ne_nil hne
  obtain ⟨hspace, hminus, hplus⟩ := aV2C_ne ⟨d, hds d List.mem_cons_self⟩
  rw [List.map_cons, List.cons_append]
  unfold readNumber
  split
  · exact absurd (List.cons_eq_cons.mp ‹_›).1 hspace
  · exact absurd (List.cons_eq_cons.mp ‹_›).1 hminus
  · exact absurd (List.cons_eq_cons.mp ‹_›).1 hplus
  · rfl

theorem readDigits_spaces (acc k : Nat) : readDigits base acc (List.replicate k ' ') = acc := by
  cases k <;> rfl

variable (base) in
/-- Digits behind zeros, and in front of spaces. -/
theorem readNumber_padded (hds : ∀ d ∈ ds, d < 16) (hne : ds ≠ []) (zeros spaces : Nat) :
    readNumber base (List.replicate zeros '0' ++ ds.map aV2C ++ List.replicate spaces ' ') =
      (Nat.ofDigits base ds.reverse : Nat) ∧
    readDigits base 0 (List.replicate zeros '0' ++ ds.map aV2C ++ List.replicate spaces ' ') =
      Nat.ofDigits base ds.reverse := by
  have hzeros : List.replicate zeros '0' ++ ds.map aV2C = (List.replicate zeros 0 ++ ds).map aV2C := by
    rw [List.map_append, List.map_replicate]
    rfl
  have hall : ∀ d ∈ List.replicate zeros 0 ++ ds, d < 16 := by
    intro d hd
    rcases List.mem_append.mp hd with hd | hd
    · rw [List.eq_of_mem_replicate hd]
      decide
    · exact hds d hd
  have hvalue : Nat.ofDigits base (List.replicate zeros 0 ++ ds).reverse = Nat.ofDigits base ds.reverse := by
    rw [List.reverse_append, List.reverse_replicate, Nat.ofDigits_append_replicate_zero]
  have hread : readDigits base 0 ((List.replicate zeros 0 ++ ds).map aV2C ++ List.replicate spaces ' ') =
      Nat.ofDigits base ds.reverse := by
    rw [readDigits_append hall, readDigits_spaces, hvalue, Nat.zero_mul, Nat.zero_add]
  rw [hzeros, readNumber_digits hall fun h => hne (List.append_eq_nil_iff.mp h).2, hread]
  exact ⟨rfl, rfl⟩

end

section
variable {base numDigits : Nat} (fieldWidth : Nat) (flags : FormatFlags) (v : BitVec 32)

theorem numeral_ne_nil (hbase : 2 ≤ base) (hprec : base ^ (numDigits - 1) < 2 ^ 32) : numeral base v.toNat numDigits ≠ [] := by
  obtain ⟨hlen, -, -⟩ := numeral_spec hbase v.isLt hprec
  refine fun hnil => ?_
  rw [hnil, List.length_nil, numWidth] at hlen
  have hpos := (countDigits_spec hbase (lt_pow_fuel hbase v.isLt)).1
  omega

theorem unsigned_reads (hbase : 2 ≤ base) (hdigit : base ≤ 16) (hprec : base ^ (numDigits - 1) < 2 ^ 32) :
    readNumber base (Output.unsigned v base numDigits fieldWidth flags).text = v.toNat ∧
      (Output.unsigned v base numDigits fieldWidth flags).text.length = max fieldWidth (numWidth base v.toNat numDigits) := by
  obtain ⟨hlen, hds, hvalue⟩ := numeral_spec hbase v.isLt hprec
  have hds' : ∀ d ∈ numeral base v.toNat numDigits, d < 16 := fun d hd => (hds d hd).trans_le hdigit
  have hpadded := readNumber_padded base hds' (numeral_ne_nil v hbase hprec)
  unfold Output.unsigned Output.text
  dsimp only
  generalize hfill : fieldWidth - numWidth base v.toNat numDigits = fill
  rw [List.flatten_singleton]
  by_cases hleft : flags.leftJustify = true
  · rw [if_pos hleft, if_pos hleft]
    refine ⟨(hpadded 0 fill).1.trans (congrArg _ hvalue), ?_⟩
    rw [List.nil_append, List.length_append, List.length_map, List.length_replicate, hlen]
    omega
  · rw [if_neg hleft, if_neg hleft, List.append_nil, List.length_append, List.length_map, List.length_replicate, hlen]
    refine ⟨?_, by omega⟩
    split
    · have h := (hpadded fill 0).1
      rw [List.replicate_zero, List.append_nil] at h
      exact h.trans (congrArg _ hvalue)
    · have h := (hpadded 0 0).1
      rw [List.replicate_zero, List.replicate_zero, List.append_nil, List.nil_append] at h
      rw [readNumber_spaces]
      exact h.trans (congrArg _ hvalue)

/-- `-v` or `v`, as `_PrintInt` takes it. -/
def magnitude (v : BitVec 32) : BitVec 32 := if v.toInt < 0 then -v else v

def signText (v : BitVec 32) (flags : FormatFlags) : List Char :=
  if v.toInt < 0 then ['-'] else if flags.printSign then ['+'] else []

theorem magnitude_toNat : (magnitude v).toNat = v.toInt.natAbs := by
  have hlt := v.isLt
  have hint := BitVec.toInt_eq_toNat_cond v
  unfold magnitude
  by_cases hneg : v.toInt < 0
  · rw [if_pos hneg, BitVec.toNat_neg]
    split at hint <;> omega
  · rw [if_neg hneg]
    split at hint <;> omega

theorem magnitude_toInt (hmin : v.toInt ≠ -2 ^ 31) : (magnitude v).toInt.toNat = (magnitude v).toNat := by
  have hnat := magnitude_toNat v
  have hge := BitVec.le_toInt v
  have hlt := BitVec.toInt_lt (x := v)
  have hint := BitVec.toInt_eq_toNat_cond (magnitude v)
  rw [if_pos (by omega)] at hint
  omega

/-- The width that `_PrintInt` reckons with is too small for the least number. -/
theorem magnitude_width (hbase : 2 ≤ base) :
    numWidth base (magnitude v).toInt.toNat numDigits ≤ numWidth base (magnitude v).toNat numDigits := by
  by_cases hmin : v.toInt = -2 ^ 31
  · have hzero : (magnitude v).toInt.toNat = 0 := by
      rw [show v = 0x80000000#32 from BitVec.toInt_inj.mp hmin]
      decide
    have hpos := (countDigits_spec hbase (lt_pow_fuel hbase (magnitude v).isLt)).1
    have hone : countDigits base 32 0 = 1 := if_neg (by omega)
    rw [hzero, numWidth, numWidth, hone]
    omega
  · rw [magnitude_toInt v hmin]

variable (numDigits) in
/-- The text of a signed number: spaces, the sign, zeros, the digits, and spaces. -/
theorem int_text (hbase : 2 ≤ base) : ∃ front zeros back,
    (Output.int v base numDigits fieldWidth flags).text = List.replicate front ' ' ++ (signText v flags ++
      (List.replicate zeros '0' ++ (numeral base (magnitude v).toNat numDigits).map aV2C ++ List.replicate back ' ')) ∧
    (v.toInt ≠ -2 ^ 31 → front + (signText v flags).length + zeros + back + numWidth base (magnitude v).toNat numDigits =
      max fieldWidth ((signText v flags).length + numWidth base (magnitude v).toNat numDigits)) := by
  have hle : numWidth base (magnitude v).toInt.toNat numDigits ≤ _ := magnitude_width v hbase
  have hsame := fun hmin => congrArg (numWidth base · numDigits) (magnitude_toInt v hmin)
  have hsign : (signText v flags).length = if v.toInt < 0 ∨ flags.printSign = true then 1 else 0 := by
    unfold signText
    by_cases hneg : v.toInt < 0
    · simp [hneg]
    · by_cases hplus : flags.printSign = true <;> simp [hneg, hplus]
  unfold Output.int Output.unsigned Output.text
  dsimp only
  rw [← magnitude, ← signText]
  generalize numWidth base (magnitude v).toInt.toNat numDigits = width at hle hsame ⊢
  generalize numWidth base (magnitude v).toNat numDigits = w at hle hsame ⊢
  have hfield : (if 0 < fieldWidth ∧ (v.toInt < 0 ∨ flags.printSign = true) then fieldWidth - 1 else fieldWidth) =
      fieldWidth - (signText v flags).length := by
    rw [hsign]
    by_cases h : v.toInt < 0 ∨ flags.printSign = true
    · rw [if_pos h]
      by_cases hpos : 0 < fieldWidth
      · rw [if_pos ⟨hpos, h⟩]
      · rw [if_neg fun hand => hpos hand.1]
        omega
    · rw [if_neg h, if_neg fun hand => h hand.2, Nat.sub_zero]
  rw [hfield]
  generalize hfw : fieldWidth - (signText v flags).length = fw
  by_cases hleft : flags.leftJustify = true
  · refine ⟨0, 0, fw - w, ?_, fun _ => by omega⟩
    simp [hleft]
  · by_cases hzeros : flags.padZero = true ∧ numDigits = 0
    · refine ⟨0, fw - width, 0, ?_, fun hmin => ?_⟩
      · have hnone : fw - (fw - width) - w = 0 := by omega
        simp [hleft, hzeros, hnone]
      · have hwidth := hsame hmin
        omega
    · refine ⟨fw - width, 0, 0, ?_, fun hmin => ?_⟩
      · have hnone : fw - (fw - width) - w = 0 := by omega
        by_cases hpad : flags.padZero = true
        · have hdigits : numDigits ≠ 0 := fun h => hzeros ⟨hpad, h⟩
          simp [hleft, hpad, hdigits, hnone]
        · simp [hleft, hpad, hnone]
      · have hwidth := hsame hmin
        omega

theorem int_reads (hbase : 2 ≤ base) (hdigit : base ≤ 16) (hprec : base ^ (numDigits - 1) < 2 ^ 32) :
    readNumber base (Output.int v base numDigits fieldWidth flags).text = v.toInt ∧
      (v.toInt ≠ -2 ^ 31 → (Output.int v base numDigits fieldWidth flags).text.length =
        max fieldWidth ((signText v flags).length + numWidth base v.toInt.natAbs numDigits)) := by
  obtain ⟨hlen, hds, hvalue⟩ := numeral_spec hbase (magnitude v).isLt hprec
  have hds' : ∀ d ∈ numeral base (magnitude v).toNat numDigits, d < 16 := fun d hd => (hds d hd).trans_le hdigit
  obtain ⟨front, zeros, back, htext, hwidth⟩ := int_text numDigits fieldWidth flags v hbase
  obtain ⟨hread, hdigits⟩ := readNumber_padded base hds' (numeral_ne_nil _ hbase hprec) zeros back
  rw [hvalue] at hread hdigits
  rw [← magnitude_toNat, htext]
  refine ⟨?_, fun hmin => ?_⟩
  · rw [readNumber_spaces]
    unfold signText
    by_cases hneg : v.toInt < 0
    · rw [if_pos hneg, List.singleton_append, readNumber, hdigits, magnitude_toNat]
      omega
    · rw [if_neg hneg]
      by_cases hplus : flags.printSign = true
      · rw [if_pos hplus, List.singleton_append, readNumber, hdigits, magnitude_toNat]
        omega
      · rw [if_neg hplus, List.nil_append, hread, magnitude_toNat]
        omega
  · rw [← hwidth hmin]
    simp only [List.length_append, List.length_replicate, List.length_map, hlen]
    omega

/-- A number that is printed with a base up to 16, any flags, any field width and any precision whose weight does not wrap
    reads back, and fills its field; for the least number the signed print can be too wide. -/
theorem printed_number_reads (hbase : 2 ≤ base) (hdigit : base ≤ 16) (hprec : base ^ (numDigits - 1) < 2 ^ 32) :
    readNumber base (Output.unsigned v base numDigits fieldWidth flags).text = v.toNat ∧
      (Output.unsigned v base numDigits fieldWidth flags).text.length = max fieldWidth (numWidth base v.toNat numDigits) ∧
      readNumber base (Output.int v base numDigits fieldWidth flags).text = v.toInt ∧
      (v.toInt ≠ -2 ^ 31 → (Output.int v base numDigits fieldWidth flags).text.length =
        max fieldWidth ((signText v flags).length + numWidth base v.toInt.natAbs numDigits)) := by
  obtain ⟨hunsigned, hwidth⟩ := unsigned_reads fieldWidth flags v hbase hdigit hprec
  obtain ⟨hint, hfield⟩ := int_reads fieldWidth flags v hbase hdigit hprec
  exact ⟨hunsigned, hwidth, hint, hfield⟩

theorem printed_number_reads_zeros : (Output.int (-42) 10 0 6 ⟨false, true, false, false⟩).text = "-00042".toList ∧
    readNumber 10 (Output.int (-42) 10 0 6 ⟨false, true, false, false⟩).text = (-42 : BitVec 32).toInt :=
  ⟨by decide, (printed_number_reads 6 ⟨false, true, false, false⟩ (-42) (by decide) (by decide) (by decide)).2.2.1⟩

end

end RodActuator.Rtt
