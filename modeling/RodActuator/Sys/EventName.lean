import RodActuator.Lib.CText
import RodActuator.Sys.Event

/-! The names of an event set for a log line (`Sys_EventBitsName` in `Dev/dev_mgr/dev_state.c`). They are printed one
    after another into a buffer that the caller gives, and the thread of the state machine gives 64 bytes for texts that
    can be longer. -/

namespace RodActuator.Sys
open CText

/-- `s_evt_names`. -/
def sEvtNames : List (SysEvt × String) :=
  [(.initDone, "INIT_DONE"), (.fault, "FAULT"), (.emergency, "EMERGENCY"), (.recovery, "RECOVERY"),
    (.voltNormal, "VOLT_NORMAL"), (.voltOver, "VOLT_OVER"), (.voltUnder, "VOLT_UNDER"), (.cmdWorkEnable, "WORK_ENABLE"),
    (.overCurrent, "OVER_CURRENT"), (.rodLimitFault, "ROD_LIMIT_FAULT"), (.stWorkError, "ST_WORK_ERROR"),
    (.voltRecoverWait, "VOLT_RECOVER_WAIT"), (.polarityChg, "POLARITY_CHG")]

/-- What the loop over the names carries: the buffer, the position in it, and the bits without a name so far. -/
structure EvtText where
  mem : Nat → Char
  pos : BitVec 32
  unknown : BitVec 32

/-- `"|"` behind a text. -/
def separator (pos : BitVec 32) : List Char := if pos ≠ 0 then ['|'] else []

/-- One turn of the loop. -/
def printName (print : Print) (size bits : BitVec 32) (s : EvtText) (entry : SysEvt × String) : EvtText :=
  if bits &&& entry.1.mask ≠ 0 then
    let r := append print size [.str (separator s.pos), .str entry.2.toList] s.mem s.pos
    ⟨r.1, r.2, s.unknown &&& ~~~entry.1.mask⟩
  else s

def sysEventBitsName (print : Print) (bits : BitVec 32) (mem : Nat → Char) (size : BitVec 32) : Nat → Char :=
  if size = 0 then mem
  else
    let mem := Function.update mem 0 nul
    if bits = 0 then (print mem 0 size [.lit "NONE".toList]).1
    else
      let s := sEvtNames.foldl (printName print size bits) ⟨mem, 0, bits⟩
      if s.unknown ≠ 0 then
        (print s.mem s.pos.toNat (size - s.pos) [.str (separator s.pos), .lit ['0', 'x'], .hex8 s.unknown]).1
      else s.mem

/-! ### The print of the system (`rt_vsnprintf` in `rt-thread/src/kservice.c`) -/

/-- A character is written where it is before `last`, and counted in any case. -/
def putChar (last : Nat) (s : (Nat → Char) × Nat) (c : Char) : (Nat → Char) × Nat :=
  (if s.2 < last then Function.update s.1 s.2 c else s.1, s.2 + 1)

def rtSnprintf : Print := fun mem pos room fmt =>
  let last := pos + room.toNat
  let s := (formatted fmt).foldl (putChar last) (mem, pos)
  (if 0 < room.toNat then Function.update s.1 (if s.2 < last then s.2 else last - 1) nul else s.1,
    BitVec.ofNat 32 (s.2 - pos))

theorem foldl_putChar (last : Nat) (text : List Char) (mem : Nat → Char) (pos : Nat) :
    (text.foldl (putChar last) (mem, pos)).2 = pos + text.length ∧
      (∀ i (hi : i < text.length), pos + i < last →
        (text.foldl (putChar last) (mem, pos)).1 (pos + i) = text.get ⟨i, hi⟩) ∧
      ∀ j, j < pos ∨ last ≤ j ∨ pos + text.length ≤ j → (text.foldl (putChar last) (mem, pos)).1 j = mem j := by
  induction text generalizing mem pos with
  | nil => exact ⟨rfl, fun i hi => absurd hi (Nat.not_lt_zero i), fun _ _ => rfl⟩
  | cons c text ih =>
    rw [List.foldl_cons, putChar]
    obtain ⟨hlen, hchars, hframe⟩ := ih (if pos < last then Function.update mem pos c else mem) (pos + 1)
    refine ⟨?_, fun i hi hlast => ?_, fun j hj => ?_⟩
    · rw [hlen, List.length_cons]
      omega
    · cases i with
      | zero =>
        rw [hframe _ (.inl (by omega)), if_pos (by omega)]
        simp
      | succ i =>
        have hchar := hchars i (by simpa using hi) (by omega)
        rw [show pos + (i + 1) = pos + 1 + i by omega, hchar]
        rfl
    · rw [List.length_cons] at hj
      rw [hframe j (by omega)]
      split
      · exact Function.update_of_ne (by omega) _ _
      · rfl

theorem rtSnprintf_bounded : Bounded rtSnprintf where
  length mem pos room fmt hroom := by
    obtain ⟨hlen, -, -⟩ := foldl_putChar (pos + room.toNat) (formatted fmt) mem pos
    rw [rtSnprintf, hlen, Nat.add_sub_cancel_left]
  front mem pos room fmt hroom i hi hlast := by
    obtain ⟨hlen, hchars, -⟩ := foldl_putChar (pos + room.toNat) (formatted fmt) mem pos
    rw [rtSnprintf]
    dsimp only
    rw [if_pos hroom, hlen, Function.update_of_ne (by split <;> omega), hchars i hi (by omega)]
  closed mem pos room fmt hroom := by
    obtain ⟨hlen, -, -⟩ := foldl_putChar (pos + room.toNat) (formatted fmt) mem pos
    have hplace : pos + min (formatted fmt).length (room.toNat - 1) =
        if pos + (formatted fmt).length < pos + room.toNat then pos + (formatted fmt).length
        else pos + room.toNat - 1 := by
      split <;> omega
    rw [rtSnprintf]
    dsimp only
    rw [if_pos hroom, hlen, hplace, Function.update_self]
  frame mem pos room fmt hroom j hj := by
    obtain ⟨hlen, -, hframe⟩ := foldl_putChar (pos + room.toNat) (formatted fmt) mem pos
    rw [rtSnprintf]
    dsimp only
    rw [if_pos hroom, hlen, Function.update_of_ne (by split <;> omega), hframe j (by omega)]

/-! ### The full text -/

/-- The bits that have no name. -/
def unnamed (bits : BitVec 32) : BitVec 32 := bits &&& ~~~sEvtNames.foldl (fun known entry => known ||| entry.1.mask) 0

/-- The names of the bits, and behind them the bits without a name. -/
def nameParts (bits : BitVec 32) : List (List Char) :=
  (sEvtNames.filter fun entry => entry.1.isIn bits).map (fun entry => entry.2.toList) ++
    if unnamed bits = 0 then [] else [['0', 'x'] ++ (Piece.hex8 (unnamed bits)).text]

def eventText (bits : BitVec 32) : List Char :=
  if bits = 0 then "NONE".toList else ['|'].intercalate (nameParts bits)

theorem names_plain : ∀ entry ∈ sEvtNames,
    nul ∉ entry.2.toList ∧ entry.2.toList ≠ [] ∧ entry.2.toList.length ≤ 17 := by decide

theorem hex8_plain (n : BitVec 32) : nul ∉ (Piece.hex8 n).text := by
  have hdigit : ∀ k < 16, hexDigit k ≠ nul := by decide
  intro hmem
  obtain ⟨i, -, hi⟩ := List.mem_map.mp hmem
  exact hdigit _ (Nat.mod_lt _ (by decide)) hi

theorem and_mask_ne_zero_iff (bits : BitVec 32) (e : SysEvt) : bits &&& e.mask ≠ 0 ↔ e.isIn bits = true := by
  have hmask : e.mask ≠ 0#32 := by cases e <;> decide
  rw [SysEvt.mask, BitVec.and_twoPow, SysEvt.isIn]
  split
  · rename_i hbit
    exact iff_of_true hmask hbit
  · rename_i hbit
    exact iff_of_false (by simp) hbit

/-! ### The loop -/

/-- The names of the entries whose bit is set. -/
def namesOf (bits : BitVec 32) (entries : List (SysEvt × String)) : List (List Char) :=
  (entries.filter fun entry => entry.1.isIn bits).map fun entry => entry.2.toList

/-- After some entries of the table. -/
structure Printed (size bits : BitVec 32) (mem₀ : Nat → Char) (entries : List (SysEvt × String)) (s : EvtText) :
    Prop where
  text : Appended size (['|'].intercalate (namesOf bits entries)) s.mem s.pos
  short : (['|'].intercalate (namesOf bits entries)).length ≤ 18 * entries.length
  unknown : s.unknown = bits &&& ~~~entries.foldl (fun known entry => known ||| entry.1.mask) 0
  frame : ∀ j, size.toNat ≤ j → s.mem j = mem₀ j

section
variable {print : Print} {size bits : BitVec 32} {mem₀ : Nat → Char} {entries : List (SysEvt × String)} {s : EvtText}

theorem namesOf_ne_nil (hentries : ∀ entry ∈ entries, entry ∈ sEvtNames) :
    ∀ part ∈ namesOf bits entries, part ≠ [] := by
  intro part hpart
  obtain ⟨entry, hentry, rfl⟩ := List.mem_map.mp hpart
  exact (names_plain entry (hentries entry (List.mem_filter.mp hentry).1)).2.1

/-- A bit that is not set changes nothing of what has no name. -/
theorem and_not_or (known : BitVec 32) {mask : BitVec 32} (h : bits &&& mask = 0) :
    bits &&& ~~~(known ||| mask) = bits &&& ~~~known := by
  ext i hi
  have hbit := congrArg (fun w : BitVec 32 => w[i]) h
  simp only [BitVec.getElem_and, BitVec.ofNat_eq_ofNat, BitVec.getElem_zero] at hbit
  simp only [BitVec.getElem_and, BitVec.getElem_not, BitVec.getElem_or]
  cases hb : bits[i] <;> simp_all

theorem Printed.step (h : Printed size bits mem₀ entries s) (hprint : Bounded print) (hsize : 0 < size.toNat)
    (hentries : ∀ entry ∈ entries, entry ∈ sEvtNames) (hshort : entries.length ≤ 13) {entry : SysEvt × String}
    (hentry : entry ∈ sEvtNames) : Printed size bits mem₀ (entries ++ [entry]) (printName print size bits s entry) := by
  obtain ⟨hplain, hne, hlen⟩ := names_plain entry hentry
  have htext := h.short
  have hknown : (entries ++ [entry]).foldl (fun known entry => known ||| entry.1.mask) 0 =
      entries.foldl (fun known entry => known ||| entry.1.mask) 0 ||| entry.1.mask := by
    rw [List.foldl_append]
    rfl
  unfold printName
  split
  · rename_i hset
    have hnames : namesOf bits (entries ++ [entry]) = namesOf bits entries ++ [entry.2.toList] := by
      simp [namesOf, (and_mask_ne_zero_iff bits entry.1).mp hset]
    have hformat : formatted [.str (separator s.pos), .str entry.2.toList] = separator s.pos ++ entry.2.toList := by
      simp [formatted, Piece.text]
    have hsep : nul ∉ separator s.pos ∧ (separator s.pos).length ≤ 1 := by
      unfold separator
      split <;> decide
    have hjoin := h.text.take_join (namesOf_ne_nil hentries) entry.2.toList
    obtain ⟨happend, hframe⟩ := h.text.append hprint hsize [.str (separator s.pos), .str entry.2.toList]
      (by rw [hformat]; simp [hsep.1, hplain]) (by rw [hformat]; simp [hne])
      (by rw [hformat, List.length_append]; omega)
    rw [hformat] at happend
    refine ⟨?_, ?_, ?_, fun j hj => (hframe j hj).trans (h.frame j hj)⟩
    · rw [hnames]
      exact happend.congr hjoin
    · rw [hnames, intercalate_concat, List.length_append, List.length_append, List.length_append, List.length_singleton]
      split <;> simp only [List.length_nil, List.length_singleton] <;> omega
    · dsimp only
      rw [hknown, h.unknown, BitVec.not_or, BitVec.and_assoc]
  · rename_i hclear
    have hclear' : bits &&& entry.1.mask = 0 := not_not.mp hclear
    have hnames : namesOf bits (entries ++ [entry]) = namesOf bits entries := by
      simp [namesOf, mt (and_mask_ne_zero_iff bits entry.1).mpr hclear]
    refine ⟨hnames ▸ h.text, ?_, ?_, h.frame⟩
    · rw [hnames, List.length_append]
      omega
    · rw [hknown, and_not_or _ hclear', h.unknown]

theorem printed_all (hprint : Bounded print) (hsize : 0 < size.toNat) (bits : BitVec 32) (h₀ : mem₀ 0 = nul) :
    Printed size bits mem₀ sEvtNames (sEvtNames.foldl (printName print size bits) ⟨mem₀, 0, bits⟩) := by
  have hall : ∀ front rest, front ++ rest = sEvtNames →
      Printed size bits mem₀ front (front.foldl (printName print size bits) ⟨mem₀, 0, bits⟩) := by
    intro front
    induction front using List.reverseRecOn with
    | nil =>
      have hall : ~~~(0 : BitVec 32) = BitVec.allOnes 32 := rfl
      refine fun _ _ => ⟨⟨?_, (Nat.zero_min _).symm⟩, Nat.le_refl _, ?_, fun _ _ => rfl⟩
      · rw [namesOf, List.filter_nil, List.map_nil, List.intercalate_nil, List.take_nil]
        exact Shows.nil h₀
      · rw [List.foldl_nil, List.foldl_nil, hall, BitVec.and_allOnes]
    | append_singleton front entry ih =>
      intro rest heq
      have hmem : ∀ x ∈ front ++ [entry], x ∈ sEvtNames := fun x hx => heq ▸ List.mem_append_left _ hx
      have hlen := congrArg List.length heq
      rw [List.append_assoc] at heq
      rw [List.length_append, List.length_append, List.length_singleton] at hlen
      rw [List.foldl_append]
      refine (ih _ heq).step hprint hsize (fun x hx => hmem x (List.mem_append_left _ hx)) ?_ (hmem entry (by simp))
      rw [show sEvtNames.length = 13 from rfl] at hlen
      omega
  exact hall sEvtNames [] (List.append_nil _)

end

/-- The names stay in the buffer and end inside it, and the text is the full one or the front of it that there is room
    for. -/
theorem event_name_fits {print : Print} (hprint : Bounded print) (bits : BitVec 32) (mem : Nat → Char) {size : BitVec 32}
    (hsize : size ≠ 0) : Shows (sysEventBitsName print bits mem size) ((eventText bits).take (size.toNat - 1)) ∧
      ∀ j, size.toNat ≤ j → sysEventBitsName print bits mem size j = mem j := by
  have hpos : 0 < size.toNat := Nat.pos_of_ne_zero fun h => hsize (BitVec.eq_of_toNat_eq h)
  have hkept : ∀ j, size.toNat ≤ j → Function.update mem 0 nul j = mem j := fun j hj =>
    Function.update_of_ne (by omega) _ _
  have hclosed : Function.update mem 0 nul 0 = nul := Function.update_self _ _ _
  unfold sysEventBitsName eventText
  rw [if_neg hsize]
  by_cases hbits : bits = 0
  · have hplain : nul ∉ formatted [.lit "NONE".toList] := by decide
    rw [if_pos hbits, if_pos hbits]
    refine ⟨(Shows.nil hclosed).printed hprint size hpos hplain, fun j hj => ?_⟩
    exact (hprint.frame _ _ _ _ hpos j (.inr (by omega))).trans (hkept j hj)
  · rw [if_neg hbits, if_neg hbits]
    dsimp only
    have h := printed_all hprint hpos bits hclosed
    generalize sEvtNames.foldl (printName print size bits) ⟨Function.update mem 0 nul, 0, bits⟩ = s at h
    have hunknown : s.unknown = unnamed bits := h.unknown
    have hparts : nameParts bits = namesOf bits sEvtNames ++
        if s.unknown = 0 then [] else [['0', 'x'] ++ (Piece.hex8 s.unknown).text] := by
      rw [hunknown]
      rfl
    rw [hparts]
    split
    · have hformat : formatted [.str (separator s.pos), .lit ['0', 'x'], .hex8 s.unknown] =
          separator s.pos ++ (['0', 'x'] ++ (Piece.hex8 s.unknown).text) := by
        simp [formatted, Piece.text]
      have hplain : nul ∉ formatted [.str (separator s.pos), .lit ['0', 'x'], .hex8 s.unknown] := by
        have hsep : nul ∉ separator s.pos := by
          unfold separator
          split <;> decide
        have hhex := hex8_plain s.unknown
        rw [hformat]
        simp only [List.mem_append, not_or]
        exact ⟨hsep, by decide, hhex⟩
      obtain ⟨hshows, -, hframe⟩ := h.text.printed hprint hpos hplain
      rw [hformat] at hshows
      refine ⟨?_, fun j hj => (hframe j hj).trans ((h.frame j hj).trans (hkept j hj))⟩
      rw [← h.text.take_join (namesOf_ne_nil fun _ hentry => hentry)]
      exact hshows
    · rename_i hnone
      rw [if_pos (not_not.mp hnone), List.append_nil]
      exact ⟨h.text.shows, fun j hj => (h.frame j hj).trans (hkept j hj)⟩

/-- All events at once in the 64 bytes of the thread. -/
theorem event_name_fits_thread : Shows (sysEventBitsName rtSnprintf sysSmWaitEvents (fun _ => 'x') 64)
    "INIT_DONE|FAULT|EMERGENCY|RECOVERY|VOLT_NORMAL|VOLT_OVER|VOLT_U".toList := by
  have h := (@event_name_fits rtSnprintf rtSnprintf_bounded sysSmWaitEvents (fun _ => 'x') 64 (by decide)).1
  have htext : (eventText sysSmWaitEvents).take 63 =
      "INIT_DONE|FAULT|EMERGENCY|RECOVERY|VOLT_NORMAL|VOLT_OVER|VOLT_U".toList := by decide +kernel
  rw [← htext]
  exact h

end RodActuator.Sys
