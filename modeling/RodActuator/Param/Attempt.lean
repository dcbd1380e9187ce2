import RodActuator.Param.Records

/-! One attempt of `paramSave`, slot by slot. While erases work an attempt writes one slot of the region,
    or first erases the sector that holds it, keeps every other slot and leaves the pointer behind the
    slot it wrote. -/

namespace RodActuator.Param
open Nor

namespace Layout
variable (L : Layout)

/-- The pointer stands on a slot of the region or behind the last slot of a sector. -/
structure Cursor (σ : Store) : Prop where
  sec : σ.rt.currSec ∈ sectors L.toConfig
  addr : ∃ k ≤ L.slotCount, σ.rt.currAddr = L.slotAddr σ.rt.currSec k
  magic : L.Magic σ.buf

theorem nextSec_mem {s : Nat} (hs : s ∈ sectors L.toConfig) : nextSec L.toConfig s ∈ sectors L.toConfig := by
  rw [L.mem_sectors] at hs ⊢
  exact nextSec_bounds hs.1 hs.2

theorem openSlot_cases {ok : Outcome} {σ : Store} {k : Nat} (hk : σ.rt.currAddr = L.slotAddr σ.rt.currSec k)
    (he : ok.erase σ.dev.ops = true) :
    (k < L.slotCount ∧ openSlot L.toConfig ok σ = (some (L.slotAddr σ.rt.currSec k), σ)) ∨
    (L.slotCount ≤ k ∧ ∃ s cnt,
      s = (if (getField32 σ.buf L.eraseCntOffset).toNat < maxEraseLife then σ.rt.currSec
        else nextSec L.toConfig σ.rt.currSec) ∧
      openSlot L.toConfig ok σ = (some (L.slotAddr s 0),
        { dev := (internalErase ok σ.dev (s * paramSectorSize)).1
          buf := setField32 σ.buf L.eraseCntOffset cnt
          rt := { σ.rt with currSec := s } })) := by
  by_cases hlt : k < L.slotCount
  · refine Or.inl ⟨hlt, ?_⟩
    have hfit := (L.slot_fits σ.rt.currSec k).mpr hlt
    rw [← hk] at hfit ⊢
    rw [openSlot, if_neg (by omega)]
  · refine Or.inr ⟨by omega, ?_⟩
    have hfit : ¬L.slotAddr σ.rt.currSec k + L.paramSize ≤ (σ.rt.currSec + 1) * paramSectorSize := by
      rw [L.slot_fits]
      exact hlt
    rw [← hk] at hfit
    by_cases hlife : (getField32 σ.buf L.eraseCntOffset).toNat < maxEraseLife
    · refine ⟨σ.rt.currSec, getField32 σ.buf L.eraseCntOffset + 1, (if_pos hlife).symm, ?_⟩
      have herase : (internalErase ok σ.dev (σ.rt.currSec * paramSectorSize)).2 = true := he
      rw [openSlot, if_pos (by omega)]
      simp only [hlife, ↓reduceIte, herase, L.slotAddr_zero]
    · refine ⟨nextSec L.toConfig σ.rt.currSec, 1, (if_neg hlife).symm, ?_⟩
      rw [openSlot, if_pos (by omega)]
      simp only [hlife, ↓reduceIte, L.slotAddr_zero]

/-- The attempt from `σ` starts to write to slot `k` of sector `s`, with the store `σ₁`: nothing happened
    yet, or `s` was erased. -/
structure Opened (ok : Outcome) (σ : Store) (s k : Nat) (σ₁ : Store) : Prop where
  open_eq : openSlot L.toConfig ok σ = (some (L.slotAddr s k), σ₁)
  lt : k < L.slotCount
  sec_mem : s ∈ sectors L.toConfig
  sec : σ₁.rt.currSec = s
  magic : L.Magic σ₁.buf
  seq : L.seqOf σ₁.buf = L.seqOf σ.buf
  start : (σ₁ = σ ∧ σ.rt.currAddr = L.slotAddr s k) ∨
    (k = 0 ∧ σ.rt.currAddr = L.slotAddr σ.rt.currSec L.slotCount ∧
      σ₁.dev = (internalErase ok σ.dev (s * paramSectorSize)).1)

theorem Opened.unique {L : Layout} {ok : Outcome} {σ σ₁ σ₂ : Store} {s k a : Nat} (h : L.Opened ok σ s k σ₁)
    (h₂ : openSlot L.toConfig ok σ = (some a, σ₂)) : a = L.slotAddr s k ∧ σ₂ = σ₁ := by
  rw [h.open_eq, Prod.mk.injEq, Option.some.injEq] at h₂
  exact ⟨h₂.1.symm, h₂.2.symm⟩

theorem Cursor.opened {L : Layout} {σ : Store} (h : L.Cursor σ) {ok : Outcome} (he : ok.erase σ.dev.ops = true) :
    ∃ s k σ₁, L.Opened ok σ s k σ₁ := by
  obtain ⟨k, hk, haddr⟩ := h.addr
  rcases L.openSlot_cases haddr he with ⟨hlt, hopen⟩ | ⟨hge, s, cnt, hs, hopen⟩
  · exact ⟨_, k, σ,
      { open_eq := hopen, lt := hlt, sec_mem := h.sec, sec := rfl, magic := h.magic, seq := rfl,
        start := Or.inl ⟨rfl, haddr⟩ }⟩
  · have hmem : s ∈ sectors L.toConfig := by
      rw [hs]
      split
      · exact h.sec
      · exact L.nextSec_mem h.sec
    obtain rfl : k = L.slotCount := Nat.le_antisymm hk hge
    exact ⟨s, 0, _,
      { open_eq := hopen, lt := L.slotCount_pos, sec_mem := hmem, sec := rfl, magic := h.magic.setEraseCnt cnt,
        seq := L.seqOf_setEraseCnt σ.buf cnt, start := Or.inr ⟨rfl, haddr, rfl⟩ }⟩

theorem Opened.slot_eq {L : Layout} {ok : Outcome} {σ σ₁ : Store} {s k : Nat} (h : L.Opened ok σ s k σ₁)
    (he : ok.erase σ.dev.ops = true) {s' k' : Nat} (hlt : k' < L.slotCount) :
    L.slot σ₁.dev.mem s' k' = L.slot σ.dev.mem s' k' ∨ (s' = s ∧ k = 0 ∧ L.slot σ₁.dev.mem s' k' = L.blank) := by
  obtain ⟨rfl, -⟩ | ⟨hk, -, hdev⟩ := h.start
  · exact Or.inl rfl
  · rw [hdev, L.slot_erase he hlt]
    rcases eq_or_ne s' s with heq | hne
    · exact Or.inr ⟨heq, hk, if_pos heq⟩
    · exact Or.inl (if_neg hne)

/-- What an attempt that starts to write to slot `k` of sector `s` with the store `σ₁` leaves. -/
structure Tried (ok : Outcome) (σ₁ : Store) (s k : Nat) (r : Bool × Store) : Prop where
  cursor : L.Cursor r.2
  others : ∀ s' k', k' < L.slotCount → (s', k') ≠ (s, k) → L.slot r.2.dev.mem s' k' = L.slot σ₁.dev.mem s' k'
  seq : L.seqOf r.2.buf = L.seqOf σ₁.buf + 1
  buf : r.2.buf = stamp L.toConfig σ₁.buf
  valid : L.recordOk r.2.buf = true
  slot_torn : ∃ j, L.slot r.2.dev.mem s k = torn j (L.slot σ₁.dev.mem s k) r.2.buf ∧
    (ok.prog σ₁.dev.ops = true → 0 < j)
  slot_missed : ok.prog σ₁.dev.ops = false → r.1 = false ∧ L.slot r.2.dev.mem s k = L.slot σ₁.dev.mem s k
  slot_done : r.1 = true → L.slot r.2.dev.mem s k = r.2.buf
  currSec : r.2.rt.currSec = s
  currAddr : r.2.rt.currAddr = L.slotAddr s (k + 1)

theorem Opened.tried {L : Layout} {ok : Outcome} {σ σ₁ : Store} {s k : Nat} (h : L.Opened ok σ s k σ₁) :
    L.Tried ok σ₁ s k (saveAttempt L.toConfig ok σ) := by
  have hr := L.stamp_magic h.magic
  obtain ⟨j, htorn, htake, hdone⟩ := L.slot_write ok σ₁.dev s k hr.length
  have hmissed (hp : ok.prog σ₁.dev.ops = false) :
      (internalWriteBuffer ok σ₁.dev (L.slotAddr s k) (stamp L.toConfig σ₁.buf)).2 = false ∧
        L.slot (internalWriteBuffer ok σ₁.dev (L.slotAddr s k) (stamp L.toConfig σ₁.buf)).1.mem s k =
          L.slot σ₁.dev.mem s k := by
    have hne : stamp L.toConfig σ₁.buf ≠ [] := by
      have := L.words_pos
      rw [Ne, ← List.length_eq_zero_iff, hr.length]
      omega
    obtain ⟨h1, h2⟩ := writeWords_missed hp 4 (L.slotAddr s k) hne
    exact ⟨h2, by rw [internalWriteBuffer, h1]⟩
  have hothers : ∀ s' k', k' < L.slotCount → (s', k') ≠ (s, k) →
      L.slot (internalWriteBuffer ok σ₁.dev (L.slotAddr s k) (stamp L.toConfig σ₁.buf)).1.mem s' k' =
        L.slot σ₁.dev.mem s' k' := fun s' k' hlt hne => L.slot_write_ne ok σ₁.dev h.lt hlt hr.length hne
  have hcursor : ∀ rt : Runtime, rt.currSec = s → rt.currAddr = L.slotAddr s (k + 1) →
      L.Cursor { dev := (internalWriteBuffer ok σ₁.dev (L.slotAddr s k) (stamp L.toConfig σ₁.buf)).1
                 buf := stamp L.toConfig σ₁.buf
                 rt := rt } := fun rt h1 h2 =>
    { sec := h1 ▸ h.sec_mem, addr := ⟨k + 1, h.lt, by rw [h1]; exact h2⟩, magic := hr }
  have hseq := L.seqOf_stamp h.magic
  simp only [saveAttempt, h.open_eq]
  rw [← L.slotAddr_succ]
  split
  · rename_i hw
    simp only [Bool.and_eq_true] at hw
    exact
      { cursor := hcursor _ h.sec rfl, others := hothers, seq := hseq, buf := rfl, valid := L.recordOk_stamp h.magic,
        slot_torn := ⟨j, htorn, htake⟩,
        slot_missed := fun hp => absurd hw.1 (by rw [(hmissed hp).1]; exact Bool.noConfusion),
        slot_done := fun _ => hdone hw.1, currSec := h.sec, currAddr := rfl }
  · exact
      { cursor := hcursor _ h.sec rfl, others := hothers, seq := hseq, buf := rfl, valid := L.recordOk_stamp h.magic,
        slot_torn := ⟨j, htorn, htake⟩, slot_missed := fun hp => ⟨rfl, (hmissed hp).2⟩,
        slot_done := Bool.noConfusion, currSec := h.sec, currAddr := rfl }

theorem Opened.dev_eq {L : Layout} {ok : Outcome} {σ σ₁ : Store} {s k : Nat} (h : L.Opened ok σ s k σ₁) :
    (saveAttempt L.toConfig ok σ).2.dev =
      (internalWriteBuffer ok σ₁.dev (L.slotAddr s k) (stamp L.toConfig σ₁.buf)).1 := by
  simp only [saveAttempt, h.open_eq]
  split <;> rfl

theorem Opened.done {L : Layout} {ok : Outcome} {σ σ₁ : Store} {s k : Nat} (h : L.Opened ok σ s k σ₁)
    (hblank : L.slot σ₁.dev.mem s k = L.blank)
    (hp : ∀ t, σ₁.dev.ops ≤ t → t < σ₁.dev.ops + L.words → ok.prog t = true) :
    (saveAttempt L.toConfig ok σ).1 = true := by
  have hr := L.stamp_magic h.magic
  have hw : (internalWriteBuffer ok σ₁.dev (L.slotAddr s k) (stamp L.toConfig σ₁.buf)).2 = true := by
    apply writeWords_erased (by decide)
    · rw [hr.length]
      exact hblank
    · rw [hr.length]
      exact hp
  obtain ⟨-, -, -, hdone⟩ := L.slot_write ok σ₁.dev s k hr.length
  have hv : internalVerifyBuffer (internalWriteBuffer ok σ₁.dev (L.slotAddr s k) (stamp L.toConfig σ₁.buf)).1
      (L.slotAddr s k) (stamp L.toConfig σ₁.buf) = true := by
    rw [internalVerifyBuffer, hr.length, beq_iff_eq]
    exact hdone hw
  simp only [saveAttempt, h.open_eq, hw, hv, Bool.and_self, ↓reduceIte]

end Layout

/-! ### The retry loop -/

/-- The stores before each attempt of `saveLoop`. -/
def saveTrace (cfg : Config) (ok : Outcome) : Nat → Store → List Store
  | 0, _ => []
  | n + 1, σ =>
    σ :: if (saveAttempt cfg ok σ).1 then [] else saveTrace cfg ok n (saveAttempt cfg ok σ).2

variable {cfg : Config} {ok : Outcome} {σ : Store}

theorem saveLoop_done (n : Nat) (h : (saveAttempt cfg ok σ).1 = true) :
    saveLoop cfg ok (n + 1) σ = (.ok, (saveAttempt cfg ok σ).2) := by
  rw [saveLoop, if_pos h]

theorem saveLoop_retry (n : Nat) (h : (saveAttempt cfg ok σ).1 = false) :
    saveLoop cfg ok (n + 1) σ = saveLoop cfg ok n (saveAttempt cfg ok σ).2 := by
  rw [saveLoop, if_neg (by rw [h]; exact Bool.noConfusion)]

theorem saveTrace_done (n : Nat) (h : (saveAttempt cfg ok σ).1 = true) : saveTrace cfg ok (n + 1) σ = [σ] := by
  rw [saveTrace, if_pos h]

theorem saveTrace_retry (n : Nat) (h : (saveAttempt cfg ok σ).1 = false) :
    saveTrace cfg ok (n + 1) σ = σ :: saveTrace cfg ok n (saveAttempt cfg ok σ).2 := by
  rw [saveTrace, if_neg (by rw [h]; exact Bool.noConfusion)]

theorem saveTrace_length_le (cfg : Config) (ok : Outcome) (n : Nat) (σ : Store) :
    (saveTrace cfg ok n σ).length ≤ n := by
  induction n generalizing σ with
  | zero => exact Nat.le_refl _
  | succ n ih =>
    simp only [saveTrace, List.length_cons]
    split
    · simp
    · exact Nat.succ_le_succ (ih _)

/-- What every attempt that is made keeps holds when the loop ends, after the last attempt if it
    succeeded. -/
theorem saveLoop_induction {P : Store → Prop} {Q : Res → Store → Prop} (n : Nat) (h : P σ)
    (fail : ∀ σ', P σ' → Q .err { σ' with rt := updateRuntime σ'.rt .err })
    (step : ∀ σ' ∈ saveTrace cfg ok n σ, P σ' →
      ((saveAttempt cfg ok σ').1 = true → Q .ok (saveAttempt cfg ok σ').2) ∧
        ((saveAttempt cfg ok σ').1 = false → P (saveAttempt cfg ok σ').2)) :
    Q (saveLoop cfg ok n σ).1 (saveLoop cfg ok n σ).2 := by
  induction n generalizing σ with
  | zero => exact fail σ h
  | succ n ih =>
    cases hdone : (saveAttempt cfg ok σ).1 with
    | true =>
      rw [saveLoop_done n hdone]
      exact (step σ (by simp [saveTrace]) h).1 hdone
    | false =>
      rw [saveLoop_retry n hdone]
      apply ih ((step σ (by simp [saveTrace]) h).2 hdone)
      intro σ' hσ'
      apply step
      rw [saveTrace_retry n hdone]
      exact List.mem_cons_of_mem _ hσ'

end RodActuator.Param
