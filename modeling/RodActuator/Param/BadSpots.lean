import RodActuator.Param.Packed

/-! Failing programs. The writer skips a slot whatever word of it failed, while the scan of a sector ends
    at a slot whose first word is erased. A record is found as long as no attempt writes behind such a
    slot, and as long as the checksum tells what a stopped write left from a record. -/

namespace RodActuator.Param
open Nor

namespace Layout
variable (L : Layout)

/-- What an attempt needs so that the scan keeps in step with the writer. -/
structure Sound (ok : Outcome) (σ : Store) : Prop where
  /-- The slot in front of the one it writes is not left erased. -/
  noHole : ∀ a σ₁, openSlot L.toConfig ok σ = (some a, σ₁) → a ≠ σ₁.rt.currSec * paramSectorSize →
    σ₁.dev.mem (a - L.paramSize) ≠ erasedWord
  /-- What is left when the write stops passes the scan only with a sequence number that is not above
      that of the record. -/
  detects : ∀ a σ₁, openSlot L.toConfig ok σ = (some a, σ₁) → ∀ j,
    L.recordOk (torn j (readWords σ₁.dev.mem 4 a L.words) (stamp L.toConfig σ₁.buf)) = true →
      (L.seqOf (torn j (readWords σ₁.dev.mem 4 a L.words) (stamp L.toConfig σ₁.buf))).toNat ≤
        (L.seqOf (stamp L.toConfig σ₁.buf)).toNat
  below : (L.seqOf σ.buf).toNat + 1 < 2 ^ 32

theorem sound_of_opened {ok : Outcome} {σ σ₁ : Store} {a : Nat} (h : openSlot L.toConfig ok σ = (some a, σ₁)) :
    L.Sound ok σ ↔ (a ≠ σ₁.rt.currSec * paramSectorSize → σ₁.dev.mem (a - L.paramSize) ≠ erasedWord) ∧
      (∀ j < L.words + 1,
        L.recordOk (torn j (readWords σ₁.dev.mem 4 a L.words) (stamp L.toConfig σ₁.buf)) = true →
          (L.seqOf (torn j (readWords σ₁.dev.mem 4 a L.words) (stamp L.toConfig σ₁.buf))).toNat ≤
            (L.seqOf (stamp L.toConfig σ₁.buf)).toNat) ∧
      (L.seqOf σ.buf).toNat + 1 < 2 ^ 32 := by
  constructor
  · exact fun hs => ⟨hs.noHole a σ₁ h, fun j _ => hs.detects a σ₁ h j, hs.below⟩
  · rintro ⟨h1, h2, h3⟩
    refine ⟨fun a' σ' h' => ?_, fun a' σ' h' j => ?_, h3⟩
    · rw [h, Prod.mk.injEq, Option.some.injEq] at h'
      rwa [← h'.1, ← h'.2]
    · rw [h, Prod.mk.injEq, Option.some.injEq] at h'
      rw [← h'.1, ← h'.2]
      rcases Nat.lt_or_ge j (L.words + 1) with hj | hj
      · exact h2 j hj
      · rw [torn_of_le _ (by rw [readWords_length]; omega), readWords_length]
        exact h2 L.words (Nat.lt_succ_self _)

theorem sound_of_failed {ok : Outcome} {σ σ₁ : Store} (h : openSlot L.toConfig ok σ = (none, σ₁)) :
    L.Sound ok σ ↔ (L.seqOf σ.buf).toNat + 1 < 2 ^ 32 := by
  refine ⟨fun hs => hs.below, fun hb => ⟨fun a σ' h' => ?_, fun a σ' h' => ?_, hb⟩⟩ <;>
  · rw [h, Prod.mk.injEq] at h'
    cases h'.1

instance (ok : Outcome) (σ : Store) : Decidable (L.Sound ok σ) :=
  match h : openSlot L.toConfig ok σ with
  | (none, _) => decidable_of_iff _ (L.sound_of_failed h).symm
  | (some _, _) => decidable_of_iff _ (L.sound_of_opened h).symm

/-- Boots, saves and erasures from an erased region under the outcome `ok`, with the stores before every
    attempt made so far. -/
inductive Run (D : L.Defaults) (ok : Outcome) : Store → List Store → Prop where
  | first {σ : Store} (erased : L.Erased σ.dev.mem) :
      Run D ok (L.boot D ok σ).store (L.initTrace D ok (L.fresh σ.dev))
  | boot {σ : Store} {as : List Store} (before : Run D ok σ as) :
      Run D ok (L.boot D ok σ).store (as ++ L.initTrace D ok (L.fresh σ.dev))
  | save {σ : Store} {as : List Store} (before : Run D ok σ as) (f : Nat → Word) :
      Run D ok (L.save ok f σ).2 (as ++ L.attempts ok f σ)
  | eraseAll {σ : Store} {as : List Store} (before : Run D ok σ as) :
      Run D ok (L.eraseAll D ok σ).store (as ++ L.initTrace D ok { σ with dev := L.wipe ok σ.dev })

/-- The region is packed, and the buffer's sequence number bounds those of the valid records. -/
def InStep (σ : Store) : Prop :=
  ∃ fill, L.Placed fill σ ∧ L.Bound fill σ.dev.mem (L.seqOf σ.buf).toNat

/-- The scan finds the record in the buffer. -/
def Findable (σ : Store) : Prop :=
  ∃ fill p, L.Packed fill σ.dev.mem ∧ L.best fill σ.dev.mem = some p ∧ L.slot σ.dev.mem p.1 p.2 = σ.buf

theorem Sound.not_behind {L : Layout} {ok : Outcome} {σ : Store} (h : L.Sound ok σ) {fill : Nat → Nat}
    (hp : L.Placed fill σ) (he : ok.erase σ.dev.ops = true) :
    σ.rt.currAddr ≤ L.slotAddr σ.rt.currSec (fill σ.rt.currSec) ∨
      σ.rt.currAddr = L.slotAddr σ.rt.currSec L.slotCount := by
  obtain ⟨k, hk, haddr⟩ := hp.cursor.addr
  have hnear := hp.near
  rw [haddr, L.slotAddr_le_iff] at hnear
  rcases L.openSlot_cases haddr he with ⟨hlt, hopen⟩ | ⟨hge, -⟩
  · left
    rw [haddr, L.slotAddr_le_iff]
    by_contra hgt
    -- The pointer is one behind the first erased slot.
    obtain rfl : k = fill σ.rt.currSec + 1 := by omega
    have hblank := hp.packed.blank _ hp.cursor.sec (fill σ.rt.currSec) (Nat.le_refl _) (by omega)
    have hprev := h.noHole _ _ hopen
    rw [L.slotAddr_succ, Nat.add_sub_cancel, ← L.head_slot σ.dev.mem, hblank, L.head_blank] at hprev
    have := L.size_pos
    apply hprev _ rfl
    rw [slotAddr]
    omega
  · right
    rw [haddr, Nat.le_antisymm hk hge]

/-- A sound attempt keeps in step, and its record can be found when it succeeds. -/
theorem InStep.attempt {L : Layout} {ok : Outcome} {σ : Store} (h : L.InStep σ) (hs : L.Sound ok σ)
    (he : ok.erase σ.dev.ops = true) :
    L.InStep (saveAttempt L.toConfig ok σ).2 ∧
      ((saveAttempt L.toConfig ok σ).1 = true → L.Findable (saveAttempt L.toConfig ok σ).2) := by
  obtain ⟨fill, hplaced, hbound⟩ := h
  obtain ⟨s, k, σ₁, fill', hstep, -⟩ := hplaced.step he (hs.not_behind hplaced he)
  have htried := hstep.opened.tried
  have hseq := hstep.seq hs.below
  refine ⟨⟨fill', hstep.placed, ?_⟩, fun hdone => ?_⟩
  · rw [hseq]
    apply hstep.bound hbound
    intro hok
    obtain ⟨j, hj, -⟩ := htried.slot_torn
    rw [htried.buf] at hj
    rw [hj] at hok ⊢
    have hnew : (L.seqOf (stamp L.toConfig σ₁.buf)).toNat = (L.seqOf σ.buf).toNat + 1 := by rw [← htried.buf, hseq]
    rw [← hnew]
    exact hs.detects _ _ hstep.opened.open_eq j hok
  · exact ⟨fill', (s, k), hstep.placed.packed, hstep.best hbound hs.below hdone, htried.slot_done hdone⟩

theorem InStep.saveLoop {L : Layout} {ok : Outcome} {σ : Store} {n : Nat} (h : L.InStep σ)
    (he : ∀ t, ok.erase t = true) (hs : ∀ σ' ∈ saveTrace L.toConfig ok n σ, L.Sound ok σ') :
    L.InStep (saveLoop L.toConfig ok n σ).2 ∧
      ((saveLoop L.toConfig ok n σ).1 = .ok → L.Findable (saveLoop L.toConfig ok n σ).2) := by
  apply saveLoop_induction (P := L.InStep) (Q := fun res σ' => L.InStep σ' ∧ (res = .ok → L.Findable σ')) n h
  · rintro σ' ⟨fill, hplaced, hbound⟩
    exact ⟨⟨fill, hplaced.updateRuntime .err, hbound⟩, Res.noConfusion⟩
  · intro σ' hmem hσ'
    obtain ⟨h1, h2⟩ := hσ'.attempt (hs σ' hmem) (he _)
    exact ⟨fun hdone => ⟨h1, fun _ => h2 hdone⟩, fun _ => h1⟩

theorem init_inStep (D : L.Defaults) {ok : Outcome} {fill : Nat → Nat} {σ : Store} (hf : L.Packed fill σ.dev.mem)
    (hlen : σ.buf.length = L.words) (he : ∀ t, ok.erase t = true) (hs : ∀ σ' ∈ L.initTrace D ok σ, L.Sound ok σ') :
    L.InStep (L.init D ok σ).store := by
  cases hbest : L.best fill σ.dev.mem with
  | some p =>
    obtain ⟨hplaced, hbound⟩ := L.init_found_placed D ok hf hbest
    exact ⟨fill, hplaced, hbound⟩
  | none =>
    obtain ⟨hplaced, hbound, hseq⟩ := L.defaultStore_placed D ok hf hbest hlen (he _)
    have hstart : L.InStep (L.defaultStore D ok σ) := ⟨_, hplaced, by rw [hseq]; exact hbound⟩
    rw [L.initTrace_default D ok hf.filled hbest] at hs
    obtain ⟨fill', hplaced', hbound'⟩ := (hstart.saveLoop he hs).1
    rw [L.init_default D ok hf.filled hbest]
    exact ⟨fill', hplaced'.updateRuntime .ok, hbound'⟩

theorem InStep.setPayload {L : Layout} {σ : Store} (h : L.InStep σ) (f : Nat → Word) :
    L.InStep { σ with buf := L.setPayload f σ.buf } := by
  obtain ⟨fill, hplaced, hbound⟩ := h
  exact ⟨fill, hplaced.setPayload f, by simp only [L.seqOf_setPayload]; exact hbound⟩

theorem Run.inStep {L : Layout} {D : L.Defaults} {ok : Outcome} {σ : Store} {as : List Store}
    (h : L.Run D ok σ as) (he : ∀ t, ok.erase t = true) (hs : ∀ σ' ∈ as, L.Sound ok σ') : L.InStep σ := by
  induction h with
  | first erased => exact L.init_inStep D (σ := L.fresh _) erased.packed (List.length_replicate ..) he hs
  | boot before ih =>
    obtain ⟨fill, hplaced, -⟩ := ih fun σ' hmem => hs σ' (List.mem_append_left _ hmem)
    exact L.init_inStep D (σ := L.fresh _) hplaced.packed (List.length_replicate ..) he fun σ' hmem =>
      hs σ' (List.mem_append_right _ hmem)
  | save before f ih =>
    have hbefore := ih fun σ' hmem => hs σ' (List.mem_append_left _ hmem)
    exact ((hbefore.setPayload f).saveLoop he fun σ' hmem => hs σ' (List.mem_append_right _ hmem)).1
  | @eraseAll σ as before ih =>
    obtain ⟨fill, hplaced, -⟩ := ih fun σ' hmem => hs σ' (List.mem_append_left _ hmem)
    exact L.init_inStep D (L.erased_wipe he σ.dev).packed hplaced.cursor.magic.length he fun σ' hmem =>
      hs σ' (List.mem_append_right _ hmem)

theorem Findable.boot {L : Layout} {σ : Store} (h : L.Findable σ) (D : L.Defaults) (ok : Outcome) :
    (L.boot D ok σ).defaults = false ∧ (L.boot D ok σ).store.buf = σ.buf := by
  obtain ⟨fill, p, hpacked, hbest, hslot⟩ := h
  have hf : L.Filled fill (L.fresh σ.dev).dev.mem := hpacked.filled
  rw [Layout.boot, L.init_found D ok hf hbest]
  exact ⟨rfl, hslot⟩

/-- In a run of sound attempts, under any pattern of failing programs, the record of a save that returns
    ok is the one that the next boot loads. -/
theorem bad_spots {L : Layout} {D : L.Defaults} {ok : Outcome} {σ : Store} {as : List Store}
    (h : L.Run D ok σ as) (he : ∀ t, ok.erase t = true) (f : Nat → Word)
    (hs : ∀ σ' ∈ as ++ L.attempts ok f σ, L.Sound ok σ') (hok : (L.save ok f σ).1 = .ok) (ok' : Outcome) :
    (L.boot D ok' (L.save ok f σ).2).defaults = false ∧
      (L.boot D ok' (L.save ok f σ).2).store.buf = (L.save ok f σ).2.buf := by
  have hbefore := h.inStep he fun σ' hmem => hs σ' (List.mem_append_left _ hmem)
  have hsave := (hbefore.setPayload f).saveLoop (n := maxWriteRetry) he fun σ' hmem =>
    hs σ' (List.mem_append_right _ hmem)
  exact (hsave.2 hok).boot D ok'

end Layout

theorem bad_spots_rod :
    (rodLayout.boot rodDefaults .all (rodLayout.save (missing 9) (fun _ => 5#32)
      (rodLayout.boot rodDefaults (missing 9) erasedStore).store).2).store.buf[3]? = some 5#32 := by
  have h : rodLayout.Run rodDefaults (missing 9) _ _ := .first (σ := erasedStore) fun _ _ => rfl
  rw [(Layout.bad_spots h (fun _ => rfl) (fun _ => 5#32) (by decide +kernel) (by decide +kernel) .all).2]
  decide +kernel

/-- After the first boot the defaults are in slot 0. The save fails on the first word of slot 1, succeeds
    in slot 2, and the next boot loads the defaults. -/
theorem bad_spot_hides_save :
    ∃ σ as, rodLayout.Run rodDefaults (missing 7) σ as ∧ (rodLayout.save (missing 7) (fun _ => 5#32) σ).1 = .ok ∧
      (rodLayout.save (missing 7) (fun _ => 5#32) σ).2.buf[3]? = some 5#32 ∧
      (rodLayout.boot rodDefaults .all (rodLayout.save (missing 7) (fun _ => 5#32) σ).2).store.buf[3]? = some 0#32 := by
  refine ⟨_, _, .first (σ := erasedStore) fun _ _ => rfl, ?_, ?_, ?_⟩ <;> decide +kernel

end RodActuator.Param
