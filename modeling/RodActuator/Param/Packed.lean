import RodActuator.Param.Boot

/-! Packed regions: in each sector the slots in front of the first erased one carry the head magic and
    all others are erased. An attempt on a filled slot or on the first erased one keeps the region
    packed; its record outranks every other when no valid record is above the buffer's sequence number. -/

namespace RodActuator.Param
open Nor

namespace Layout
variable (L : Layout)

/-- The first `fill s` slots of each sector carry the head magic, the others are erased. -/
structure Packed (fill : Nat → Nat) (m : Nat → Word) : Prop where
  le : ∀ s ∈ sectors L.toConfig, fill s ≤ L.slotCount
  head : ∀ s ∈ sectors L.toConfig, ∀ k < fill s, getField32 (L.slot m s k) 0 = L.magicHead
  blank : ∀ s ∈ sectors L.toConfig, ∀ k, fill s ≤ k → k < L.slotCount → L.slot m s k = L.blank

/-- The pointer stands on a filled slot of a packed region, on the first erased one or on the next. -/
structure Placed (fill : Nat → Nat) (σ : Store) : Prop where
  packed : L.Packed fill σ.dev.mem
  cursor : L.Cursor σ
  near : σ.rt.currAddr ≤ L.slotAddr σ.rt.currSec (fill σ.rt.currSec + 1)

/-- No valid record of the filled slots has a sequence number above `R`. -/
def Bound (fill : Nat → Nat) (m : Nat → Word) (R : Nat) : Prop :=
  ∀ p ∈ L.visited fill, L.recordOk (L.slot m p.1 p.2) = true → (L.seqOf (L.slot m p.1 p.2)).toNat ≤ R

def Erased (m : Nat → Word) : Prop := ∀ x, x / paramSectorSize ∈ sectors L.toConfig → m x = erasedWord

theorem slotAddr_le_iff {s k k' : Nat} : L.slotAddr s k ≤ L.slotAddr s k' ↔ k ≤ k' := by
  have hp : 0 < L.paramSize := Nat.lt_of_lt_of_le (by decide) L.size_pos
  rw [slotAddr, slotAddr, Nat.add_le_add_iff_left, Nat.mul_le_mul_right_iff hp]

theorem slotAddr_inj {s k k' : Nat} (h : L.slotAddr s k = L.slotAddr s k') : k = k' :=
  Nat.le_antisymm (L.slotAddr_le_iff.mp (Nat.le_of_eq h)) (L.slotAddr_le_iff.mp (Nat.le_of_eq h.symm))

theorem Packed.filled {L : Layout} {fill : Nat → Nat} {m : Nat → Word} (h : L.Packed fill m) : L.Filled fill m where
  le := h.le
  head := h.head
  stop s hs hlt := h.blank s hs _ (Nat.le_refl _) hlt

theorem Erased.packed {L : Layout} {m : Nat → Word} (h : L.Erased m) : L.Packed (fun _ => 0) m where
  le _ _ := Nat.zero_le _
  head _ _ _ hk := absurd hk (Nat.not_lt_zero _)
  blank s hs k _ hlt := by
    apply readWords_eq_replicate
    intro i hi
    apply h
    rw [L.slotAddr_word_div hlt hi]
    exact hs

theorem erased_wipe {ok : Outcome} (he : ∀ t, ok.erase t = true) (d : Device 32) : L.Erased (L.wipe ok d).mem := by
  have hfold : ∀ (l : List Nat) (d : Device 32) (x : Nat), d.mem x = erasedWord ∨ x / paramSectorSize ∈ l →
      (l.foldl (fun d s => (internalErase ok d (s * paramSectorSize)).1) d).mem x = erasedWord := by
    intro l
    induction l with
    | nil => exact fun d x h => h.resolve_right (by simp)
    | cons s l ih =>
      intro d x h
      apply ih
      rcases eq_or_ne (x / paramSectorSize) s with heq | hne
      · left
        rw [← heq]
        simp [internalErase, Nor.erase, he, paramSectorSize, erasedWord]
      · rcases h with h | h
        · left
          simp [internalErase, Nor.erase, he, h, erasedWord]
        · exact Or.inr ((List.mem_cons.mp h).resolve_left hne)
  exact fun x hx => hfold _ d x (Or.inr hx)

theorem best_eq_none_of_empty (m : Nat → Word) : L.best (fun _ => 0) m = none := by
  simp [best, visited]

theorem Packed.erase {L : Layout} {fill : Nat → Nat} {ok : Outcome} {d : Device 32} (h : L.Packed fill d.mem)
    (s : Nat) (he : ok.erase d.ops = true) :
    L.Packed (Function.update fill s 0) (internalErase ok d (s * paramSectorSize)).1.mem where
  le s' hs' := by
    rcases eq_or_ne s' s with rfl | hne
    · simp
    · rw [Function.update_of_ne hne]
      exact h.le s' hs'
  head s' hs' k hk := by
    rcases eq_or_ne s' s with rfl | hne
    · simp at hk
    · rw [Function.update_of_ne hne] at hk
      rw [L.slot_erase he (Nat.lt_of_lt_of_le hk (h.le s' hs')), if_neg hne]
      exact h.head s' hs' k hk
  blank s' hs' k hk hlt := by
    rw [L.slot_erase he hlt]
    rcases eq_or_ne s' s with rfl | hne
    · exact if_pos rfl
    · rw [if_neg hne]
      rw [Function.update_of_ne hne] at hk
      exact h.blank s' hs' k hk hlt

theorem Packed.erase_kept {L : Layout} {fill : Nat → Nat} {ok : Outcome} {d : Device 32} (h : L.Packed fill d.mem)
    {s : Nat} (he : ok.erase d.ops = true) {p : Nat × Nat} (hp : p ∈ L.visited (Function.update fill s 0)) :
    p.1 ≠ s ∧ p ∈ L.visited fill ∧
      L.slot (internalErase ok d (s * paramSectorSize)).1.mem p.1 p.2 = L.slot d.mem p.1 p.2 := by
  obtain ⟨hp1, hp2⟩ := L.mem_visited.mp hp
  rcases eq_or_ne p.1 s with heq | hne
  · rw [heq] at hp2
    simp at hp2
  · rw [Function.update_of_ne hne] at hp2
    refine ⟨hne, L.mem_visited.mpr ⟨hp1, hp2⟩, ?_⟩
    rw [L.slot_erase he (Nat.lt_of_lt_of_le hp2 (h.le _ hp1)), if_neg hne]

/-- A region stays packed when one slot changes that is filled or the first erased one, and carries the
    head magic afterwards. -/
theorem Packed.write {L : Layout} {fill : Nat → Nat} {m m' : Nat → Word} (h : L.Packed fill m) {s k : Nat}
    (hlt : k < L.slotCount) (hle : k ≤ fill s)
    (hothers : ∀ s' k', k' < L.slotCount → (s', k') ≠ (s, k) → L.slot m' s' k' = L.slot m s' k')
    (hhead : getField32 (L.slot m' s k) 0 = L.magicHead) :
    L.Packed (Function.update fill s (max (fill s) (k + 1))) m' where
  le s' hs' := by
    have := h.le s' hs'
    rcases eq_or_ne s' s with rfl | hne
    · simp only [Function.update_self]
      omega
    · rwa [Function.update_of_ne hne]
  head s' hs' k' hk' := by
    rcases eq_or_ne (s', k') (s, k) with heq | hne
    · cases heq
      exact hhead
    · have hlt' : k' < fill s' := by
        rcases eq_or_ne s' s with rfl | hs'
        · simp only [Function.update_self] at hk'
          have : k' ≠ k := fun h => hne (by rw [h])
          omega
        · rwa [Function.update_of_ne hs'] at hk'
      rw [hothers s' k' (Nat.lt_of_lt_of_le hlt' (h.le s' hs')) hne]
      exact h.head s' hs' k' hlt'
  blank s' hs' k' hk' hlt' := by
    have hne : (s', k') ≠ (s, k) := by
      rintro heq
      cases heq
      simp only [Function.update_self] at hk'
      omega
    rw [hothers s' k' hlt' hne]
    apply h.blank s' hs' k' _ hlt'
    rcases eq_or_ne s' s with rfl | hs'
    · simp only [Function.update_self] at hk'
      omega
    · rwa [Function.update_of_ne hs'] at hk'

theorem Packed.congr {L : Layout} {fill : Nat → Nat} {m m' : Nat → Word} (h : L.Packed fill m)
    (hslots : ∀ s k, k < L.slotCount → L.slot m' s k = L.slot m s k) : L.Packed fill m' where
  le := h.le
  head s hs k hk := by
    rw [hslots s k (Nat.lt_of_lt_of_le hk (h.le s hs))]
    exact h.head s hs k hk
  blank s hs k hk hlt := by
    rw [hslots s k hlt]
    exact h.blank s hs k hk hlt

theorem mem_visited_of_write {fill : Nat → Nat} {s k : Nat} (hle : k ≤ fill s) {p : Nat × Nat}
    (hp : p ∈ L.visited (Function.update fill s (max (fill s) (k + 1)))) (hne : p ≠ (s, k)) : p ∈ L.visited fill := by
  obtain ⟨s', k'⟩ := p
  obtain ⟨h1, h2⟩ := L.mem_visited.mp hp
  refine L.mem_visited.mpr ⟨h1, ?_⟩
  rcases eq_or_ne s' s with rfl | hs'
  · simp only [Function.update_self] at h2
    have : k' ≠ k := fun h => hne (by rw [h])
    omega
  · rwa [Function.update_of_ne hs'] at h2

/-! ### Attempts -/

/-- An attempt on a packed region: what it opens, and how the filled slots move. -/
structure Step (ok : Outcome) (fill : Nat → Nat) (σ : Store) (s k : Nat) (σ₁ : Store) (fill' : Nat → Nat) :
    Prop where
  opened : L.Opened ok σ s k σ₁
  placed : L.Placed fill' (saveAttempt L.toConfig ok σ).2
  written : ok.prog σ₁.dev.ops = true → (s, k) ∈ L.visited fill'
  others : ∀ p ∈ L.visited fill', p ≠ (s, k) →
    p ∈ L.visited fill ∧ L.slot (saveAttempt L.toConfig ok σ).2.dev.mem p.1 p.2 = L.slot σ.dev.mem p.1 p.2

theorem Placed.opened {L : Layout} {ok : Outcome} {fill : Nat → Nat} {σ σ₁ : Store} {s k : Nat}
    (h : L.Placed fill σ) (ho : L.Opened ok σ s k σ₁) (he : ok.erase σ.dev.ops = true)
    (hle : σ.rt.currAddr ≤ L.slotAddr σ.rt.currSec (fill σ.rt.currSec) ∨
      σ.rt.currAddr = L.slotAddr σ.rt.currSec L.slotCount) :
    ∃ fill₁, L.Packed fill₁ σ₁.dev.mem ∧ k ≤ fill₁ s ∧
      (∀ p ∈ L.visited fill₁, p ∈ L.visited fill ∧ L.slot σ₁.dev.mem p.1 p.2 = L.slot σ.dev.mem p.1 p.2) ∧
      (σ₁ = σ ∧ s = σ.rt.currSec ∧ σ.rt.currAddr = L.slotAddr s k ∧ fill₁ = fill ∨
        σ.rt.currAddr = L.slotAddr σ.rt.currSec L.slotCount ∧ k = 0 ∧ fill₁ s = 0) := by
  obtain ⟨rfl, haddr⟩ | ⟨rfl, hfull, hdev⟩ := ho.start
  · obtain rfl := ho.sec
    refine ⟨fill, h.packed, ?_, fun p hp => ⟨hp, rfl⟩, Or.inl ⟨rfl, rfl, haddr, rfl⟩⟩
    rw [haddr, L.slotAddr_le_iff] at hle
    rcases hle with hle | heq
    · exact hle
    · have := L.slotAddr_inj heq
      have := ho.lt
      omega
  · refine ⟨Function.update fill s 0, ?_, Nat.zero_le _, fun p hp => ?_, Or.inr ⟨hfull, rfl, Function.update_self ..⟩⟩
    · rw [hdev]
      exact h.packed.erase s he
    · rw [hdev]
      exact (h.packed.erase_kept he hp).2

/-- The slot carries the head magic after the attempt, if the first program had an effect or it did before. -/
theorem Opened.head_taken {L : Layout} {ok : Outcome} {fill : Nat → Nat} {σ σ₁ : Store} {s k : Nat}
    (ho : L.Opened ok σ s k σ₁) (hpacked : L.Packed fill σ₁.dev.mem) (htaken : ok.prog σ₁.dev.ops = true ∨ k < fill s) :
    getField32 (L.slot (saveAttempt L.toConfig ok σ).2.dev.mem s k) 0 = L.magicHead := by
  have ht := ho.tried
  obtain ⟨j, hj, hpos⟩ := ht.slot_torn
  rw [hj]
  by_cases hfill : k < fill s
  · exact L.head_torn (L.slot_length _ _ _) ht.cursor.magic (hpacked.head s ho.sec_mem k hfill)
  · rw [hpacked.blank s ho.sec_mem k (by omega) ho.lt]
    exact L.head_torn_blank (hpos (htaken.resolve_right hfill)) ht.cursor.magic

/-- An attempt whose first program has no effect leaves all slots. -/
theorem Opened.slots_missed {L : Layout} {ok : Outcome} {σ σ₁ : Store} {s k : Nat} (ho : L.Opened ok σ s k σ₁)
    (hmissed : ok.prog σ₁.dev.ops = false) {s' k' : Nat} (hk' : k' < L.slotCount) :
    L.slot (saveAttempt L.toConfig ok σ).2.dev.mem s' k' = L.slot σ₁.dev.mem s' k' := by
  rcases eq_or_ne (s', k') (s, k) with heq | hne
  · cases heq
    exact (ho.tried.slot_missed hmissed).2
  · exact ho.tried.others s' k' hk' hne

theorem Placed.step {L : Layout} {ok : Outcome} {fill : Nat → Nat} {σ : Store} (h : L.Placed fill σ)
    (he : ok.erase σ.dev.ops = true)
    (hle : σ.rt.currAddr ≤ L.slotAddr σ.rt.currSec (fill σ.rt.currSec) ∨
      σ.rt.currAddr = L.slotAddr σ.rt.currSec L.slotCount) :
    ∃ s k σ₁ fill', L.Step ok fill σ s k σ₁ fill' ∧
      (σ.rt.currAddr = L.slotAddr σ.rt.currSec (fill σ.rt.currSec) →
        L.slot σ₁.dev.mem s k = L.blank ∧ (ok.prog σ₁.dev.ops = true → fill' s = k + 1)) ∧
      (σ.rt.currAddr < L.slotAddr σ.rt.currSec (fill σ.rt.currSec) →
        σ₁ = σ ∧ s = σ.rt.currSec ∧ σ.rt.currAddr = L.slotAddr s k ∧ fill' = fill) := by
  obtain ⟨s, k, σ₁, ho⟩ := h.cursor.opened he
  obtain ⟨fill₁, hpacked, hk, hkept, hstart⟩ := h.opened ho he hle
  have ht := ho.tried
  have hstay : σ.rt.currAddr < L.slotAddr σ.rt.currSec (fill σ.rt.currSec) →
      σ₁ = σ ∧ s = σ.rt.currSec ∧ σ.rt.currAddr = L.slotAddr s k ∧ fill₁ = fill := fun hlt => by
    rcases hstart with h1 | ⟨hfull, -⟩
    · exact h1
    · have := h.packed.le _ h.cursor.sec
      rw [hfull, ← Nat.not_le, L.slotAddr_le_iff] at hlt
      omega
  have hlast : σ.rt.currAddr = L.slotAddr σ.rt.currSec (fill σ.rt.currSec) → k = fill₁ s := fun heq => by
    rcases hstart with ⟨-, rfl, haddr, rfl⟩ | ⟨-, hk, hzero⟩
    · exact L.slotAddr_inj (haddr.symm.trans heq)
    · rw [hk, hzero]
  by_cases htaken : ok.prog σ₁.dev.ops = true ∨ k < fill₁ s
  · have hpacked' := hpacked.write ho.lt hk ht.others (ho.head_taken hpacked htaken)
    refine ⟨s, k, σ₁, _,
      { opened := ho, placed := ⟨hpacked', ht.cursor, ?_⟩, written := fun _ => ?_, others := fun p hp hne => ?_ },
      fun heq => ⟨?_, fun _ => ?_⟩, fun hlt => ?_⟩
    · rw [ht.currAddr, ht.currSec, L.slotAddr_le_iff, Function.update_self]
      omega
    · exact L.mem_visited.mpr ⟨ho.sec_mem, by simp⟩
    · have hp₁ := L.mem_visited_of_write hk hp hne
      obtain ⟨h1, h2⟩ := hkept p hp₁
      have := L.mem_visited.mp hp₁
      exact ⟨h1, by rw [ht.others p.1 p.2 (Nat.lt_of_lt_of_le this.2 (hpacked.le _ this.1)) hne, h2]⟩
    · exact hpacked.blank s ho.sec_mem k (Nat.le_of_eq (hlast heq).symm) ho.lt
    · rw [Function.update_self, ← hlast heq]
      omega
    · obtain ⟨h1, h2, h3, rfl⟩ := hstay hlt
      refine ⟨h1, h2, h3, ?_⟩
      rw [h2] at h3 ⊢
      rw [h3, ← Nat.not_le, L.slotAddr_le_iff] at hlt
      rw [max_eq_left (by omega), Function.update_eq_self]
  · -- The first program had no effect: nothing changed.
    obtain ⟨hmissed, hlt⟩ := not_or.mp htaken
    have hslots : ∀ s' k', k' < L.slotCount →
        L.slot (saveAttempt L.toConfig ok σ).2.dev.mem s' k' = L.slot σ₁.dev.mem s' k' := fun s' k' =>
      ho.slots_missed (Bool.eq_false_of_not_eq_true hmissed)
    refine ⟨s, k, σ₁, fill₁,
      { opened := ho, placed := ⟨hpacked.congr hslots, ht.cursor, ?_⟩, written := fun hp => absurd hp hmissed,
        others := fun p hp hne => ?_ },
      fun heq => ⟨?_, fun hp => absurd hp hmissed⟩, fun hlt' => hstay hlt'⟩
    · rw [ht.currAddr, ht.currSec, L.slotAddr_le_iff]
      omega
    · have := L.mem_visited.mp hp
      rw [hslots p.1 p.2 (Nat.lt_of_lt_of_le this.2 (hpacked.le _ this.1))]
      exact hkept p hp
    · exact hpacked.blank s ho.sec_mem k (by omega) ho.lt

theorem Step.bound {L : Layout} {ok : Outcome} {fill fill' : Nat → Nat} {σ σ₁ : Store} {s k R : Nat}
    (h : L.Step ok fill σ s k σ₁ fill') (hb : L.Bound fill σ.dev.mem R)
    (hslot : L.recordOk (L.slot (saveAttempt L.toConfig ok σ).2.dev.mem s k) = true →
      (L.seqOf (L.slot (saveAttempt L.toConfig ok σ).2.dev.mem s k)).toNat ≤ R + 1) :
    L.Bound fill' (saveAttempt L.toConfig ok σ).2.dev.mem (R + 1) := by
  intro p hp hok
  rcases eq_or_ne p (s, k) with rfl | hne
  · exact hslot hok
  · obtain ⟨h1, h2⟩ := h.others p hp hne
    rw [h2] at hok ⊢
    exact Nat.le_succ_of_le (hb p h1 hok)

theorem Step.seq {L : Layout} {ok : Outcome} {fill fill' : Nat → Nat} {σ σ₁ : Store} {s k : Nat}
    (h : L.Step ok fill σ s k σ₁ fill') (hwrap : (L.seqOf σ.buf).toNat + 1 < 2 ^ 32) :
    (L.seqOf (saveAttempt L.toConfig ok σ).2.buf).toNat = (L.seqOf σ.buf).toNat + 1 := by
  rw [h.opened.tried.seq, h.opened.seq, BitVec.toNat_add]
  exact Nat.mod_eq_of_lt hwrap

theorem Step.above {L : Layout} {ok : Outcome} {fill fill' : Nat → Nat} {σ σ₁ : Store} {s k : Nat}
    (h : L.Step ok fill σ s k σ₁ fill') (hb : L.Bound fill σ.dev.mem (L.seqOf σ.buf).toNat)
    (hwrap : (L.seqOf σ.buf).toNat + 1 < 2 ^ 32) (hdone : (saveAttempt L.toConfig ok σ).1 = true) :
    (s, k) ∈ L.visited fill' ∧ ∀ q ∈ L.visited fill', q ≠ (s, k) →
      L.recordOk (L.slot (saveAttempt L.toConfig ok σ).2.dev.mem q.1 q.2) = true →
        (L.seqOf (L.slot (saveAttempt L.toConfig ok σ).2.dev.mem q.1 q.2)).toNat <
          (L.seqOf (saveAttempt L.toConfig ok σ).2.buf).toNat := by
  have hprog : ok.prog σ₁.dev.ops = true := by
    by_contra hp
    rw [(h.opened.tried.slot_missed (Bool.not_eq_true _ ▸ hp)).1] at hdone
    cases hdone
  refine ⟨h.written hprog, fun q hq hne hok => ?_⟩
  obtain ⟨h1, h2⟩ := h.others q hq hne
  rw [h2] at hok ⊢
  rw [h.seq hwrap]
  exact Nat.lt_succ_of_le (hb q h1 hok)

theorem Step.best {L : Layout} {ok : Outcome} {fill fill' : Nat → Nat} {σ σ₁ : Store} {s k : Nat}
    (h : L.Step ok fill σ s k σ₁ fill') (hb : L.Bound fill σ.dev.mem (L.seqOf σ.buf).toNat)
    (hwrap : (L.seqOf σ.buf).toNat + 1 < 2 ^ 32) (hdone : (saveAttempt L.toConfig ok σ).1 = true) :
    L.best fill' (saveAttempt L.toConfig ok σ).2.dev.mem = some (s, k) := by
  obtain ⟨hmem, habove⟩ := h.above hb hwrap hdone
  have hslot := h.opened.tried.slot_done hdone
  apply L.best_of_gt hmem
  · rw [hslot]
    exact h.opened.tried.valid
  · rw [hslot]
    exact habove

/-! ### Boots -/

theorem init_found_placed (D : L.Defaults) (ok : Outcome) {fill : Nat → Nat} {σ : Store}
    (hf : L.Packed fill σ.dev.mem) {p : Nat × Nat} (hbest : L.best fill σ.dev.mem = some p) :
    L.Placed fill (L.init D ok σ).store ∧
      L.Bound fill (L.init D ok σ).store.dev.mem (L.seqOf (L.init D ok σ).store.buf).toNat := by
  obtain ⟨hp, hok⟩ := L.best_mem hbest
  obtain ⟨hs, hk⟩ := L.mem_visited.mp hp
  rw [L.init_found D ok hf.filled hbest]
  refine ⟨{ packed := hf, cursor := ?_, near := ?_ }, fun q hq hqok => L.best_le hbest hq hqok⟩
  · exact { sec := hs, addr := ⟨p.2, Nat.le_trans (Nat.le_of_lt hk) (hf.le _ hs), rfl⟩,
            magic := L.magic_of_recordOk (L.slot_length _ _ _) hok }
  · exact L.slotAddr_le_iff.mpr (by simp only [updateRuntime]; omega)

theorem defaultStore_placed (D : L.Defaults) (ok : Outcome) {fill : Nat → Nat} {σ : Store}
    (hf : L.Packed fill σ.dev.mem) (hbest : L.best fill σ.dev.mem = none) (hlen : σ.buf.length = L.words)
    (he : ok.erase σ.dev.ops = true) :
    L.Placed (Function.update fill L.secStart 0) (L.defaultStore D ok σ) ∧
      L.Bound (Function.update fill L.secStart 0) (L.defaultStore D ok σ).dev.mem 0 ∧
      (L.seqOf (L.defaultStore D ok σ).buf).toNat = 0 := by
  have hmem : L.secStart ∈ sectors L.toConfig := L.mem_sectors.mpr ⟨L.sec_le, Nat.le_refl _⟩
  have hm := D.magic σ.buf hlen
  have hcursor : L.Cursor (L.defaultStore D ok σ) :=
    { sec := hmem, addr := ⟨0, Nat.zero_le _, by rw [L.slotAddr_zero]; rfl⟩,
      magic := (hm.setSeq 0).setEraseCnt 1 }
  refine ⟨{ packed := hf.erase L.secStart he, cursor := hcursor, near := Nat.le_add_right _ _ },
    fun p hp hok => ?_, ?_⟩
  · obtain ⟨-, hvis, hslot⟩ := hf.erase_kept he hp
    rw [defaultStore, hslot] at hok
    rw [best, List.argmax_eq_none] at hbest
    have hvalid : p ∈ (L.visited fill).filter fun p => L.recordOk (L.slot σ.dev.mem p.1 p.2) :=
      List.mem_filter.mpr ⟨hvis, hok⟩
    rw [hbest] at hvalid
    cases hvalid
  · have hseq : L.seqOf (L.defaultStore D ok σ).buf = 0 := by
      simp only [defaultStore, L.seqOf_setEraseCnt]
      exact getField32_setField32_self _ (by rw [hm.length]; exact L.index_lt L.seq_size)
    rw [hseq]
    rfl

theorem Placed.updateRuntime {L : Layout} {fill : Nat → Nat} {σ : Store} (h : L.Placed fill σ) (res : Res) :
    L.Placed fill { σ with rt := updateRuntime σ.rt res } :=
  { packed := h.packed, cursor := ⟨h.cursor.sec, h.cursor.addr, h.cursor.magic⟩, near := h.near }

theorem Placed.setPayload {L : Layout} {fill : Nat → Nat} {σ : Store} (h : L.Placed fill σ) (f : Nat → Word) :
    L.Placed fill { σ with buf := L.setPayload f σ.buf } :=
  { packed := h.packed, cursor := ⟨h.cursor.sec, h.cursor.addr, L.setPayload_magic f h.cursor.magic⟩, near := h.near }

end Layout

end RodActuator.Param
