import RodActuator.Param.Packed

/-! Who wrote the record in a slot. Under any pattern of failing programs every slot of the region carries
    the head magic or is erased, so the scan only meets whole slots. A slot that an attempt changed holds
    the record of that attempt, or something the checksum has to tell from a record. -/

namespace RodActuator.Param
open Nor

namespace Layout
variable (L : Layout) {α : Type*}

/-- Every slot carries the head magic or is erased. -/
def Aligned (m : Nat → Word) : Prop :=
  ∀ s ∈ sectors L.toConfig, ∀ k < L.slotCount, getField32 (L.slot m s k) 0 = L.magicHead ∨ L.slot m s k = L.blank

/-- What the attempt from `σ` can leave in its slot passes the scan only if it is what was there or the
    whole record. -/
def Tells (ok : Outcome) (σ : Store) : Prop :=
  ∀ a σ₁, openSlot L.toConfig ok σ = (some a, σ₁) → ∀ j,
    L.recordOk (torn j (readWords σ₁.dev.mem 4 a L.words) (stamp L.toConfig σ₁.buf)) = true →
      torn j (readWords σ₁.dev.mem 4 a L.words) (stamp L.toConfig σ₁.buf) = readWords σ₁.dev.mem 4 a L.words ∨
        torn j (readWords σ₁.dev.mem 4 a L.words) (stamp L.toConfig σ₁.buf) = stamp L.toConfig σ₁.buf

theorem tells_of_opened {ok : Outcome} {σ σ₁ : Store} {a : Nat} (h : openSlot L.toConfig ok σ = (some a, σ₁)) :
    L.Tells ok σ ↔ ∀ j < L.words + 1,
      L.recordOk (torn j (readWords σ₁.dev.mem 4 a L.words) (stamp L.toConfig σ₁.buf)) = true →
        torn j (readWords σ₁.dev.mem 4 a L.words) (stamp L.toConfig σ₁.buf) = readWords σ₁.dev.mem 4 a L.words ∨
          torn j (readWords σ₁.dev.mem 4 a L.words) (stamp L.toConfig σ₁.buf) = stamp L.toConfig σ₁.buf := by
  refine ⟨fun ht j _ => ht a σ₁ h j, fun ht a' σ' h' j => ?_⟩
  rw [h, Prod.mk.injEq, Option.some.injEq] at h'
  rw [← h'.1, ← h'.2]
  rcases Nat.lt_or_ge j (L.words + 1) with hj | hj
  · exact ht j hj
  · rw [torn_of_le _ (by rw [readWords_length]; omega), readWords_length]
    exact ht L.words (Nat.lt_succ_self _)

instance (ok : Outcome) (σ : Store) : Decidable (L.Tells ok σ) :=
  match h : openSlot L.toConfig ok σ with
  | (none, _) => isTrue fun _ _ h' => by
    rw [h, Prod.mk.injEq] at h'
    cases h'.1
  | (some _, _) => decidable_of_iff _ (L.tells_of_opened h).symm

/-- The source of the record in each slot, after an attempt of `src`: a slot that did not change keeps its
    source, one that changed has `src` if it holds the record of the attempt. -/
def retag (ok : Outcome) (src : α) (o : Nat × Nat → Option α) (σ : Store) : Nat × Nat → Option α := fun p =>
  if L.slot (saveAttempt L.toConfig ok σ).2.dev.mem p.1 p.2 = L.slot σ.dev.mem p.1 p.2 then o p
  else if L.slot (saveAttempt L.toConfig ok σ).2.dev.mem p.1 p.2 = (saveAttempt L.toConfig ok σ).2.buf then some src
  else none

/-- The slots that the scan of a sector passes before the first erased one. -/
def fillOf (m : Nat → Word) (s : Nat) : Nat :=
  (List.range L.slotCount).findIdx fun k => L.slot m s k == L.blank

theorem Aligned.filled {L : Layout} {m : Nat → Word} (h : L.Aligned m) : L.Filled (L.fillOf m) m := by
  have hlen (s : Nat) : L.fillOf m s ≤ L.slotCount := by
    have hle : L.fillOf m s ≤ (List.range L.slotCount).length := List.findIdx_le_length
    rwa [List.length_range] at hle
  refine ⟨fun s _ => hlen s, fun s hs k hk => ?_, fun s _ hlt => ?_⟩
  · have hne := List.not_of_lt_findIdx hk
    simp only [List.getElem_range] at hne
    exact (h s hs k (Nat.lt_of_lt_of_le hk (hlen s))).resolve_right (by simpa using hne)
  · have hlt' : (List.range L.slotCount).findIdx (fun k => L.slot m s k == L.blank) <
        (List.range L.slotCount).length := by
      rw [List.length_range]
      exact hlt
    have heq := List.findIdx_getElem (w := hlt')
    rw [List.getElem_range, beq_iff_eq] at heq
    exact heq

theorem Erased.slot_blank {L : Layout} {m : Nat → Word} (h : L.Erased m) {s k : Nat} (hs : s ∈ sectors L.toConfig)
    (hk : k < L.slotCount) : L.slot m s k = L.blank := h.packed.blank s hs k (Nat.zero_le _) hk

/-- The slots and the sources of their records: `Q r src` for every valid record `r` of source `src`. -/
structure Tagged (Q : List Word → Option α → Prop) (m : Nat → Word) (o : Nat × Nat → Option α) : Prop where
  aligned : L.Aligned m
  tagged : ∀ s ∈ sectors L.toConfig, ∀ k < L.slotCount, L.recordOk (L.slot m s k) = true →
    Q (L.slot m s k) (o (s, k))

variable {L} {Q : List Word → Option α → Prop} {σ : Store} {o : Nat × Nat → Option α} {ok : Outcome} {src : α}

theorem Tagged.congr {m m' : Nat → Word} (h : L.Tagged Q m o)
    (hslots : ∀ s ∈ sectors L.toConfig, ∀ k < L.slotCount, L.slot m' s k = L.slot m s k ∨ L.slot m' s k = L.blank) :
    L.Tagged Q m' o := by
  refine ⟨fun s hs k hk => ?_, fun s hs k hk hok => ?_⟩
  · rcases hslots s hs k hk with heq | heq
    · rw [heq]
      exact h.aligned s hs k hk
    · exact Or.inr heq
  · rcases hslots s hs k hk with heq | heq
    · rw [heq] at hok ⊢
      exact h.tagged s hs k hk hok
    · rw [heq, L.recordOk_blank] at hok
      cases hok

variable (L) in
/-- A slot that the attempt from `σ` changed and that holds its record may have the source `src`. -/
def Admits (Q : List Word → Option α → Prop) (ok : Outcome) (src : α) (σ : Store) : Prop :=
  ∀ s ∈ sectors L.toConfig, ∀ k < L.slotCount,
    L.slot (saveAttempt L.toConfig ok σ).2.dev.mem s k = (saveAttempt L.toConfig ok σ).2.buf →
    L.slot (saveAttempt L.toConfig ok σ).2.dev.mem s k ≠ L.slot σ.dev.mem s k →
    Q (saveAttempt L.toConfig ok σ).2.buf (some src)

theorem Opened.slot_after {σ₁ : Store} {s k : Nat} (h : L.Opened ok σ s k σ₁) (he : ok.erase σ.dev.ops = true)
    {s' k' : Nat} (hk' : k' < L.slotCount) (hne : (s', k') ≠ (s, k)) :
    L.slot (saveAttempt L.toConfig ok σ).2.dev.mem s' k' = L.slot σ.dev.mem s' k' ∨
      L.slot (saveAttempt L.toConfig ok σ).2.dev.mem s' k' = L.blank := by
  rw [h.tried.others s' k' hk' hne]
  rcases h.slot_eq he hk' with heq | ⟨-, -, heq⟩
  · exact Or.inl heq
  · exact Or.inr heq

theorem Tagged.attempt (h : L.Tagged Q σ.dev.mem o) (hc : L.Cursor σ) (he : ok.erase σ.dev.ops = true)
    (ht : L.Tells ok σ) (hnew : L.Admits Q ok src σ) :
    L.Tagged Q (saveAttempt L.toConfig ok σ).2.dev.mem (L.retag ok src o σ) ∧
      L.Cursor (saveAttempt L.toConfig ok σ).2 := by
  obtain ⟨s, k, σ₁, hopen⟩ := hc.opened he
  have htried := hopen.tried
  obtain ⟨j, hj, -⟩ := htried.slot_torn
  have hold : L.slot σ₁.dev.mem s k = L.slot σ.dev.mem s k ∨ L.slot σ₁.dev.mem s k = L.blank := by
    rcases hopen.slot_eq he hopen.lt with heq | ⟨-, -, heq⟩
    · exact Or.inl heq
    · exact Or.inr heq
  refine ⟨⟨fun s' hs' k' hk' => ?_, fun s' hs' k' hk' hok => ?_⟩, htried.cursor⟩
  · rcases eq_or_ne (s', k') (s, k) with heq | hne
    · cases heq
      rw [hj]
      have hbefore : getField32 (L.slot σ₁.dev.mem s k) 0 = L.magicHead ∨ L.slot σ₁.dev.mem s k = L.blank := by
        rcases hold with heq | heq
        · rw [heq]
          exact h.aligned s hs' k hk'
        · exact Or.inr heq
      rcases hbefore with hhead | hblank
      · exact Or.inl (L.head_torn (L.slot_length _ _ _) htried.cursor.magic hhead)
      · rcases Nat.eq_zero_or_pos j with rfl | hpos
        · rw [torn_zero]
          exact Or.inr hblank
        · rw [hblank]
          exact Or.inl (L.head_torn_blank hpos htried.cursor.magic)
    · rcases hopen.slot_after he hk' hne with heq | heq
      · rw [heq]
        exact h.aligned s' hs' k' hk'
      · exact Or.inr heq
  · by_cases hsame : L.slot (saveAttempt L.toConfig ok σ).2.dev.mem s' k' = L.slot σ.dev.mem s' k'
    · rw [retag, if_pos hsame, hsame]
      exact h.tagged s' hs' k' hk' (hsame ▸ hok)
    · have hwhole : L.slot (saveAttempt L.toConfig ok σ).2.dev.mem s' k' = (saveAttempt L.toConfig ok σ).2.buf := by
        rcases eq_or_ne (s', k') (s, k) with heq | hne
        · cases heq
          rw [hj, htried.buf] at hok hsame ⊢
          rcases ht _ _ hopen.open_eq j hok with hleft | hleft
          · -- What was there is erased, or the slot did not change.
            rcases hold with heq | heq
            · exact absurd (hleft.trans heq) hsame
            · rw [show torn j (L.slot σ₁.dev.mem s k) (stamp L.toConfig σ₁.buf) = L.blank from hleft.trans heq,
                L.recordOk_blank] at hok
              cases hok
          · exact hleft
        · rcases hopen.slot_after he hk' hne with heq | heq
          · exact absurd heq hsame
          · rw [heq, L.recordOk_blank] at hok
            cases hok
      have hQ := hnew s' hs' k' hk' hwhole hsame
      rw [retag, if_neg hsame, if_pos hwhole, hwhole]
      exact hQ

theorem Tagged.saveLoop (n : Nat) (h : L.Tagged Q σ.dev.mem o) (hc : L.Cursor σ) (he : ∀ t, ok.erase t = true)
    (ht : ∀ σ' ∈ saveTrace L.toConfig ok n σ, L.Tells ok σ')
    (hnew : ∀ σ' ∈ saveTrace L.toConfig ok n σ, L.Admits Q ok src σ') :
    L.Tagged Q (saveLoop L.toConfig ok n σ).2.dev.mem ((saveTrace L.toConfig ok n σ).foldl (L.retag ok src) o) ∧
      L.Cursor (saveLoop L.toConfig ok n σ).2 := by
  induction n generalizing σ o with
  | zero => exact ⟨h, ⟨hc.sec, hc.addr, hc.magic⟩⟩
  | succ n ih =>
    have hmem : σ ∈ saveTrace L.toConfig ok (n + 1) σ := List.mem_cons_self
    obtain ⟨htag, hcursor⟩ := h.attempt hc (he _) (ht σ hmem) (hnew σ hmem)
    cases hdone : (saveAttempt L.toConfig ok σ).1 with
    | true =>
      rw [saveLoop_done n hdone, saveTrace_done n hdone]
      exact ⟨htag, hcursor⟩
    | false =>
      rw [saveTrace_retry n hdone] at ht hnew
      rw [saveLoop_retry n hdone, saveTrace_retry n hdone, List.foldl_cons]
      exact ih htag hcursor (fun σ' hσ' => ht σ' (List.mem_cons_of_mem _ hσ'))
        fun σ' hσ' => hnew σ' (List.mem_cons_of_mem _ hσ')

/-! ### Boots -/

theorem defaultStore_cursor (D : L.Defaults) (ok : Outcome) (hlen : σ.buf.length = L.words) :
    L.Cursor (L.defaultStore D ok σ) where
  sec := L.mem_sectors.mpr ⟨L.sec_le, Nat.le_refl _⟩
  addr := ⟨0, Nat.zero_le _, by rw [L.slotAddr_zero]; rfl⟩
  magic := ((D.magic σ.buf hlen).setSeq 0).setEraseCnt 1

theorem defaultStore_slot (D : L.Defaults) (he : ok.erase σ.dev.ops = true) {s k : Nat} (hk : k < L.slotCount) :
    L.slot (L.defaultStore D ok σ).dev.mem s k = if s = L.secStart then L.blank else L.slot σ.dev.mem s k :=
  L.slot_erase he hk

theorem Tagged.init (h : L.Tagged Q σ.dev.mem o) (D : L.Defaults) (hlen : σ.buf.length = L.words)
    (he : ∀ t, ok.erase t = true) (ht : ∀ σ' ∈ L.initTrace D ok σ, L.Tells ok σ')
    (hnew : ∀ σ' ∈ L.initTrace D ok σ, L.Admits Q ok src σ') :
    L.Tagged Q (L.init D ok σ).store.dev.mem ((L.initTrace D ok σ).foldl (L.retag ok src) o) ∧
      L.Cursor (L.init D ok σ).store := by
  have hfilled := h.aligned.filled
  cases hbest : L.best (L.fillOf σ.dev.mem) σ.dev.mem with
  | some p =>
    obtain ⟨hp, hok⟩ := L.best_mem hbest
    obtain ⟨hs, hk⟩ := L.mem_visited.mp hp
    have htrace : L.initTrace D ok σ = [] := by simp [initTrace, L.scanRegion_filled hfilled, hbest, scanOf]
    rw [htrace, L.init_found D ok hfilled hbest]
    exact ⟨h, { sec := hs, addr := ⟨p.2, Nat.le_trans (Nat.le_of_lt hk) (hfilled.le _ hs), rfl⟩,
                magic := L.magic_of_recordOk (L.slot_length _ _ _) hok }⟩
  | none =>
    rw [L.initTrace_default D ok hfilled hbest] at ht hnew ⊢
    have hstart : L.Tagged Q (L.defaultStore D ok σ).dev.mem o := h.congr fun s _ k hk => by
      rw [L.defaultStore_slot D (he _) hk]
      split
      · exact Or.inr rfl
      · exact Or.inl rfl
    obtain ⟨htag, hcursor⟩ := hstart.saveLoop maxWriteRetry (L.defaultStore_cursor D ok hlen) he ht hnew
    rw [L.init_default D ok hfilled hbest]
    exact ⟨htag, ⟨hcursor.sec, hcursor.addr, hcursor.magic⟩⟩

/-! ### The default save -/

variable (L) in
def Ahead (σ : Store) : Prop :=
  ∀ k, σ.rt.currAddr = L.slotAddr σ.rt.currSec k → ∀ k', k ≤ k' → k' < L.slotCount →
    L.slot σ.dev.mem σ.rt.currSec k' = L.blank

theorem Ahead.opened {σ₁ : Store} {s k : Nat} (h : L.Ahead σ) (ho : L.Opened ok σ s k σ₁)
    (he : ok.erase σ.dev.ops = true) : ∀ k', k ≤ k' → k' < L.slotCount → L.slot σ₁.dev.mem s k' = L.blank := by
  obtain ⟨rfl, haddr⟩ | ⟨rfl, -, hdev⟩ := ho.start
  · obtain rfl := ho.sec
    exact h k haddr
  · intro k' _ hk'
    rw [hdev, L.slot_erase he hk', if_pos rfl]

theorem Ahead.attempt (h : L.Ahead σ) (hc : L.Cursor σ) (he : ok.erase σ.dev.ops = true) :
    L.Ahead (saveAttempt L.toConfig ok σ).2 := by
  obtain ⟨s, k, σ₁, ho⟩ := hc.opened he
  have ht := ho.tried
  intro i hi k' hle hk'
  rw [ht.currSec, ht.currAddr] at hi
  obtain rfl := L.slotAddr_inj hi
  rw [ht.currSec, ht.others s k' hk' fun heq => by cases heq; omega]
  exact h.opened ho he k' (by omega) hk'

/-- An attempt on an erased slot that fails does not leave its record. -/
theorem Ahead.admits_failed (h : L.Ahead σ) (hc : L.Cursor σ) (he : ok.erase σ.dev.ops = true)
    (htail : L.magicTail ≠ erasedWord) (hfail : (saveAttempt L.toConfig ok σ).1 = false) : L.Admits Q ok src σ := by
  obtain ⟨s, k, σ₁, ho⟩ := hc.opened he
  have ht := ho.tried
  have hr := L.stamp_magic ho.magic
  have hblank := h.opened ho he k (Nat.le_refl _) ho.lt
  intro s' hs' k' hk' hwhole hchanged
  exfalso
  rcases eq_or_ne (s', k') (s, k) with heq | hne
  · cases heq
    have hwrite : (internalWriteBuffer ok σ₁.dev (L.slotAddr s k) (stamp L.toConfig σ₁.buf)).2 = false := by
      rw [ht.buf, ho.dev_eq] at hwhole
      simp only [saveAttempt, ho.open_eq] at hfail
      split at hfail
      · cases hfail
      · rename_i hw
        have hv : internalVerifyBuffer (internalWriteBuffer ok σ₁.dev (L.slotAddr s k) (stamp L.toConfig σ₁.buf)).1
            (L.slotAddr s k) (stamp L.toConfig σ₁.buf) = true := by
          rw [internalVerifyBuffer, hr.length, beq_iff_eq]
          exact hwhole
        rwa [hv, Bool.and_true, Bool.not_eq_true] at hw
    obtain ⟨j, hj, htorn⟩ := writeWords_erased_failed ok (show 0 < 4 by decide) σ₁.dev (L.slotAddr s k)
      (by rw [hr.length]; exact hblank) hwrite
    rw [hr.length] at hj htorn
    have hleft : torn j L.blank (stamp L.toConfig σ₁.buf) = stamp L.toConfig σ₁.buf := by
      rw [ht.buf, ho.dev_eq] at hwhole
      rw [← hblank]
      exact htorn.symm.trans hwhole
    have hlast := L.tail_torn_blank hj hr.length
    rw [hleft, hr.tail] at hlast
    exact htail hlast
  · rcases ho.slot_after he hk' hne with heq | heq
    · exact hchanged heq
    · have hvalid := ht.valid
      rw [← hwhole, heq, L.recordOk_blank] at hvalid
      cases hvalid

theorem saveLoop_failed {cfg : Config} {n : Nat} (h : (saveLoop cfg ok n σ).1 ≠ .ok) :
    ∀ σ' ∈ saveTrace cfg ok n σ, (saveAttempt cfg ok σ').1 = false := by
  induction n generalizing σ with
  | zero => exact fun σ' hσ' => absurd hσ' List.not_mem_nil
  | succ n ih =>
    cases hdone : (saveAttempt cfg ok σ).1 with
    | true =>
      rw [saveLoop_done n hdone] at h
      exact absurd rfl h
    | false =>
      rw [saveLoop_retry n hdone] at h
      rw [saveTrace_retry n hdone]
      intro σ' hσ'
      rcases List.mem_cons.mp hσ' with rfl | hσ'
      · exact hdone
      · exact ih h σ' hσ'

theorem Ahead.saveTrace (n : Nat) (h : L.Ahead σ) (hc : L.Cursor σ) (he : ∀ t, ok.erase t = true) :
    ∀ σ' ∈ saveTrace L.toConfig ok n σ, L.Ahead σ' ∧ L.Cursor σ' := by
  induction n generalizing σ with
  | zero => exact fun σ' hσ' => absurd hσ' List.not_mem_nil
  | succ n ih =>
    obtain ⟨s, k, σ₁, ho⟩ := hc.opened (he _)
    intro σ' hσ'
    cases hdone : (saveAttempt L.toConfig ok σ).1 with
    | true =>
      rw [saveTrace_done n hdone, List.mem_singleton] at hσ'
      rw [hσ']
      exact ⟨h, hc⟩
    | false =>
      rw [saveTrace_retry n hdone] at hσ'
      rcases List.mem_cons.mp hσ' with rfl | hσ'
      · exact ⟨h, hc⟩
      · exact ih (h.attempt hc (he _)) ho.tried.cursor σ' hσ'

variable (L) in
/-- If the default save succeeds, it does so at its first attempt. -/
def Once (ok : Outcome) (σ : Store) : Prop :=
  (paramSave L.toConfig ok σ).1 = .ok → (saveTrace L.toConfig ok maxWriteRetry σ).length = 1

instance (ok : Outcome) (σ : Store) : Decidable (L.Once ok σ) := by
  unfold Once
  infer_instance

/-- A default save that meets `Once` leaves a record with sequence number 1 or none. -/
theorem Once.admits (D : L.Defaults) (hlen : σ.buf.length = L.words) (he : ∀ t, ok.erase t = true)
    (htail : L.magicTail ≠ erasedWord) (h : L.Once ok (L.defaultStore D ok σ))
    (hQ : ∀ b, (L.seqOf b).toNat = 1 → Q b (some src)) :
    ∀ σ' ∈ saveTrace L.toConfig ok maxWriteRetry (L.defaultStore D ok σ), L.Admits Q ok src σ' := by
  have hc := L.defaultStore_cursor D ok hlen
  have hahead : L.Ahead (L.defaultStore D ok σ) := fun k _ k' _ hk' => by
    rw [L.defaultStore_slot D (he _) hk']
    exact if_pos rfl
  intro σ' hσ'
  cases hdone : (saveAttempt L.toConfig ok (L.defaultStore D ok σ)).1 with
  | true =>
    rw [maxWriteRetry, saveTrace_done _ hdone, List.mem_singleton] at hσ'
    rw [hσ']
    intro s _ k _ _ _
    apply hQ
    obtain ⟨s', k', σ₁, ho⟩ := hc.opened (he _)
    have hseq : L.seqOf (L.defaultStore D ok σ).buf = 0 := by
      have hm := D.magic σ.buf hlen
      simp only [defaultStore, L.seqOf_setEraseCnt]
      exact getField32_setField32_self _ (by rw [hm.length]; exact L.index_lt L.seq_size)
    rw [ho.tried.seq, ho.seq, hseq]
    rfl
  | false =>
    obtain ⟨hahead', hc'⟩ := hahead.saveTrace maxWriteRetry hc he σ' hσ'
    refine hahead'.admits_failed hc' (he _) htail (saveLoop_failed ?_ σ' hσ')
    intro hok
    have hone := h hok
    rw [maxWriteRetry, saveTrace_retry _ hdone, Param.saveTrace] at hone
    simp at hone

end Layout

end RodActuator.Param
