import RodActuator.Param.Packed

/-! Histories of boots and saves on a working flash. After a boot the pointer stands on the newest
    record, so the first attempt of the next save programs over it and fails; the second attempt writes
    the slot behind it. Every save succeeds and every boot loads the record of the last one. -/

namespace RodActuator.Param
open Nor

namespace Layout
variable (L : Layout)

/-- The newest record `r` is in slot `k`, the last filled one of the current sector. -/
structure Newest (fill : Nat → Nat) (σ : Store) (r : List Word) (k : Nat) : Prop where
  placed : L.Placed fill σ
  slot : L.slot σ.dev.mem σ.rt.currSec k = r
  fill_eq : fill σ.rt.currSec = k + 1
  valid : L.recordOk r = true
  above : ∀ q ∈ L.visited fill, q ≠ (σ.rt.currSec, k) → L.recordOk (L.slot σ.dev.mem q.1 q.2) = true →
    (L.seqOf (L.slot σ.dev.mem q.1 q.2)).toNat < (L.seqOf r).toNat

/-- The store between two calls on a working flash: the pointer is on the newest record or right behind
    it. -/
structure Ready (fill : Nat → Nat) (σ : Store) (r : List Word) : Prop where
  seq : L.seqOf σ.buf = L.seqOf r
  last : ∃ k, L.Newest fill σ r k ∧
    (σ.rt.currAddr = L.slotAddr σ.rt.currSec k ∨ σ.rt.currAddr = L.slotAddr σ.rt.currSec (k + 1))

theorem Newest.mem_visited {L : Layout} {fill : Nat → Nat} {σ : Store} {r : List Word} {k : Nat}
    (h : L.Newest fill σ r k) : (σ.rt.currSec, k) ∈ L.visited fill :=
  L.mem_visited.mpr ⟨h.placed.cursor.sec, by rw [h.fill_eq]; exact Nat.lt_succ_self k⟩

theorem Newest.best {L : Layout} {fill : Nat → Nat} {σ : Store} {r : List Word} {k : Nat}
    (h : L.Newest fill σ r k) : L.best fill σ.dev.mem = some (σ.rt.currSec, k) := by
  apply L.best_of_gt h.mem_visited
  · rw [h.slot]
    exact h.valid
  · rw [h.slot]
    exact h.above

theorem Newest.bound {L : Layout} {fill : Nat → Nat} {σ : Store} {r : List Word} {k : Nat}
    (h : L.Newest fill σ r k) : L.Bound fill σ.dev.mem (L.seqOf r).toNat := by
  intro p hp hok
  rcases eq_or_ne p (σ.rt.currSec, k) with rfl | hne
  · rw [h.slot]
  · exact Nat.le_of_lt (h.above p hp hne hok)

theorem attempt_behind (ok : Outcome) {fill : Nat → Nat} {σ : Store} (h : L.Placed fill σ)
    (hb : L.Bound fill σ.dev.mem (L.seqOf σ.buf).toNat) (hwrap : (L.seqOf σ.buf).toNat + 1 < 2 ^ 32)
    (haddr : σ.rt.currAddr = L.slotAddr σ.rt.currSec (fill σ.rt.currSec)) (he : ok.erase σ.dev.ops = true)
    (hp : ∀ t, σ.dev.ops ≤ t → t ≤ σ.dev.ops + L.words → ok.prog t = true) :
    (saveAttempt L.toConfig ok σ).1 = true ∧
      (L.seqOf (saveAttempt L.toConfig ok σ).2.buf).toNat = (L.seqOf σ.buf).toNat + 1 ∧
      ∃ fill', L.Ready fill' (saveAttempt L.toConfig ok σ).2 (saveAttempt L.toConfig ok σ).2.buf := by
  obtain ⟨s, k, σ₁, fill', hstep, hbehind, -⟩ := h.step he (Or.inl (Nat.le_of_eq haddr))
  obtain ⟨hblank, hfill⟩ := hbehind haddr
  have hops : σ.dev.ops ≤ σ₁.dev.ops ∧ σ₁.dev.ops ≤ σ.dev.ops + 1 := by
    obtain ⟨rfl, -⟩ | ⟨-, -, hdev⟩ := hstep.opened.start
    · exact ⟨Nat.le_refl _, Nat.le_succ _⟩
    · rw [hdev]
      exact ⟨Nat.le_succ _, Nat.le_refl _⟩
  have hdone : (saveAttempt L.toConfig ok σ).1 = true :=
    hstep.opened.done hblank fun t h1 h2 => hp t (by omega) (by omega)
  have htried := hstep.opened.tried
  obtain ⟨-, habove⟩ := hstep.above hb hwrap hdone
  refine ⟨hdone, hstep.seq hwrap, fill',
    { seq := rfl,
      last := ⟨k, { placed := hstep.placed, slot := ?_, fill_eq := ?_, valid := htried.valid, above := ?_ }, Or.inr ?_⟩ }⟩
  · rw [htried.currSec, htried.slot_done hdone]
  · rw [htried.currSec]
    exact hfill (hp _ hops.1 (by have := L.words_pos; omega))
  · rw [htried.currSec]
    exact habove
  · rw [htried.currSec]
    exact htried.currAddr

/-- An attempt on the newest record fails, keeps the bound and moves the pointer behind it. -/
theorem attempt_over (ok : Outcome) {fill : Nat → Nat} {σ : Store} {k : Nat} (h : L.Placed fill σ)
    (hb : L.Bound fill σ.dev.mem (L.seqOf σ.buf).toNat) (hwrap : (L.seqOf σ.buf).toNat + 1 < 2 ^ 32)
    (hfill : fill σ.rt.currSec = k + 1) (haddr : σ.rt.currAddr = L.slotAddr σ.rt.currSec k)
    (hseq : L.seqOf (L.slot σ.dev.mem σ.rt.currSec k) = L.seqOf σ.buf) (he : ok.erase σ.dev.ops = true) :
    (saveAttempt L.toConfig ok σ).1 = false ∧
      (L.seqOf (saveAttempt L.toConfig ok σ).2.buf).toNat = (L.seqOf σ.buf).toNat + 1 ∧
      L.Placed fill (saveAttempt L.toConfig ok σ).2 ∧
      L.Bound fill (saveAttempt L.toConfig ok σ).2.dev.mem (L.seqOf (saveAttempt L.toConfig ok σ).2.buf).toNat ∧
      (saveAttempt L.toConfig ok σ).2.rt.currSec = σ.rt.currSec ∧
      (saveAttempt L.toConfig ok σ).2.rt.currAddr = L.slotAddr σ.rt.currSec (k + 1) := by
  have hlt : σ.rt.currAddr < L.slotAddr σ.rt.currSec (fill σ.rt.currSec) := by
    rw [haddr, hfill, ← Nat.not_le, L.slotAddr_le_iff]
    omega
  obtain ⟨s, k₁, σ₁, fill', hstep, -, hbefore⟩ := h.step he (Or.inl (Nat.le_of_lt hlt))
  obtain ⟨rfl, rfl, haddr', rfl⟩ := hbefore hlt
  obtain rfl : k₁ = k := L.slotAddr_inj (haddr'.symm.trans haddr)
  have htried := hstep.opened.tried
  have hnew := hstep.seq hwrap
  -- Programming cannot raise the sequence number in the slot.
  have hle : (L.seqOf (L.slot (saveAttempt L.toConfig ok σ₁).2.dev.mem σ₁.rt.currSec k₁)).toNat ≤
      (L.seqOf σ₁.buf).toNat := by
    obtain ⟨j, hj, -⟩ := htried.slot_torn
    rw [hj, ← hseq]
    exact L.seqOf_torn_le j _ _
  refine ⟨?_, hnew, hstep.placed, ?_, htried.currSec, htried.currAddr⟩
  · rw [← Bool.not_eq_true]
    intro hdone
    rw [htried.slot_done hdone, hnew] at hle
    omega
  · rw [hnew]
    exact hstep.bound hb fun _ => Nat.le_succ_of_le hle

theorem Newest.setPayload {L : Layout} {fill : Nat → Nat} {σ : Store} {r : List Word} {k : Nat}
    (h : L.Newest fill σ r k) (f : Nat → Word) : L.Newest fill { σ with buf := L.setPayload f σ.buf } r k :=
  { placed := h.placed.setPayload f, slot := h.slot, fill_eq := h.fill_eq, valid := h.valid, above := h.above }

theorem Ready.setPayload {L : Layout} {fill : Nat → Nat} {σ : Store} {r : List Word} (h : L.Ready fill σ r)
    (f : Nat → Word) : L.Ready fill { σ with buf := L.setPayload f σ.buf } r := by
  obtain ⟨k, hnewest, haddr⟩ := h.last
  exact { seq := (L.seqOf_setPayload f σ.buf).trans h.seq, last := ⟨k, hnewest.setPayload f, haddr⟩ }

/-- On a working flash `paramSave` succeeds, and its sequence number counts the attempts. -/
theorem Ready.paramSave_ok {L : Layout} {fill : Nat → Nat} {σ : Store} {r : List Word} (h : L.Ready fill σ r)
    (hwrap : (L.seqOf σ.buf).toNat + (saveTrace L.toConfig .all maxWriteRetry σ).length < 2 ^ 32) :
    (paramSave L.toConfig .all σ).1 = .ok ∧
      (∃ fill', L.Ready fill' (paramSave L.toConfig .all σ).2 (paramSave L.toConfig .all σ).2.buf) ∧
      (L.seqOf (paramSave L.toConfig .all σ).2.buf).toNat =
        (L.seqOf σ.buf).toNat + (saveTrace L.toConfig .all maxWriteRetry σ).length := by
  have hwrap1 : (L.seqOf σ.buf).toNat + 1 < 2 ^ 32 := by
    rw [maxWriteRetry, saveTrace] at hwrap
    simp only [List.length_cons] at hwrap
    omega
  obtain ⟨k, hnewest, haddr⟩ := h.last
  have hbound := hnewest.bound
  rw [← h.seq] at hbound
  rcases haddr with haddr | haddr
  · -- The pointer is on the newest record: one failed attempt, then one behind it.
    obtain ⟨hfail, hseq, hplaced, hbound, hsec, haddr'⟩ := L.attempt_over .all hnewest.placed hbound hwrap1
      hnewest.fill_eq haddr (by rw [hnewest.slot, h.seq]) rfl
    have hwrap2 : (L.seqOf (saveAttempt L.toConfig .all σ).2.buf).toNat + 1 < 2 ^ 32 := by
      rw [maxWriteRetry, saveTrace_retry _ hfail, saveTrace] at hwrap
      simp only [List.length_cons] at hwrap
      omega
    obtain ⟨hdone, hseq', hready⟩ := L.attempt_behind .all hplaced hbound hwrap2
      (by rw [hsec, hnewest.fill_eq]; exact haddr') rfl fun _ _ _ => rfl
    rw [paramSave, maxWriteRetry, saveLoop_retry _ hfail, saveLoop_done _ hdone, saveTrace_retry _ hfail,
      saveTrace_done _ hdone]
    exact ⟨rfl, hready, hseq'.trans (congrArg (· + 1) hseq)⟩
  · obtain ⟨hdone, hseq, hready⟩ := L.attempt_behind .all hnewest.placed hbound hwrap1
      (by rw [hnewest.fill_eq]; exact haddr) rfl fun _ _ _ => rfl
    rw [paramSave, maxWriteRetry, saveLoop_done _ hdone, saveTrace_done _ hdone]
    exact ⟨rfl, hready, hseq⟩

theorem Ready.boot {L : Layout} {fill : Nat → Nat} {σ : Store} {r : List Word} (h : L.Ready fill σ r)
    (D : L.Defaults) (ok : Outcome) :
    (L.boot D ok σ).res = .ok ∧ (L.boot D ok σ).defaults = false ∧ (L.boot D ok σ).store.buf = r ∧
      L.Ready fill (L.boot D ok σ).store r := by
  obtain ⟨k, hnewest, -⟩ := h.last
  have hpacked : L.Packed fill (L.fresh σ.dev).dev.mem := hnewest.placed.packed
  obtain ⟨hplaced, -⟩ := L.init_found_placed D ok hpacked hnewest.best
  rw [L.init_found D ok hpacked.filled hnewest.best] at hplaced
  rw [Layout.boot, L.init_found D ok hpacked.filled hnewest.best]
  exact ⟨rfl, rfl, hnewest.slot,
    { seq := congrArg L.seqOf hnewest.slot,
      last := ⟨k, { placed := hplaced, slot := hnewest.slot, fill_eq := hnewest.fill_eq, valid := hnewest.valid,
                    above := hnewest.above }, Or.inl rfl⟩ }⟩

theorem Erased.boot {L : Layout} {σ : Store} (h : L.Erased σ.dev.mem) (D : L.Defaults) :
    ∃ fill, L.Ready fill (L.boot D .all σ).store (L.boot D .all σ).store.buf := by
  have hbest := L.best_eq_none_of_empty (L.fresh σ.dev).dev.mem
  have hpacked : L.Packed (fun _ => 0) (L.fresh σ.dev).dev.mem := h.packed
  obtain ⟨hplaced, hbound, hseq⟩ := L.defaultStore_placed D .all hpacked hbest (List.length_replicate ..) rfl
  obtain ⟨hdone, -, fill', hready⟩ := L.attempt_behind .all hplaced (by rw [hseq]; exact hbound)
    (by rw [hseq]; decide) (by simp [defaultStore]) rfl fun _ _ _ => rfl
  refine ⟨fill', ?_⟩
  rw [Layout.boot, L.init_default D .all hpacked.filled hbest, paramSave, maxWriteRetry, saveLoop_done _ hdone]
  obtain ⟨k, hnewest, haddr⟩ := hready.last
  exact
    { seq := hready.seq,
      last := ⟨k, { placed := hnewest.placed.updateRuntime .ok, slot := hnewest.slot, fill_eq := hnewest.fill_eq,
                    valid := hnewest.valid, above := hnewest.above }, haddr⟩ }

/-! ### Histories -/

/-- Boots and saves from an erased region on a working flash. `f` and `r` are the payload and the record
    of the last save, or of the defaults when there was none. The sequence number stays below `2 ^ 32 - 1`. -/
inductive History (D : L.Defaults) : Store → (Nat → Word) → List Word → Prop where
  | first {σ : Store} (erased : L.Erased σ.dev.mem) :
      History D (L.boot D .all σ).store D.payload (L.boot D .all σ).store.buf
  | boot {σ : Store} {f : Nat → Word} {r : List Word} (before : History D σ f r) :
      History D (L.boot D .all σ).store f r
  | save {σ : Store} {f : Nat → Word} {r : List Word} (before : History D σ f r) (g : Nat → Word)
      (below : (L.seqOf σ.buf).toNat + (L.attempts .all g σ).length < 2 ^ 32 - 1) :
      History D (L.save .all g σ).2 g (L.save .all g σ).2.buf

theorem Ready.save {L : Layout} {fill : Nat → Nat} {σ : Store} {r : List Word} (h : L.Ready fill σ r)
    (f : Nat → Word) (below : (L.seqOf σ.buf).toNat + (L.attempts .all f σ).length < 2 ^ 32) :
    (L.save .all f σ).1 = .ok ∧ (∃ fill', L.Ready fill' (L.save .all f σ).2 (L.save .all f σ).2.buf) ∧
      (L.seqOf (L.save .all f σ).2.buf).toNat = (L.seqOf r).toNat + (L.attempts .all f σ).length := by
  unfold attempts at below
  have hsave := (h.setPayload f).paramSave_ok (by simp only [L.seqOf_setPayload]; exact below)
  simp only [L.seqOf_setPayload] at hsave
  rw [h.seq] at hsave
  exact hsave

theorem History.ready {L : Layout} {D : L.Defaults} {σ : Store} {f : Nat → Word} {r : List Word}
    (h : L.History D σ f r) : (∃ fill, L.Ready fill σ r) ∧ L.Carries f r := by
  induction h with
  | first erased => exact ⟨erased.boot D, L.carries_default D .all erased.packed.filled (L.best_eq_none_of_empty _)⟩
  | boot before ih =>
    obtain ⟨⟨fill, hready⟩, hcarries⟩ := ih
    exact ⟨⟨fill, (hready.boot D .all).2.2.2⟩, hcarries⟩
  | save before g below ih =>
    obtain ⟨⟨fill, hready⟩, -⟩ := ih
    obtain ⟨k, hnewest, -⟩ := hready.last
    exact ⟨(hready.save g (by omega)).2.1, L.carries_save .all g hnewest.placed.cursor.magic.length⟩

/-- Save and load on a working flash: every save succeeds within its attempts and steps the sequence
    number once for each, and every boot loads the record of the last save, with its payload. -/
theorem history_round_trip {L : Layout} {D : L.Defaults} {σ : Store} {f : Nat → Word} {r : List Word}
    (h : L.History D σ f r) :
    (L.boot D .all σ).res = .ok ∧ (L.boot D .all σ).defaults = false ∧ (L.boot D .all σ).store.buf = r ∧
      L.Carries f r ∧
      ∀ g : Nat → Word, (L.seqOf σ.buf).toNat + (L.attempts .all g σ).length < 2 ^ 32 - 1 →
        (L.save .all g σ).1 = .ok ∧ (L.attempts .all g σ).length ≤ maxWriteRetry ∧
          (L.seqOf (L.save .all g σ).2.buf).toNat = (L.seqOf r).toNat + (L.attempts .all g σ).length := by
  obtain ⟨⟨fill, hready⟩, hcarries⟩ := h.ready
  obtain ⟨hres, hload, hbuf, -⟩ := hready.boot D .all
  refine ⟨hres, hload, hbuf, hcarries, fun g hg => ?_⟩
  obtain ⟨hok, -, hseq⟩ := hready.save g (by omega)
  exact ⟨hok, saveTrace_length_le _ _ _ _, hseq⟩

end Layout

/-- First boot, a save, a reboot, a save over the pointer left on the newest record, and a reboot. -/
theorem history_round_trip_rod :
    (rodLayout.boot rodDefaults .all
      (rodLayout.save .all (fun _ => 7#32) (rodLayout.boot rodDefaults .all
        (rodLayout.save .all (fun _ => 5#32) (rodLayout.boot rodDefaults .all erasedStore).store).2).store).2).store.buf[3]? =
      some 7#32 := by
  have h := Layout.History.first (L := rodLayout) (D := rodDefaults) (σ := erasedStore) fun _ _ => rfl
  have h := (h.save (fun _ => 5#32) (by decide +kernel)).boot
  have h := Layout.history_round_trip (h.save (fun _ => 7#32) (by decide +kernel))
  rw [h.2.2.1]
  exact h.2.2.2.1 3 (by decide) (by decide)

end RodActuator.Param
