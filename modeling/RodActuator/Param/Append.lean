import RodActuator.Param.BadSpots
import RodActuator.Param.Log

/-! Appending on a working flash. A save programs erased words only, succeeds at its first attempt and damages no
    record, unless the pointer stands on a record when it is called, as a boot that finds a record leaves it. -/

namespace RodActuator.Param
open Nor

namespace Layout
variable (L : Layout)

/-- The head magic of a record is where the pointer stands, with room for a record. -/
def OnRecord (σ : Store) : Prop :=
  σ.rt.currAddr + L.paramSize ≤ (σ.rt.currSec + 1) * paramSectorSize ∧ σ.dev.mem σ.rt.currAddr = L.magicHead

/-- The stores with which `Param_Save` is called on a working flash that was erased once: by the first boot, by a
    later one that finds no record, and by the program. -/
inductive SaveCall (D : L.Defaults) : Store → Prop where
  | first {σ : Store} (erased : L.Erased σ.dev.mem) : SaveCall D (L.defaultStore D .all (L.fresh σ.dev))
  | boot {σ : Store} {as : List Store} (before : L.Run D .all σ as)
      (missing : (scanRegion L.toConfig σ.dev.mem).found = false) : SaveCall D (L.defaultStore D .all (L.fresh σ.dev))
  | save {σ : Store} {as : List Store} (before : L.Run D .all σ as) (f : Nat → Word) :
      SaveCall D { σ with buf := L.setPayload f σ.buf }

/-- What a save is to do: each word that it programs is erased at that moment; it succeeds at its first attempt;
    it steps the sequence number once; it fills one slot; and the valid records of the other sectors, and those of
    its own sector if that is not erased, stay as they are. -/
structure Appends (σ : Store) : Prop where
  erased : ∀ before a v after, saveOps L.toConfig .all σ = before ++ .write a v :: after →
    (applyOps .all σ.dev before).mem a = erasedWord
  ok : (paramSave L.toConfig .all σ).1 = .ok
  attempts : (saveTrace L.toConfig .all maxWriteRetry σ).length = 1
  seq : L.seqOf (paramSave L.toConfig .all σ).2.buf = L.seqOf σ.buf + 1
  slot : ∃ s ∈ sectors L.toConfig, ∃ k < L.slotCount,
    L.slot (paramSave L.toConfig .all σ).2.dev.mem s k = (paramSave L.toConfig .all σ).2.buf ∧
      ∀ a v, .write a v ∈ saveOps L.toConfig .all σ → ∃ i < L.words, a = L.slotAddr s k + 4 * i
  kept : ∀ s ∈ sectors L.toConfig, ∀ k < L.slotCount, L.recordOk (L.slot σ.dev.mem s k) = true →
    L.slot (paramSave L.toConfig .all σ).2.dev.mem s k = L.slot σ.dev.mem s k ∨
      .erase (s * paramSectorSize) ∈ saveOps L.toConfig .all σ

/-- The region is packed, and the pointer stands on a filled slot or the first erased one. -/
def Tidy (σ : Store) : Prop :=
  ∃ fill, L.Placed fill σ ∧ σ.rt.currAddr ≤ L.slotAddr σ.rt.currSec (fill σ.rt.currSec)

variable {L} {σ : Store}

theorem Tidy.attempt (h : L.Tidy σ) : L.Tidy (saveAttempt L.toConfig .all σ).2 := by
  obtain ⟨fill, hplaced, hle⟩ := h
  obtain ⟨s, k, σ₁, fill', hstep, -⟩ := hplaced.step (Outcome.erase_all _) (.inl hle)
  have htried := hstep.opened.tried
  obtain ⟨-, hfilled⟩ := L.mem_visited.mp (hstep.written rfl)
  refine ⟨fill', hstep.placed, ?_⟩
  rw [htried.currAddr, htried.currSec, L.slotAddr_le_iff]
  exact hfilled

theorem Tidy.updateRuntime (h : L.Tidy σ) (res : Res) : L.Tidy { σ with rt := updateRuntime σ.rt res } := by
  obtain ⟨fill, hplaced, hle⟩ := h
  exact ⟨fill, hplaced.updateRuntime res, hle⟩

theorem Tidy.setPayload (h : L.Tidy σ) (f : Nat → Word) : L.Tidy { σ with buf := L.setPayload f σ.buf } := by
  obtain ⟨fill, hplaced, hle⟩ := h
  exact ⟨fill, hplaced.setPayload f, hle⟩

theorem Tidy.save (h : L.Tidy σ) : L.Tidy (paramSave L.toConfig .all σ).2 := by
  refine saveLoop_induction (P := L.Tidy) (Q := fun _ => L.Tidy) maxWriteRetry h ?_ ?_
  · exact fun σ' h' => h'.updateRuntime .err
  · exact fun σ' _ h' => ⟨fun _ => h'.attempt, fun _ => h'.attempt⟩

theorem tidy_default {fill : Nat → Nat} (D : L.Defaults) (hpacked : L.Packed fill σ.dev.mem)
    (hbest : L.best fill σ.dev.mem = none) (hlen : σ.buf.length = L.words) : L.Tidy (L.defaultStore D .all σ) := by
  obtain ⟨hplaced, -⟩ := L.defaultStore_placed D .all hpacked hbest hlen rfl
  exact ⟨_, hplaced, Nat.le_add_right ..⟩

theorem tidy_init {fill : Nat → Nat} (D : L.Defaults) (hpacked : L.Packed fill σ.dev.mem) (hlen : σ.buf.length = L.words) :
    L.Tidy (L.init D .all σ).store := by
  cases hbest : L.best fill σ.dev.mem with
  | some p =>
    obtain ⟨hplaced, -⟩ := L.init_found_placed D .all hpacked hbest
    obtain ⟨-, hk⟩ := L.mem_visited.mp (L.best_mem hbest).1
    refine ⟨fill, hplaced, ?_⟩
    rw [L.init_found D .all hpacked.filled hbest]
    exact L.slotAddr_le_iff.mpr (Nat.le_of_lt hk)
  | none =>
    rw [L.init_default D .all hpacked.filled hbest]
    exact (tidy_default D hpacked hbest hlen).save.updateRuntime .ok

theorem Run.tidy {D : L.Defaults} {as : List Store} (h : L.Run D .all σ as) : L.Tidy σ := by
  induction h with
  | first erased =>
    have hpacked : L.Packed (fun _ => 0) (L.fresh _).dev.mem := erased.packed
    exact tidy_init D hpacked (List.length_replicate ..)
  | boot before ih =>
    obtain ⟨fill, hplaced, -⟩ := ih
    have hpacked : L.Packed fill (L.fresh _).dev.mem := hplaced.packed
    exact tidy_init D hpacked (List.length_replicate ..)
  | save before f ih => exact (ih.setPayload f).save
  | @eraseAll σ as before ih =>
    obtain ⟨fill, hplaced, -⟩ := ih
    exact tidy_init D (L.erased_wipe (fun _ => rfl) σ.dev).packed hplaced.cursor.magic.length

theorem SaveCall.tidy {D : L.Defaults} (h : L.SaveCall D σ) : L.Tidy σ := by
  cases h with
  | first erased =>
    have hpacked : L.Packed (fun _ => 0) (L.fresh _).dev.mem := erased.packed
    exact tidy_default D hpacked (L.best_eq_none_of_empty _) (List.length_replicate ..)
  | @boot σ as before missing =>
    obtain ⟨fill, hplaced, -⟩ := before.tidy
    have hbest : L.best fill σ.dev.mem = none := by
      rw [L.scanRegion_filled hplaced.packed.filled] at missing
      cases hbest : L.best fill σ.dev.mem with
      | none => rfl
      | some p =>
        rw [hbest] at missing
        cases missing
    exact tidy_default (σ := L.fresh σ.dev) D hplaced.packed hbest (List.length_replicate ..)
  | save before f => exact before.tidy.setPayload f

/-! ### One save -/

theorem Opened.ops {s k : Nat} {σ₁ : Store} (h : L.Opened .all σ s k σ₁) :
    σ₁ = σ ∧ openOps L.toConfig σ = [] ∨ k = 0 ∧ openOps L.toConfig σ = [.erase (s * paramSectorSize)] := by
  rcases h.start with ⟨rfl, haddr⟩ | ⟨hk, haddr, -⟩
  · refine .inl ⟨rfl, if_neg ?_⟩
    rw [haddr, h.sec]
    exact Nat.not_lt.mpr ((L.slot_fits s k).mpr h.lt)
  · refine .inr ⟨hk, ?_⟩
    have hfull : σ.rt.currAddr + L.paramSize > (σ.rt.currSec + 1) * paramSectorSize := by
      rw [haddr]
      exact Nat.not_le.mp fun hfits => Nat.lt_irrefl _ ((L.slot_fits _ _).mp hfits)
    rcases L.openSlot_cases haddr (Outcome.erase_all _) with ⟨hlt, -⟩ | ⟨-, s', cnt, hs, hopen⟩
    · exact absurd hlt (Nat.lt_irrefl _)
    · obtain ⟨-, rfl⟩ := h.unique hopen
      obtain rfl : s' = s := h.sec
      rw [openOps, if_pos hfull, hs]
      split_ifs <;> rfl

/-- Off a record the pointer is on the first erased slot of its sector. -/
theorem Tidy.behind (h : L.Tidy σ) (hoff : ¬L.OnRecord σ) :
    ∃ fill, L.Placed fill σ ∧ σ.rt.currAddr = L.slotAddr σ.rt.currSec (fill σ.rt.currSec) := by
  obtain ⟨fill, hplaced, hle⟩ := h
  refine ⟨fill, hplaced, ?_⟩
  obtain ⟨k, hk, haddr⟩ := hplaced.cursor.addr
  rw [haddr, L.slotAddr_le_iff] at hle
  rcases Nat.lt_or_eq_of_le hle with hlt | heq
  · exfalso
    have hroom := Nat.lt_of_lt_of_le hlt (hplaced.packed.le _ hplaced.cursor.sec)
    refine hoff ⟨?_, ?_⟩
    · rw [haddr]
      exact (L.slot_fits _ k).mpr hroom
    · rw [haddr, ← L.head_slot σ.dev.mem]
      exact hplaced.packed.head _ hplaced.cursor.sec k hlt
  · rw [haddr, heq]

theorem saveOps_done (h : (saveAttempt L.toConfig .all σ).1 = true) : saveOps L.toConfig .all σ = attemptOps L.toConfig .all σ := by
  rw [saveOps, maxWriteRetry, saveTrace_done _ h, List.flatMap_singleton]

theorem Opened.attemptOps_eq {s k : Nat} {σ₁ : Store} (h : L.Opened .all σ s k σ₁) :
    attemptOps L.toConfig .all σ =
      openOps L.toConfig σ ++ writeOps .all σ₁.dev (L.slotAddr s k) (stamp L.toConfig σ₁.buf) := by
  rw [attemptOps, h.open_eq]

/-- Each word that the attempt programs over an erased slot is erased at that moment. -/
theorem Opened.writes_erased {s k : Nat} {σ₁ : Store} (h : L.Opened .all σ s k σ₁) (hblank : L.slot σ₁.dev.mem s k = L.blank)
    {before after : List FlashOp} {a : Nat} {v : Word}
    (hsplit : attemptOps L.toConfig .all σ = before ++ .write a v :: after) :
    (applyOps .all σ.dev before).mem a = erasedWord := by
  have hlen : (stamp L.toConfig σ₁.buf).length = L.words := (L.stamp_magic h.magic).length
  have hdev : applyOps .all σ.dev (openOps L.toConfig σ) = σ₁.dev := by
    rw [← openSlot_dev, h.open_eq]
  have hwords : ∀ i < (stamp L.toConfig σ₁.buf).length, σ₁.dev.mem (L.slotAddr s k + i * 4) = erasedWord := by
    intro i hi
    rw [hlen] at hi
    have hword := readWords_getElem? σ₁.dev.mem 4 (L.slotAddr s k) hi
    change (L.slot σ₁.dev.mem s k)[i]? = _ at hword
    rw [hblank, blank, List.getElem?_replicate, if_pos hi] at hword
    exact (Option.some.inj hword).symm
  rw [h.attemptOps_eq] at hsplit
  rcases List.append_eq_append_iff.mp hsplit with ⟨rest, rfl, hrest⟩ | ⟨rest, hopen, hrest⟩
  · rw [applyOps_append, hdev]
    exact writeOps_erased hwords hrest
  · cases rest with
    | nil =>
      rw [List.append_nil] at hopen
      rw [← hopen, hdev]
      have hfirst : writeOps .all σ₁.dev (L.slotAddr s k) (stamp L.toConfig σ₁.buf) = [] ++ .write a v :: after := hrest.symm
      exact writeOps_erased hwords hfirst
    | cons op rest =>
      obtain ⟨rfl, -⟩ := List.cons.inj hrest
      have hmem : .write a v ∈ openOps L.toConfig σ := by
        rw [hopen]
        simp
      obtain ⟨address, heq⟩ := mem_openOps hmem
      cases heq

/-- A save over an erased slot, which its sector's erase may have made so. -/
theorem Opened.appends {s k : Nat} {σ₁ : Store} (h : L.Opened .all σ s k σ₁) (hblank : L.slot σ₁.dev.mem s k = L.blank) :
    L.Appends σ := by
  have hdone := h.done hblank fun _ _ _ => rfl
  have htried := h.tried
  have hsave : paramSave L.toConfig .all σ = (.ok, (saveAttempt L.toConfig .all σ).2) := saveLoop_done _ hdone
  have hops := (saveOps_done hdone).trans h.attemptOps_eq
  have hlen : (stamp L.toConfig σ₁.buf).length = L.words := (L.stamp_magic h.magic).length
  refine ⟨?_, by rw [hsave], ?_, ?_, ?_, ?_⟩
  · intro before a v after hsplit
    rw [saveOps_done hdone] at hsplit
    exact h.writes_erased hblank hsplit
  · rw [maxWriteRetry, saveTrace_done _ hdone]
    rfl
  · rw [hsave, htried.seq, h.seq]
  · refine ⟨s, h.sec_mem, k, h.lt, ?_, fun a v hmem => ?_⟩
    · rw [hsave]
      exact htried.slot_done hdone
    · rw [hops] at hmem
      rcases List.mem_append.mp hmem with hmem | hmem
      · obtain ⟨address, heq⟩ := mem_openOps hmem
        cases heq
      · obtain ⟨i, hi, u, heq⟩ := mem_writeOps hmem
        cases heq
        exact ⟨i, hlen ▸ hi, rfl⟩
  · intro s' hs' k' hk' hok
    rw [hsave]
    have hopened : L.slot σ₁.dev.mem s' k' = L.slot σ.dev.mem s' k' ∨
        s' = s ∧ k = 0 ∧ L.slot σ₁.dev.mem s' k' = L.blank := h.slot_eq rfl hk'
    rcases hopened with hsame | ⟨rfl, -, hslot⟩
    · by_cases hthis : (s', k') = (s, k)
      · cases hthis
        rw [← hsame, hblank, L.recordOk_blank] at hok
        cases hok
      · exact .inl ((htried.others s' k' hk' hthis).trans hsame)
    · right
      rcases h.ops with ⟨rfl, -⟩ | ⟨-, heq⟩
      · rw [hslot, L.recordOk_blank] at hok
        cases hok
      · rw [hops, heq]
        exact List.mem_append_left _ List.mem_cons_self

theorem Tidy.appends (h : L.Tidy σ) (hoff : ¬L.OnRecord σ) : L.Appends σ := by
  obtain ⟨fill, hplaced, haddr⟩ := h.behind hoff
  obtain ⟨s, k, σ₁, fill', hstep, hbehind, -⟩ := hplaced.step (Outcome.erase_all _) (.inl (Nat.le_of_eq haddr))
  exact hstep.opened.appends (hbehind haddr).1

/-- On a record the first program meets the head magic. -/
theorem Tidy.not_appends (h : L.Tidy σ) (hon : L.OnRecord σ) : ¬L.Appends σ := by
  intro happends
  obtain ⟨fill, hplaced, -⟩ := h
  obtain ⟨hfits, hhead⟩ := hon
  have hopen : openSlot L.toConfig .all σ = (some σ.rt.currAddr, σ) := if_neg (Nat.not_lt.mpr hfits)
  have hlen : (stamp L.toConfig σ.buf).length = L.words := (L.stamp_magic hplaced.cursor.magic).length
  have hpos := L.words_pos
  obtain ⟨v, vs, hbuf⟩ : ∃ v vs, stamp L.toConfig σ.buf = v :: vs := by
    cases hstamp : stamp L.toConfig σ.buf with
    | nil =>
      rw [hstamp, List.length_nil] at hlen
      omega
    | cons v vs => exact ⟨v, vs, rfl⟩
  have hattempt : ∃ rest, attemptOps L.toConfig .all σ = .write σ.rt.currAddr v :: rest := by
    rw [attemptOps, hopen, openOps, if_neg (Nat.not_lt.mpr hfits)]
    dsimp only
    rw [hbuf, writeOps]
    exact ⟨_, rfl⟩
  obtain ⟨rest, hattempt⟩ := hattempt
  have hops : ∃ after, saveOps L.toConfig .all σ = [] ++ .write σ.rt.currAddr v :: after := by
    rw [saveOps, maxWriteRetry, saveTrace, List.flatMap_cons, hattempt]
    exact ⟨_, rfl⟩
  obtain ⟨after, hops⟩ := hops
  have herased := happends.erased _ _ _ _ hops
  rw [applyOps_nil, hhead] at herased
  exact L.head_ne herased

/-- A boot that finds a record leaves the pointer on it. -/
theorem Run.boot_onRecord {D : L.Defaults} {as : List Store} (h : L.Run D .all σ as)
    (hfound : (scanRegion L.toConfig σ.dev.mem).found = true) : L.OnRecord (L.boot D .all σ).store := by
  obtain ⟨fill, hplaced, -⟩ := h.tidy
  rw [L.scanRegion_filled hplaced.packed.filled] at hfound
  cases hbest : L.best fill σ.dev.mem with
  | none =>
    rw [hbest] at hfound
    cases hfound
  | some p =>
    obtain ⟨hs, hk⟩ := L.mem_visited.mp (L.best_mem hbest).1
    have hpacked : L.Packed fill (L.fresh σ.dev).dev.mem := hplaced.packed
    rw [Layout.boot, L.init_found D .all hpacked.filled hbest]
    refine ⟨(L.slot_fits p.1 p.2).mpr (Nat.lt_of_lt_of_le hk (hplaced.packed.le _ hs)), ?_⟩
    exact (L.head_slot σ.dev.mem p.1 p.2).symm.trans (hplaced.packed.head _ hs _ hk)

/-- In every history of reboots and saves on a working flash, a save appends just when the pointer does not stand on
    a record. -/
theorem append_iff {D : L.Defaults} (h : L.SaveCall D σ) : L.Appends σ ↔ ¬L.OnRecord σ :=
  ⟨fun happends hon => h.tidy.not_appends hon happends, fun hoff => h.tidy.appends hoff⟩

end Layout

/-- The save after the first boot. -/
theorem append_iff_rod :
    let σ := (rodLayout.boot rodDefaults .all erasedStore).store
    rodLayout.Appends { σ with buf := rodLayout.setPayload (fun _ => 5#32) σ.buf } := by
  intro σ
  have hcall := Layout.SaveCall.save (.first (D := rodDefaults) (σ := erasedStore) fun _ _ => rfl) fun _ => 5#32
  refine (Layout.append_iff hcall).mpr ?_
  rintro ⟨-, hhead⟩
  revert hhead
  decide +kernel

/-- The save after a reboot programs over the record of the first boot, and the second attempt succeeds. -/
theorem reboot_overwrites :
    let σ := (rodLayout.boot rodDefaults .all (rodLayout.boot rodDefaults .all erasedStore).store).store
    let called : Store := { σ with buf := rodLayout.setPayload (fun _ => 5#32) σ.buf }
    rodLayout.SaveCall rodDefaults called ∧ ¬rodLayout.Appends called ∧
      (saveTrace rodLayout.toConfig .all maxWriteRetry called).length = 2 ∧
      rodLayout.seqOf (paramSave rodLayout.toConfig .all called).2.buf = rodLayout.seqOf called.buf + 2 ∧
      rodLayout.recordOk (rodLayout.slot called.dev.mem 60 0) = true ∧
      rodLayout.recordOk (rodLayout.slot (paramSave rodLayout.toConfig .all called).2.dev.mem 60 0) = false := by
  intro σ called
  have hlen : (saveTrace rodLayout.toConfig .all maxWriteRetry called).length = 2 := by decide +kernel
  refine ⟨.save (.boot (.first fun _ _ => rfl)) _, fun happends => ?_, hlen, ?_⟩
  · rw [happends.attempts] at hlen
    cases hlen
  · decide +kernel

end RodActuator.Param
