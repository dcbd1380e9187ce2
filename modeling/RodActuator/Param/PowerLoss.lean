import RodActuator.Param.History

/-! Lost power. A save whose attempt writes to an erased slot can be cut anywhere if it does not erase the
    sector of the newest record first. The first save after a boot programs over the newest record; it can
    be cut if that leaves the record as it is. -/

namespace RodActuator.Param
open Nor

/-! ### Attempts that lose power -/

theorem openSlot_dead (cfg : Config) {ok : Outcome} {σ : Store} (h : ok.Dead σ.dev.ops) :
    (openSlot cfg ok σ).2.dev.mem = σ.dev.mem ∧ σ.dev.ops ≤ (openSlot cfg ok σ).2.dev.ops := by
  have herase (a : Nat) : (internalErase ok σ.dev a).1.mem = σ.dev.mem ∧
      σ.dev.ops ≤ (internalErase ok σ.dev a).1.ops := ⟨erase_dead h _, Nat.le_succ _⟩
  unfold openSlot
  dsimp only
  repeat' split
  all_goals first | exact herase _ | exact ⟨rfl, Nat.le_refl _⟩

theorem saveAttempt_dead (cfg : Config) {ok : Outcome} {σ : Store} (h : ok.Dead σ.dev.ops) :
    (saveAttempt cfg ok σ).2.dev.mem = σ.dev.mem ∧ ok.Dead (saveAttempt cfg ok σ).2.dev.ops := by
  obtain ⟨hmem, hops⟩ := openSlot_dead cfg h
  unfold saveAttempt
  split
  · rename_i heq
    rw [heq] at hmem hops
    exact ⟨hmem, h.mono hops⟩
  · rename_i a σ₁ heq
    rw [heq] at hmem hops
    have hdead := h.mono hops
    have hwrite := writeWords_ops_le ok 4 σ₁.dev a (stamp cfg σ₁.buf)
    have hsame : (internalWriteBuffer ok σ₁.dev a (stamp cfg σ₁.buf)).1.mem = σ.dev.mem := by
      rw [← hmem]
      exact writeWords_dead hdead 4 a _
    dsimp only
    split <;> exact ⟨hsame, hdead.mono hwrite⟩

theorem saveLoop_dead (cfg : Config) {ok : Outcome} {σ : Store} (n : Nat) (h : ok.Dead σ.dev.ops) :
    (saveLoop cfg ok n σ).2.dev.mem = σ.dev.mem := by
  induction n generalizing σ with
  | zero => rfl
  | succ n ih =>
    obtain ⟨hmem, hdead⟩ := saveAttempt_dead cfg h
    rw [saveLoop]
    split
    · exact hmem
    · rw [ih hdead, hmem]

theorem openSlot_before_cut {cfg : Config} {σ : Store} {n : Nat} (h : σ.dev.ops < n) :
    openSlot cfg (.cut n) σ = openSlot cfg .all σ := by
  have herase (a : Nat) : internalErase (.cut n) σ.dev a = internalErase .all σ.dev a := by
    simp [internalErase, Nor.erase, Outcome.cut, Outcome.all, h]
  simp only [openSlot, herase]

namespace Layout
variable (L : Layout)

theorem Opened.cut {L : Layout} {σ σ₁ : Store} {s k n : Nat} (h : L.Opened .all σ s k σ₁) (hn : σ.dev.ops < n) :
    L.Opened (.cut n) σ s k σ₁ where
  open_eq := by rw [openSlot_before_cut hn, h.open_eq]
  lt := h.lt
  sec_mem := h.sec_mem
  sec := h.sec
  magic := h.magic
  seq := h.seq
  start := by
    have herase : internalErase (.cut n) σ.dev (s * paramSectorSize) =
        internalErase .all σ.dev (s * paramSectorSize) := by
      simp [internalErase, Nor.erase, Outcome.cut, Outcome.all, hn]
    rw [herase]
    exact h.start

theorem Opened.slot_cut {L : Layout} {σ σ₁ : Store} {s k n : Nat} (h : L.Opened .all σ s k σ₁)
    (hn : σ.dev.ops < n) :
    L.slot (saveAttempt L.toConfig (.cut n) σ).2.dev.mem s k =
      torn (min (n - σ₁.dev.ops) (reach (L.slot σ₁.dev.mem s k) (stamp L.toConfig σ₁.buf)))
        (L.slot σ₁.dev.mem s k) (stamp L.toConfig σ₁.buf) := by
  have hr := L.stamp_magic h.magic
  have hcut := writeWords_cut n (show 0 < 4 by decide) σ₁.dev (L.slotAddr s k) (stamp L.toConfig σ₁.buf)
  rw [hr.length] at hcut
  rw [(h.cut hn).dev_eq]
  exact hcut

theorem Opened.saveLoop_cut {L : Layout} {σ σ₁ : Store} {s k n : Nat} (h : L.Opened .all σ s k σ₁)
    (hn : σ.dev.ops < n) (m : Nat)
    (hend : (saveAttempt L.toConfig (.cut n) σ).1 = true ∨
      n ≤ σ₁.dev.ops + reach (L.slot σ₁.dev.mem s k) (stamp L.toConfig σ₁.buf)) :
    (saveLoop L.toConfig (.cut n) (m + 1) σ).2.dev.mem = (saveAttempt L.toConfig (.cut n) σ).2.dev.mem := by
  cases hdone : (saveAttempt L.toConfig (.cut n) σ).1 with
  | true => rw [saveLoop_done m hdone]
  | false =>
    rw [saveLoop_retry m hdone]
    apply saveLoop_dead L.toConfig
    apply (Outcome.cut_dead n).mono
    have hreach := hend.resolve_left (by rw [hdone]; exact Bool.noConfusion)
    have hr := L.stamp_magic h.magic
    rw [(h.cut hn).dev_eq]
    apply writeWords_cut_ops (by decide)
    rw [hr.length]
    exact hreach

/-! ### What the next boot loads -/

/-- A boot from `σ` loads `r` or `b`. -/
def Survives (D : L.Defaults) (σ : Store) (r b : List Word) : Prop :=
  (L.boot D .all σ).defaults = false ∧
    ((L.boot D .all σ).store.buf = r ∨ (L.boot D .all σ).store.buf = b)

/-- The attempt from `σ` does not erase the current sector. -/
def Spare (σ : Store) : Prop :=
  σ.rt.currAddr + L.paramSize ≤ (σ.rt.currSec + 1) * paramSectorSize ∨
    maxEraseLife ≤ (getField32 σ.buf L.eraseCntOffset).toNat ∧ L.secEnd ≠ L.secStart

def record (σ : Store) : List Word := stamp L.toConfig (openSlot L.toConfig .all σ).2.buf

/-- No first part of `b` on an erased slot passes the scan, unless it is `b`. -/
def Whole (b : List Word) : Prop := ∀ j, L.recordOk (torn j L.blank b) = true → torn j L.blank b = b

theorem survives_iff (D : L.Defaults) {fill : Nat → Nat} {σ : Store} (hf : L.Packed fill σ.dev.mem)
    (r b : List Word) : L.Survives D σ r b ↔ ∃ p, L.best fill σ.dev.mem = some p ∧
      (L.slot σ.dev.mem p.1 p.2 = r ∨ L.slot σ.dev.mem p.1 p.2 = b) := by
  have hf' : L.Filled fill (L.fresh σ.dev).dev.mem := hf.filled
  cases hbest : L.best fill σ.dev.mem with
  | none =>
    rw [Survives, Layout.boot, L.init_default D .all hf' hbest]
    simp
  | some p =>
    rw [Survives, Layout.boot, L.init_found D .all hf' hbest]
    constructor
    · rintro ⟨-, hload⟩
      exact ⟨p, rfl, hload⟩
    · rintro ⟨q, hq, hload⟩
      cases hq
      exact ⟨rfl, hload⟩

theorem seqOf_torn_blank (b : List Word) (j : Nat) :
    L.seqOf (torn j L.blank b) = erasedWord ∨ L.seqOf (torn j L.blank b) = L.seqOf b := by
  have hi := L.index_lt L.seq_size
  have hblank : L.blank[L.seqOffset / 4]? = some erasedWord := by simp [blank, hi]
  simp only [seqOf, getField32, List.getD_eq_getElem?_getD]
  rcases torn_getElem? j L.blank b (L.seqOffset / 4) with h | ⟨o, v, ho, hv, h⟩
  · left
    rw [h, hblank, Option.getD_some]
  · right
    rw [hblank] at ho
    cases ho
    rw [h, hv, Option.getD_some, Option.getD_some]
    exact BitVec.allOnes_and

theorem Opened.spare_iff {L : Layout} {σ σ₁ : Store} {s k : Nat} (h : L.Opened .all σ s k σ₁)
    (hsec : σ.rt.currSec ∈ sectors L.toConfig) : L.Spare σ ↔ σ₁ = σ ∨ s ≠ σ.rt.currSec := by
  obtain ⟨rfl, haddr⟩ | ⟨rfl, hfull, hdev⟩ := h.start
  · obtain rfl := h.sec
    refine ⟨fun _ => Or.inl rfl, fun _ => Or.inl ?_⟩
    rw [haddr]
    exact (L.slot_fits _ _).mpr h.lt
  · have hne : σ₁ ≠ σ := fun heq => by
      have : σ₁.dev.ops = σ.dev.ops + 1 := by rw [hdev]; rfl
      rw [heq] at this
      omega
    have hfit : ¬σ.rt.currAddr + L.paramSize ≤ (σ.rt.currSec + 1) * paramSectorSize := by
      rw [hfull, L.slot_fits]
      exact Nat.lt_irrefl _
    obtain ⟨hlt, -⟩ | ⟨-, s', cnt, hs', hopen⟩ := L.openSlot_cases hfull (Outcome.erase_all _)
    · exact absurd hlt (Nat.lt_irrefl _)
    have hs : s = s' := by
      have := congrArg (· / paramSectorSize) (h.unique hopen).1
      simpa [paramSectorSize] using this.symm
    rw [← hs] at hs'
    have hsec' := L.mem_sectors.mp hsec
    simp only [Spare, hfit, false_or, hne]
    by_cases hlife : (getField32 σ.buf L.eraseCntOffset).toNat < maxEraseLife
    · rw [if_pos hlife] at hs'
      exact ⟨fun hspare => absurd hspare.1 (by omega), fun h => absurd hs' h⟩
    · rw [if_neg hlife] at hs'
      rw [hs', nextSec]
      split <;> omega

/-! ### An attempt on an erased slot -/

/-- The attempt from `σ`, behind the newest record `r` in slot `k₀`, opens slot `k` of sector `s`. -/
structure Behind (fill : Nat → Nat) (σ : Store) (r : List Word) (k₀ s k : Nat) (σ₁ : Store) : Prop where
  newest : L.Newest fill σ r k₀
  addr : σ.rt.currAddr = L.slotAddr σ.rt.currSec (k₀ + 1)
  opened : L.Opened .all σ s k σ₁
  seq : (L.seqOf r).toNat ≤ (L.seqOf σ.buf).toNat
  wrap : (L.seqOf σ.buf).toNat + 1 < 2 ^ 32 - 1

theorem Behind.record_eq {L : Layout} {fill : Nat → Nat} {σ σ₁ : Store} {r : List Word} {k₀ s k : Nat}
    (h : L.Behind fill σ r k₀ s k σ₁) : L.record σ = stamp L.toConfig σ₁.buf := by
  rw [record, h.opened.open_eq]

/-- The region when the slot is open: the slot is erased, the newest record is there if it was spared, and
    every other valid record is below it. -/
theorem Behind.region {L : Layout} {fill : Nat → Nat} {σ σ₁ : Store} {r : List Word} {k₀ s k : Nat}
    (h : L.Behind fill σ r k₀ s k σ₁) :
    ∃ fill₁, L.Packed fill₁ σ₁.dev.mem ∧ k = fill₁ s ∧
      (L.Spare σ → (σ.rt.currSec, k₀) ∈ L.visited fill₁ ∧ L.slot σ₁.dev.mem σ.rt.currSec k₀ = r) ∧
      (¬L.Spare σ → (σ.rt.currSec, k₀) ∉ L.visited fill₁) ∧
      ∀ q ∈ L.visited fill₁, q ≠ (σ.rt.currSec, k₀) → L.recordOk (L.slot σ₁.dev.mem q.1 q.2) = true →
        (L.seqOf (L.slot σ₁.dev.mem q.1 q.2)).toNat < (L.seqOf r).toNat := by
  have hspare := h.opened.spare_iff h.newest.placed.cursor.sec
  obtain ⟨rfl, haddr⟩ | ⟨rfl, -, hdev⟩ := h.opened.start
  · obtain rfl := h.opened.sec
    refine ⟨fill, h.newest.placed.packed, ?_, fun _ => ⟨h.newest.mem_visited, h.newest.slot⟩,
      fun hno => absurd (hspare.mpr (Or.inl rfl)) hno, h.newest.above⟩
    rw [h.newest.fill_eq]
    exact L.slotAddr_inj (haddr.symm.trans h.addr)
  · have hpacked := h.newest.placed.packed
    refine ⟨Function.update fill s 0, by rw [hdev]; exact hpacked.erase s rfl, by simp, fun hsp => ?_, fun hno => ?_,
      fun q hq hne => ?_⟩
    · have hne : s ≠ σ.rt.currSec := by
        rcases hspare.mp hsp with heq | hne
        · have : σ₁.dev.ops = σ.dev.ops + 1 := by rw [hdev]; rfl
          rw [heq] at this
          omega
        · exact hne
      have hmem : (σ.rt.currSec, k₀) ∈ L.visited (Function.update fill s 0) := by
        rw [L.mem_visited, Function.update_of_ne hne.symm]
        exact L.mem_visited.mp h.newest.mem_visited
      refine ⟨hmem, ?_⟩
      rw [hdev, (hpacked.erase_kept (Outcome.erase_all _) hmem).2.2]
      exact h.newest.slot
    · intro hmem
      obtain ⟨hne, -⟩ := hpacked.erase_kept (Outcome.erase_all _) hmem
      exact hno (hspare.mpr (Or.inr (Ne.symm hne)))
    · obtain ⟨-, hvis, hslot⟩ := hpacked.erase_kept (Outcome.erase_all _) hq
      rw [hdev, hslot]
      exact h.newest.above q hvis hne

/-- The region of `σ'` after the attempt from `σ` left `t` in the erased slot `k` of sector `s`. -/
structure Left (σ σ' : Store) (r : List Word) (k₀ s k : Nat) (t : List Word) (fill' : Nat → Nat) : Prop where
  packed : L.Packed fill' σ'.dev.mem
  slot : L.slot σ'.dev.mem s k = t
  opens : L.recordOk t = true → (s, k) ∈ L.visited fill'
  others : ∀ p ∈ L.visited fill', p ≠ (s, k) → p ≠ (σ.rt.currSec, k₀) →
    L.recordOk (L.slot σ'.dev.mem p.1 p.2) = true → (L.seqOf (L.slot σ'.dev.mem p.1 p.2)).toNat < (L.seqOf r).toNat
  kept : L.Spare σ → (σ.rt.currSec, k₀) ∈ L.visited fill' ∧ L.slot σ'.dev.mem σ.rt.currSec k₀ = r
  lost : ¬L.Spare σ → ∀ p ∈ L.visited fill', p ≠ (s, k) → p ≠ (σ.rt.currSec, k₀)

theorem Behind.magic_record {L : Layout} {fill : Nat → Nat} {σ σ₁ : Store} {r : List Word} {k₀ s k : Nat}
    (h : L.Behind fill σ r k₀ s k σ₁) : L.Magic (L.record σ) := by
  rw [h.record_eq]
  exact L.stamp_magic h.opened.magic

theorem Behind.seq_record {L : Layout} {fill : Nat → Nat} {σ σ₁ : Store} {r : List Word} {k₀ s k : Nat}
    (h : L.Behind fill σ r k₀ s k σ₁) : (L.seqOf r).toNat < (L.seqOf (L.record σ)).toNat := by
  have hwrap := h.wrap
  rw [h.record_eq, L.seqOf_stamp h.opened.magic, h.opened.seq, BitVec.toNat_add, Nat.mod_eq_of_lt]
  · exact Nat.lt_succ_of_le h.seq
  · exact Nat.lt_of_lt_of_le hwrap (by decide)

/-- The slots the scan visits after a first part of the record was programmed. -/
theorem Behind.packed_torn {L : Layout} {fill fill₁ : Nat → Nat} {σ σ₁ σ' : Store} {r : List Word} {k₀ s k j : Nat}
    (h : L.Behind fill σ r k₀ s k σ₁) (hpacked : L.Packed fill₁ σ₁.dev.mem) (hk : k = fill₁ s)
    (hothers : ∀ s' k', k' < L.slotCount → (s', k') ≠ (s, k) → L.slot σ'.dev.mem s' k' = L.slot σ₁.dev.mem s' k')
    (hslot : L.slot σ'.dev.mem s k = torn j L.blank (L.record σ)) :
    ∃ fill', L.Packed fill' σ'.dev.mem ∧
      (L.recordOk (torn j L.blank (L.record σ)) = true → (s, k) ∈ L.visited fill') ∧
      (∀ p ∈ L.visited fill', p ≠ (s, k) → p ∈ L.visited fill₁) ∧ ∀ p ∈ L.visited fill₁, p ∈ L.visited fill' := by
  rcases Nat.eq_zero_or_pos j with rfl | hj
  · refine ⟨fill₁, hpacked.congr fun s' k' hlt => ?_, fun hok => ?_, fun p hp _ => hp, fun p hp => hp⟩
    · rcases eq_or_ne (s', k') (s, k) with heq | hne
      · cases heq
        rw [hslot, torn_zero, hpacked.blank s h.opened.sec_mem k (Nat.le_of_eq hk.symm) h.opened.lt]
      · exact hothers s' k' hlt hne
    · rw [torn_zero, L.recordOk_blank] at hok
      cases hok
  · have hhead : getField32 (L.slot σ'.dev.mem s k) 0 = L.magicHead := by
      rw [hslot]
      exact L.head_torn_blank hj h.magic_record
    refine ⟨_, hpacked.write h.opened.lt (Nat.le_of_eq hk) hothers hhead, fun _ => ?_,
      fun p hp hne => L.mem_visited_of_write (Nat.le_of_eq hk) hp hne, fun p hp => ?_⟩
    · exact L.mem_visited.mpr ⟨h.opened.sec_mem, by simp⟩
    · obtain ⟨hp1, hp2⟩ := L.mem_visited.mp hp
      refine L.mem_visited.mpr ⟨hp1, ?_⟩
      rcases eq_or_ne p.1 s with heq | hne
      · rw [heq] at hp2 ⊢
        rw [Function.update_self]
        omega
      · rwa [Function.update_of_ne hne]

theorem Behind.left {L : Layout} {fill : Nat → Nat} {σ σ₁ σ' : Store} {r : List Word} {k₀ s k j : Nat}
    (h : L.Behind fill σ r k₀ s k σ₁)
    (hothers : ∀ s' k', k' < L.slotCount → (s', k') ≠ (s, k) → L.slot σ'.dev.mem s' k' = L.slot σ₁.dev.mem s' k')
    (hslot : L.slot σ'.dev.mem s k = torn j L.blank (L.record σ)) :
    ∃ fill', L.Left σ σ' r k₀ s k (torn j L.blank (L.record σ)) fill' := by
  obtain ⟨fill₁, hpacked, hk, hkept, hlost, habove⟩ := h.region
  obtain ⟨fill', hpacked', hopen, hsub, hsup⟩ := h.packed_torn hpacked hk hothers hslot
  have hne_open : ∀ p ∈ L.visited fill₁, p ≠ (s, k) := by
    rintro p hp rfl
    have := (L.mem_visited.mp hp).2
    omega
  have hsame : ∀ p ∈ L.visited fill₁, L.slot σ'.dev.mem p.1 p.2 = L.slot σ₁.dev.mem p.1 p.2 := fun p hp =>
    hothers p.1 p.2 (Nat.lt_of_lt_of_le (L.mem_visited.mp hp).2 (hpacked.le _ (L.mem_visited.mp hp).1)) (hne_open p hp)
  refine ⟨fill', hpacked', hslot, hopen, fun p hp hne hnew hok => ?_, fun hspare => ?_, fun hno p hp hne heq => ?_⟩
  · have hp₁ := hsub p hp hne
    rw [hsame p hp₁] at hok ⊢
    exact habove p hp₁ hnew hok
  · obtain ⟨hmem, hr⟩ := hkept hspare
    exact ⟨hsup _ hmem, (hsame _ hmem).trans hr⟩
  · exact hlost hno (heq ▸ hsub p hp hne)

section
variable {L : Layout} {σ σ' : Store} {r t b : List Word} {k₀ s k : Nat} {fill' : Nat → Nat}

/-- What was left passes the scan and is above the newest record: it is loaded. -/
theorem Left.survives_valid (h : L.Left σ σ' r k₀ s k t fill') (D : L.Defaults) (hok : L.recordOk t = true)
    (htop : (L.seqOf r).toNat < (L.seqOf t).toNat) : L.Survives D σ' r b ↔ t = b := by
  have hbest : L.best fill' σ'.dev.mem = some (s, k) := by
    apply L.best_of_gt (h.opens hok)
    · rw [h.slot]
      exact hok
    · intro q hq hne hqok
      rw [h.slot]
      rcases eq_or_ne q (σ.rt.currSec, k₀) with rfl | hnew
      · rw [(h.kept (by_contra fun hno => h.lost hno _ hq hne rfl)).2]
        exact htop
      · exact Nat.lt_trans (h.others q hq hne hnew hqok) htop
  rw [L.survives_iff D h.packed]
  simp only [hbest, Option.some.injEq]
  constructor
  · rintro ⟨p, rfl, hload | hload⟩
    · rw [h.slot] at hload
      rw [hload] at htop
      exact absurd htop (Nat.lt_irrefl _)
    · rwa [h.slot] at hload
  · intro heq
    exact ⟨(s, k), rfl, Or.inr (h.slot.trans heq)⟩

/-- What was left does not pass the scan: the newest record is loaded if it was spared. -/
theorem Left.survives_invalid (h : L.Left σ σ' r k₀ s k t fill') (D : L.Defaults) (hok : L.recordOk t = false)
    (hvalid : L.recordOk r = true) (hnew : (L.seqOf r).toNat < (L.seqOf b).toNat) :
    L.Survives D σ' r b ↔ L.Spare σ := by
  have hopen : ∀ q, L.recordOk (L.slot σ'.dev.mem q.1 q.2) = true → q ≠ (s, k) := by
    rintro q hqok rfl
    rw [h.slot, hok] at hqok
    cases hqok
  rw [L.survives_iff D h.packed]
  constructor
  · rintro ⟨p, hbest, hload⟩
    by_contra hno
    obtain ⟨hp, hpok⟩ := L.best_mem hbest
    have hlt := h.others p hp (hopen p hpok) (h.lost hno p hp (hopen p hpok)) hpok
    rcases hload with hload | hload
    · rw [hload] at hlt
      exact Nat.lt_irrefl _ hlt
    · rw [hload] at hlt
      exact Nat.lt_asymm hlt hnew
  · intro hspare
    obtain ⟨hmem, hr⟩ := h.kept hspare
    refine ⟨(σ.rt.currSec, k₀), L.best_of_gt hmem ?_ fun q hq hne hqok => ?_, Or.inl hr⟩
    · rw [hr]
      exact hvalid
    · rw [hr]
      exact h.others q hq (hopen q hqok) hne hqok

end

/-- The boot after an attempt that left `torn j` of its record in the erased slot. -/
theorem Behind.survives_iff {L : Layout} {fill : Nat → Nat} {σ σ₁ σ' : Store} {r : List Word} {k₀ s k j : Nat}
    (h : L.Behind fill σ r k₀ s k σ₁) (D : L.Defaults)
    (hothers : ∀ s' k', k' < L.slotCount → (s', k') ≠ (s, k) → L.slot σ'.dev.mem s' k' = L.slot σ₁.dev.mem s' k')
    (hslot : L.slot σ'.dev.mem s k = torn j L.blank (L.record σ)) :
    L.Survives D σ' r (L.record σ) ↔
      (L.recordOk (torn j L.blank (L.record σ)) = true → torn j L.blank (L.record σ) = L.record σ) ∧
      (L.recordOk (torn j L.blank (L.record σ)) = false → L.Spare σ) := by
  obtain ⟨fill', hleft⟩ := h.left hothers hslot
  cases hok : L.recordOk (torn j L.blank (L.record σ)) with
  | true =>
    have htop : (L.seqOf r).toNat < (L.seqOf (torn j L.blank (L.record σ))).toNat := by
      rcases L.seqOf_torn_blank (L.record σ) j with heq | heq
      · have hwrap := h.wrap
        have hseq := h.seq
        rw [heq, show erasedWord.toNat = 2 ^ 32 - 1 from rfl]
        omega
      · rw [heq]
        exact h.seq_record
    simpa using hleft.survives_valid D hok htop
  | false => simpa using hleft.survives_invalid D hok h.newest.valid h.seq_record

theorem Newest.survives {L : Layout} {fill : Nat → Nat} {σ σ' : Store} {r : List Word} {k : Nat}
    (h : L.Newest fill σ r k) (D : L.Defaults) (b : List Word)
    (hslots : ∀ s' k', k' < L.slotCount → L.slot σ'.dev.mem s' k' = L.slot σ.dev.mem s' k') : L.Survives D σ' r b := by
  have hpacked := h.placed.packed
  have hsame : ∀ p ∈ L.visited fill, L.slot σ'.dev.mem p.1 p.2 = L.slot σ.dev.mem p.1 p.2 := fun p hp =>
    hslots p.1 p.2 (Nat.lt_of_lt_of_le (L.mem_visited.mp hp).2 (hpacked.le _ (L.mem_visited.mp hp).1))
  have hr := hsame _ h.mem_visited
  rw [h.slot] at hr
  rw [L.survives_iff D (hpacked.congr hslots)]
  refine ⟨(σ.rt.currSec, k), L.best_of_gt h.mem_visited ?_ fun q hq hne hok => ?_, Or.inl hr⟩
  · rw [hr]
    exact h.valid
  · rw [hr, hsame q hq]
    exact h.above q hq hne (hsame q hq ▸ hok)

theorem Behind.blank {L : Layout} {fill : Nat → Nat} {σ σ₁ : Store} {r : List Word} {k₀ s k : Nat}
    (h : L.Behind fill σ r k₀ s k σ₁) : L.slot σ₁.dev.mem s k = L.blank := by
  obtain ⟨fill₁, hpacked, hk, -⟩ := h.region
  exact hpacked.blank s h.opened.sec_mem k (Nat.le_of_eq hk.symm) h.opened.lt

theorem Opened.ops_le {L : Layout} {ok : Outcome} {σ σ₁ : Store} {s k : Nat} (h : L.Opened ok σ s k σ₁) :
    σ.dev.ops ≤ σ₁.dev.ops := by
  obtain ⟨rfl, -⟩ | ⟨-, -, hdev⟩ := h.start
  · exact Nat.le_refl _
  · rw [hdev]
    exact Nat.le_succ _

theorem Behind.slots_cut {L : Layout} {fill : Nat → Nat} {σ σ₁ : Store} {r : List Word} {k₀ s k n : Nat}
    (h : L.Behind fill σ r k₀ s k σ₁) (hn : σ.dev.ops < n) (m : Nat) :
    L.slot (saveLoop L.toConfig (.cut n) (m + 1) σ).2.dev.mem s k = torn (n - σ₁.dev.ops) L.blank (L.record σ) ∧
      ∀ s' k', k' < L.slotCount → (s', k') ≠ (s, k) →
        L.slot (saveLoop L.toConfig (.cut n) (m + 1) σ).2.dev.mem s' k' = L.slot σ₁.dev.mem s' k' := by
  have hlen := (L.stamp_magic h.opened.magic).length
  have hreach : reach L.blank (stamp L.toConfig σ₁.buf) = L.words := by
    rw [Layout.blank, ← hlen]
    exact reach_erased _
  have hend : (saveAttempt L.toConfig (.cut n) σ).1 = true ∨
      n ≤ σ₁.dev.ops + reach (L.slot σ₁.dev.mem s k) (stamp L.toConfig σ₁.buf) := by
    rw [h.blank, hreach]
    rcases Nat.le_total n (σ₁.dev.ops + L.words) with hle | hge
    · exact Or.inr hle
    · refine Or.inl ((h.opened.cut hn).done h.blank fun t _ ht => ?_)
      simp only [Outcome.cut, decide_eq_true_eq]
      omega
  rw [h.opened.saveLoop_cut hn m hend]
  refine ⟨?_, (h.opened.cut hn).tried.others⟩
  rw [h.opened.slot_cut hn, h.blank, hreach, h.record_eq]
  have := torn_min (n - σ₁.dev.ops) L.blank (stamp L.toConfig σ₁.buf)
  rwa [show L.blank.length = L.words from List.length_replicate ..] at this

/-- A save on an erased slot can be cut anywhere exactly if it spares the newest record and no first part
    of its record passes for a record. -/
theorem Behind.cut_iff {L : Layout} {fill : Nat → Nat} {σ σ₁ : Store} {r : List Word} {k₀ s k : Nat}
    (h : L.Behind fill σ r k₀ s k σ₁) (D : L.Defaults) (m : Nat) :
    (∀ n, L.Survives D (saveLoop L.toConfig (.cut n) (m + 1) σ).2 r (L.record σ)) ↔
      L.Spare σ ∧ L.Whole (L.record σ) := by
  have hops := h.opened.ops_le
  have hafter : ∀ n, σ.dev.ops < n → (L.Survives D (saveLoop L.toConfig (.cut n) (m + 1) σ).2 r (L.record σ) ↔ _) :=
    fun n hn => h.survives_iff D (h.slots_cut hn m).2 (h.slots_cut hn m).1
  constructor
  · intro hall
    constructor
    · -- Power is lost right after the erase.
      by_contra hno
      have hne : σ₁ ≠ σ := fun heq => hno ((h.opened.spare_iff h.newest.placed.cursor.sec).mpr (Or.inl heq))
      have hlt : σ.dev.ops < σ₁.dev.ops := by
        obtain ⟨heq, -⟩ | ⟨-, -, hdev⟩ := h.opened.start
        · exact absurd heq hne
        · rw [hdev]
          exact Nat.lt_succ_self _
      apply hno
      apply ((hafter _ hlt).mp (hall _)).2
      rw [Nat.sub_self, torn_zero, L.recordOk_blank]
    · intro j hok
      have hj : 0 < j := by
        rcases Nat.eq_zero_or_pos j with rfl | hj
        · rw [torn_zero, L.recordOk_blank] at hok
          cases hok
        · exact hj
      have hcut := ((hafter (σ₁.dev.ops + j) (by omega)).mp (hall _)).1
      rw [Nat.add_sub_cancel_left] at hcut
      exact hcut hok
  · rintro ⟨hspare, hwhole⟩ n
    rcases Nat.lt_or_ge σ.dev.ops n with hn | hn
    · exact (hafter n hn).mpr ⟨hwhole _, fun _ => hspare⟩
    · have hdead := saveLoop_dead L.toConfig (m + 1) ((Outcome.cut_dead n).mono hn)
      exact h.newest.survives D _ fun s' k' _ => by rw [hdead]

/-! ### An attempt on the newest record -/

/-- The pointer is on the newest record `r`, in slot `k`, as after a boot. -/
structure Over (fill : Nat → Nat) (σ : Store) (r : List Word) (k : Nat) : Prop where
  newest : L.Newest fill σ r k
  addr : σ.rt.currAddr = L.slotAddr σ.rt.currSec k
  seq : L.seqOf σ.buf = L.seqOf r
  wrap : (L.seqOf σ.buf).toNat + 2 < 2 ^ 32 - 1

variable {L} {fill : Nat → Nat} {σ : Store} {r : List Word} {k : Nat}

theorem Over.opened (h : L.Over fill σ r k) : L.Opened .all σ σ.rt.currSec k σ := by
  have hlt : k < L.slotCount := by
    have := h.newest.placed.packed.le _ h.newest.placed.cursor.sec
    rw [h.newest.fill_eq] at this
    exact this
  obtain ⟨-, hopen⟩ | ⟨hge, -⟩ := L.openSlot_cases h.addr (Outcome.erase_all _)
  · exact
      { open_eq := hopen, lt := hlt, sec_mem := h.newest.placed.cursor.sec, sec := rfl,
        magic := h.newest.placed.cursor.magic, seq := rfl, start := Or.inl ⟨rfl, h.addr⟩ }
  · omega

theorem Over.length_eq (h : L.Over fill σ r k) : r.length = (stamp L.toConfig σ.buf).length := by
  rw [(L.stamp_magic h.newest.placed.cursor.magic).length, ← h.newest.slot, L.slot_length]

theorem Over.reach_pos (h : L.Over fill σ r k) : 0 < reach r (stamp L.toConfig σ.buf) := by
  have hlen := h.length_eq
  have hwords := (L.stamp_magic h.newest.placed.cursor.magic).length
  have := L.words_pos
  match r, stamp L.toConfig σ.buf, hlen, hwords with
  | [], b, hlen, hwords => simp only [List.length_nil] at hlen; omega
  | _ :: _, [], hlen, _ => cases hlen
  | o :: r, v :: b, _, _ =>
    rw [reach]
    split <;> omega

theorem Over.slots_cut (h : L.Over fill σ r k) {n : Nat} (hn : σ.dev.ops < n)
    (hle : n ≤ σ.dev.ops + reach r (stamp L.toConfig σ.buf)) (m : Nat) :
    L.slot (saveLoop L.toConfig (.cut n) (m + 1) σ).2.dev.mem σ.rt.currSec k =
        torn (n - σ.dev.ops) r (stamp L.toConfig σ.buf) ∧
      ∀ s' k', k' < L.slotCount → (s', k') ≠ (σ.rt.currSec, k) →
        L.slot (saveLoop L.toConfig (.cut n) (m + 1) σ).2.dev.mem s' k' = L.slot σ.dev.mem s' k' := by
  have hcut := h.opened.slot_cut hn
  rw [h.newest.slot, min_eq_left (by omega)] at hcut
  rw [h.opened.saveLoop_cut hn m (Or.inr (by rw [h.newest.slot]; exact hle))]
  exact ⟨hcut, (h.opened.cut hn).tried.others⟩

/-- A slot that was damaged is loaded by no boot as the newest record or the new one. -/
theorem Over.not_survives (h : L.Over fill σ r k) (D : L.Defaults) {σ' : Store} {b : List Word} {j : Nat}
    (hb : (L.seqOf r).toNat < (L.seqOf b).toNat) (hne : torn j r (stamp L.toConfig σ.buf) ≠ r)
    (hslot : L.slot σ'.dev.mem σ.rt.currSec k = torn j r (stamp L.toConfig σ.buf))
    (hothers : ∀ s' k', k' < L.slotCount → (s', k') ≠ (σ.rt.currSec, k) →
      L.slot σ'.dev.mem s' k' = L.slot σ.dev.mem s' k') : ¬L.Survives D σ' r b := by
  have hpacked := h.newest.placed.packed
  have hsec := h.newest.placed.cursor.sec
  have hk : k < fill σ.rt.currSec := by
    rw [h.newest.fill_eq]
    exact Nat.lt_succ_self k
  have hhead : getField32 (L.slot σ'.dev.mem σ.rt.currSec k) 0 = L.magicHead := by
    rw [hslot]
    apply L.head_torn
    · rw [← h.newest.slot, L.slot_length]
    · exact L.stamp_magic h.newest.placed.cursor.magic
    · rw [← h.newest.slot]
      exact hpacked.head _ hsec k hk
  have hpacked' := hpacked.write h.opened.lt (Nat.le_of_lt hk) hothers hhead
  rw [max_eq_left hk, Function.update_eq_self] at hpacked'
  rw [L.survives_iff D hpacked']
  rintro ⟨p, hbest, hload⟩
  obtain ⟨hp, hok⟩ := L.best_mem hbest
  rcases eq_or_ne p (σ.rt.currSec, k) with rfl | hp'
  · have hle := L.seqOf_torn_le j r (stamp L.toConfig σ.buf)
    rw [hslot] at hload
    rcases hload with hload | hload
    · exact hne hload
    · rw [hload] at hle
      omega
  · have hsame := hothers p.1 p.2 (Nat.lt_of_lt_of_le (L.mem_visited.mp hp).2 (hpacked.le _ (L.mem_visited.mp hp).1)) hp'
    have hlt := h.newest.above p hp hp' (hsame ▸ hok)
    rw [← hsame] at hlt
    rcases hload with hload | hload
    · rw [hload] at hlt
      exact Nat.lt_irrefl _ hlt
    · rw [hload] at hlt
      omega

theorem Over.attempt_fails (h : L.Over fill σ r k) :
    (saveAttempt L.toConfig .all σ).1 = false ∧
      (L.seqOf (saveAttempt L.toConfig .all σ).2.buf).toNat = (L.seqOf σ.buf).toNat + 1 ∧
      L.Placed fill (saveAttempt L.toConfig .all σ).2 := by
  have hbound := h.newest.bound
  rw [← h.seq] at hbound
  have hwrap := h.wrap
  obtain ⟨hfail, hseq, hplaced, -⟩ := L.attempt_over .all h.newest.placed hbound (by omega) h.newest.fill_eq h.addr
    (by rw [h.newest.slot, h.seq]) rfl
  exact ⟨hfail, hseq, hplaced⟩

theorem Over.attempt_later (h : L.Over fill σ r k) {n : Nat}
    (hn : σ.dev.ops + reach r (stamp L.toConfig σ.buf) ≤ n) :
    saveAttempt L.toConfig (.cut n) σ = saveAttempt L.toConfig .all σ ∧
      (saveAttempt L.toConfig .all σ).2.dev.ops = σ.dev.ops + reach r (stamp L.toConfig σ.buf) := by
  have hpos := h.reach_pos
  have hr : readWords σ.dev.mem 4 (L.slotAddr σ.rt.currSec k) (stamp L.toConfig σ.buf).length = r := by
    rw [(L.stamp_magic h.newest.placed.cursor.magic).length]
    exact h.newest.slot
  obtain ⟨hwrite, hops⟩ := writeWords_before_cut (n := n) (show 0 < 4 by decide) σ.dev (L.slotAddr σ.rt.currSec k)
    (stamp L.toConfig σ.buf) (by rw [hr]; exact hn)
  rw [hr] at hops
  have hbuffer : internalWriteBuffer (.cut n) σ.dev (L.slotAddr σ.rt.currSec k) (stamp L.toConfig σ.buf) =
      internalWriteBuffer .all σ.dev (L.slotAddr σ.rt.currSec k) (stamp L.toConfig σ.buf) := hwrite
  refine ⟨?_, by rw [h.opened.dev_eq]; exact hops⟩
  rw [saveAttempt, saveAttempt, h.opened.open_eq, (h.opened.cut (show σ.dev.ops < n by omega)).open_eq]
  dsimp only
  rw [hbuffer]

theorem Over.saveLoop_later (h : L.Over fill σ r k) {n : Nat}
    (hn : σ.dev.ops + reach r (stamp L.toConfig σ.buf) ≤ n) (m : Nat) :
    saveLoop L.toConfig (.cut n) (m + 2) σ = saveLoop L.toConfig (.cut n) (m + 1) (saveAttempt L.toConfig .all σ).2 := by
  obtain ⟨hsame, -⟩ := h.attempt_later hn
  rw [saveLoop_retry _ (by rw [hsame]; exact h.attempt_fails.1), hsame]

variable (L) in
def skipped (σ : Store) : Store :=
  { σ with buf := stamp L.toConfig σ.buf, rt := { σ.rt with currAddr := σ.rt.currAddr + L.paramSize } }

theorem Over.skipped_eq (h : L.Over fill σ r k) :
    (saveAttempt L.toConfig .all σ).2 = { L.skipped σ with dev := (saveAttempt L.toConfig .all σ).2.dev } := by
  have hfail := h.attempt_fails.1
  have haddr := h.addr
  simp only [saveAttempt, h.opened.open_eq] at hfail ⊢
  split at hfail
  · cases hfail
  · rename_i hw
    rw [if_neg hw, skipped, haddr]

variable (L) in
theorem record_dev (σ : Store) (d : Device 32) : L.record { σ with dev := d } = L.record σ := by
  simp only [record, openSlot, internalErase, Nor.erase, Outcome.all, ↓reduceIte]
  repeat' split
  all_goals rfl

/-- When the newest record is not harmed, the next attempt is one on an erased slot. -/
theorem Over.behind (h : L.Over fill σ r k) (hharm : Harmless r (stamp L.toConfig σ.buf)) :
    ∃ s k' σ₁, L.Behind fill (saveAttempt L.toConfig .all σ).2 r k s k' σ₁ := by
  obtain ⟨-, hseq, hplaced⟩ := h.attempt_fails
  have htried := h.opened.tried
  have hpos := h.reach_pos
  have hslot := h.opened.slot_cut (n := σ.dev.ops + reach r (stamp L.toConfig σ.buf)) (by omega)
  rw [(h.attempt_later (Nat.le_refl _)).1, h.newest.slot, Nat.add_sub_cancel_left, Nat.min_self,
    (harmless_iff h.length_eq).mp hharm _ (Nat.le_refl _)] at hslot
  have hnewest : L.Newest fill (saveAttempt L.toConfig .all σ).2 r k :=
    { placed := hplaced
      slot := by rw [htried.currSec]; exact hslot
      fill_eq := by rw [htried.currSec]; exact h.newest.fill_eq
      valid := h.newest.valid
      above := fun q hq hne hok => by
        rw [htried.currSec] at hne
        have hlt := Nat.lt_of_lt_of_le (L.mem_visited.mp hq).2 (hplaced.packed.le _ (L.mem_visited.mp hq).1)
        rw [htried.others q.1 q.2 hlt hne] at hok ⊢
        exact h.newest.above q hq hne hok }
  obtain ⟨s, k', σ₁, hopen⟩ := hplaced.cursor.opened (Outcome.erase_all _)
  have hwrap := h.wrap
  refine ⟨s, k', σ₁, { newest := hnewest, addr := ?_, opened := hopen, seq := ?_, wrap := by omega }⟩
  · rw [htried.currSec]
    exact htried.currAddr
  · rw [hseq, h.seq]
    exact Nat.le_succ _

theorem Over.cut_iff (h : L.Over fill σ r k) (D : L.Defaults) (m : Nat) :
    (∀ n, L.Survives D (saveLoop L.toConfig (.cut n) (m + 2) σ).2 r (L.record (L.skipped σ))) ↔
      Harmless r (stamp L.toConfig σ.buf) ∧ L.Spare (L.skipped σ) ∧ L.Whole (L.record (L.skipped σ)) := by
  have hrecord : L.record (saveAttempt L.toConfig .all σ).2 = L.record (L.skipped σ) := by
    rw [h.skipped_eq, L.record_dev]
  have hspare : L.Spare (saveAttempt L.toConfig .all σ).2 ↔ L.Spare (L.skipped σ) := by
    rw [h.skipped_eq]
    exact Iff.rfl
  have hops := (h.attempt_later (Nat.le_refl _)).2
  have hbehind (hharm : Harmless r (stamp L.toConfig σ.buf)) :
      (∀ n, L.Survives D (saveLoop L.toConfig (.cut n) (m + 1) (saveAttempt L.toConfig .all σ).2).2 r
        (L.record (L.skipped σ))) ↔ L.Spare (L.skipped σ) ∧ L.Whole (L.record (L.skipped σ)) := by
    obtain ⟨s, k', σ₁, hb⟩ := h.behind hharm
    rw [← hspare, ← hrecord]
    exact hb.cut_iff D m
  constructor
  · intro hall
    have hharm : Harmless r (stamp L.toConfig σ.buf) := by
      rw [harmless_iff h.length_eq]
      intro j hj
      by_contra hne
      have hpos : 0 < j := by
        rcases Nat.eq_zero_or_pos j with rfl | hpos
        · exact absurd (torn_zero _ _) hne
        · exact hpos
      obtain ⟨hslot, hothers⟩ := h.slots_cut (n := σ.dev.ops + j) (by omega) (by omega) (m + 1)
      rw [Nat.add_sub_cancel_left] at hslot
      refine h.not_survives D ?_ hne hslot hothers (hall _)
      -- The sequence number of the new record is two above that of the newest.
      obtain ⟨s, k', σ₁, hopen⟩ := h.attempt_fails.2.2.cursor.opened (Outcome.erase_all _)
      have hwrap := h.wrap
      have hseq := h.attempt_fails.2.1
      rw [← hrecord, record, hopen.open_eq, L.seqOf_stamp hopen.magic, hopen.seq, BitVec.toNat_add, hseq, h.seq,
        Nat.mod_eq_of_lt]
      · exact Nat.lt_succ_of_lt (Nat.lt_succ_self _)
      · rw [← h.seq]
        exact Nat.lt_of_lt_of_le hwrap (by decide)
    refine ⟨hharm, (hbehind hharm).mp fun n => ?_⟩
    rcases Nat.le_total (σ.dev.ops + reach r (stamp L.toConfig σ.buf)) n with hn | hn
    · rw [← h.saveLoop_later hn m]
      exact hall n
    · obtain ⟨s, k', σ₁, hb⟩ := h.behind hharm
      have hdead := saveLoop_dead L.toConfig (m + 1) ((Outcome.cut_dead n).mono (hops ▸ hn))
      exact hb.newest.survives D _ fun s' k' _ => by rw [hdead]
  · rintro ⟨hharm, hkeeps⟩ n
    rcases Nat.le_total (σ.dev.ops + reach r (stamp L.toConfig σ.buf)) n with hn | hn
    · rw [h.saveLoop_later hn m]
      exact (hbehind hharm).mpr hkeeps n
    · rcases Nat.lt_or_ge σ.dev.ops n with hlt | hge
      · obtain ⟨hslot, hothers⟩ := h.slots_cut hlt hn (m + 1)
        rw [(harmless_iff h.length_eq).mp hharm _ (by omega)] at hslot
        apply h.newest.survives D _
        intro s' k' hk'
        rcases eq_or_ne (s', k') (σ.rt.currSec, k) with heq | hne
        · cases heq
          rw [hslot, h.newest.slot]
        · exact hothers s' k' hk' hne
      · have hdead := saveLoop_dead L.toConfig (m + 2) ((Outcome.cut_dead n).mono hge)
        exact h.newest.survives D _ fun s' k' _ => by rw [hdead]

/-! ### Any save -/

variable (L) in
/-- The save from `σ` can be cut. If the pointer is on a record, programming over it must leave it as it is
    and the rest is up to the attempt behind it. The attempt on an erased slot must not erase the sector of
    the newest record first, and no first part of its record may pass for a record. -/
def CutSafe (σ : Store) : Prop :=
  if σ.rt.currAddr + L.paramSize ≤ (σ.rt.currSec + 1) * paramSectorSize ∧ σ.dev.mem σ.rt.currAddr = L.magicHead then
    Harmless (readWords σ.dev.mem 4 σ.rt.currAddr L.words) (stamp L.toConfig σ.buf) ∧
      L.Spare (L.skipped σ) ∧ L.Whole (L.record (L.skipped σ))
  else L.Spare σ ∧ L.Whole (L.record σ)

variable (L) in
/-- A tail magic that is not the erased word is the last word to be written. -/
theorem whole_of_tail (htail : L.magicTail ≠ erasedWord) {b : List Word} (hb : L.Magic b) : L.Whole b := by
  intro j hok
  have hlen := hb.length
  rcases Nat.lt_or_ge j L.words with hj | hj
  · simp only [recordOk, L.tail_torn_blank hj hlen, Bool.and_eq_true, beq_iff_eq] at hok
    exact absurd hok.1.2.symm htail
  · have hblank : torn j L.blank b = b.take j ++ List.replicate (b.length - j) erasedWord := by
      rw [blank, ← hlen]
      exact torn_erased j b
    rw [hblank, List.take_of_length_le (by omega), show b.length - j = 0 by omega]
    simp

theorem Ready.cut_iff (h : L.Ready fill σ r) (D : L.Defaults)
    (below : (L.seqOf σ.buf).toNat + (saveTrace L.toConfig .all maxWriteRetry σ).length < 2 ^ 32 - 1) :
    (∀ n, L.Survives D (paramSave L.toConfig (.cut n) σ).2 r (paramSave L.toConfig .all σ).2.buf) ↔ L.CutSafe σ := by
  have hbelow1 : (L.seqOf σ.buf).toNat + 1 < 2 ^ 32 - 1 := by
    rw [maxWriteRetry, saveTrace] at below
    simp only [List.length_cons] at below
    omega
  obtain ⟨k, hnewest, haddr | haddr⟩ := h.last
  · have hbound := hnewest.bound
    rw [← h.seq] at hbound
    obtain ⟨hfail, hseq, hplaced, hbound', hsec, haddr'⟩ := L.attempt_over .all hnewest.placed hbound (by omega)
      hnewest.fill_eq haddr (by rw [hnewest.slot, h.seq]) rfl
    have hbelow2 : (L.seqOf σ.buf).toNat + 2 < 2 ^ 32 - 1 := by
      rw [maxWriteRetry, saveTrace_retry _ hfail, saveTrace] at below
      simp only [List.length_cons] at below
      omega
    have hover : L.Over fill σ r k := ⟨hnewest, haddr, h.seq, hbelow2⟩
    obtain ⟨hdone, -⟩ := L.attempt_behind .all hplaced hbound' (by rw [hseq]; omega)
      (by rw [hsec, hnewest.fill_eq]; exact haddr') rfl fun _ _ _ => rfl
    have hbuf : (paramSave L.toConfig .all σ).2.buf = L.record (L.skipped σ) := by
      obtain ⟨s, k', σ₁, hopen⟩ := hplaced.cursor.opened (Outcome.erase_all _)
      have hrecord : L.record (saveAttempt L.toConfig .all σ).2 = L.record (L.skipped σ) := by
        rw [hover.skipped_eq, L.record_dev]
      rw [paramSave, maxWriteRetry, saveLoop_retry _ hfail, saveLoop_done _ hdone, hopen.tried.buf, ← hrecord,
        record, hopen.open_eq]
    have hon : σ.rt.currAddr + L.paramSize ≤ (σ.rt.currSec + 1) * paramSectorSize ∧
        σ.dev.mem σ.rt.currAddr = L.magicHead := by
      rw [haddr]
      refine ⟨(L.slot_fits _ _).mpr hover.opened.lt, ?_⟩
      rw [← L.head_slot σ.dev.mem σ.rt.currSec k]
      exact hnewest.placed.packed.head _ hnewest.placed.cursor.sec k (by rw [hnewest.fill_eq]; exact Nat.lt_succ_self k)
    have hold : readWords σ.dev.mem 4 σ.rt.currAddr L.words = r := by
      rw [haddr]
      exact hnewest.slot
    rw [CutSafe, if_pos hon, hold, hbuf]
    exact hover.cut_iff D 5
  · have hplaced := hnewest.placed
    obtain ⟨s, k', σ₁, hopen⟩ := hplaced.cursor.opened (Outcome.erase_all _)
    have hbehind : L.Behind fill σ r k s k' σ₁ :=
      { newest := hnewest, addr := haddr, opened := hopen, seq := by rw [h.seq], wrap := hbelow1 }
    have hdone : (saveAttempt L.toConfig .all σ).1 = true := hopen.done hbehind.blank fun _ _ _ => rfl
    have hbuf : (paramSave L.toConfig .all σ).2.buf = L.record σ := by
      rw [paramSave, maxWriteRetry, saveLoop_done _ hdone, hopen.tried.buf, record, hopen.open_eq]
    have hoff : ¬(σ.rt.currAddr + L.paramSize ≤ (σ.rt.currSec + 1) * paramSectorSize ∧
        σ.dev.mem σ.rt.currAddr = L.magicHead) := by
      rw [haddr, L.slot_fits]
      rintro ⟨hlt, hhead⟩
      rw [← L.head_slot σ.dev.mem σ.rt.currSec (k + 1), hplaced.packed.blank _ hplaced.cursor.sec (k + 1)
        (by rw [hnewest.fill_eq]) hlt, L.head_blank] at hhead
      exact L.head_ne hhead.symm
    rw [CutSafe, if_neg hoff, hbuf]
    exact hbehind.cut_iff D 6

/-- Crash safety of a save after any history: wherever power is lost, the next boot loads the newest
    record or the one being written, exactly if the save can be cut. -/
theorem power_loss_iff {D : L.Defaults} {f : Nat → Word} (h : L.History D σ f r) (g : Nat → Word)
    (below : (L.seqOf σ.buf).toNat + (L.attempts .all g σ).length < 2 ^ 32 - 1) :
    (∀ n, L.Survives D (L.save (.cut n) g σ).2 r (L.save .all g σ).2.buf) ↔
      L.CutSafe { σ with buf := L.setPayload g σ.buf } := by
  obtain ⟨⟨fill, hready⟩, -⟩ := h.ready
  apply (hready.setPayload g).cut_iff D
  simp only [L.seqOf_setPayload]
  exact below

end Layout

theorem power_loss_rod :
    rodLayout.Survives rodDefaults
      (rodLayout.save (.cut 9) (fun _ => 5#32) (rodLayout.boot rodDefaults .all erasedStore).store).2
      (rodLayout.boot rodDefaults .all erasedStore).store.buf
      (rodLayout.save .all (fun _ => 5#32) (rodLayout.boot rodDefaults .all erasedStore).store).2.buf := by
  have h : rodLayout.History rodDefaults _ _ _ := .first (σ := erasedStore) fun _ _ => rfl
  refine (Layout.power_loss_iff h (fun _ => 5#32) (by decide +kernel)).mpr ?_ 9
  rw [Layout.CutSafe, if_neg (by decide +kernel)]
  exact ⟨Or.inl (by decide +kernel),
    rodLayout.whole_of_tail (by decide) ⟨by decide +kernel, by decide +kernel, by decide +kernel⟩⟩

def rebootedStore : Store := (rodLayout.boot rodDefaults .all (rodLayout.boot rodDefaults .all erasedStore).store).store

/-- After a reboot the pointer is on the default record, whose sequence number is 1. Power is lost when
    the save has programmed 2 over it: no record is left. -/
theorem power_loss_after_reboot :
    ∃ σ f r, rodLayout.History rodDefaults σ f r ∧
      (rodLayout.boot rodDefaults .all (rodLayout.save (.cut (σ.dev.ops + 2)) (fun _ => 5#32) σ).2).defaults = true ∧
      ¬rodLayout.Survives rodDefaults (rodLayout.save (.cut (σ.dev.ops + 2)) (fun _ => 5#32) σ).2 r
        (rodLayout.save .all (fun _ => 5#32) σ).2.buf := by
  have hlost : (rodLayout.boot rodDefaults .all (rodLayout.save (.cut (rebootedStore.dev.ops + 2)) (fun _ => 5#32)
      rebootedStore).2).defaults = true := by decide +kernel
  refine ⟨rebootedStore, _, _, .boot (.first (σ := erasedStore) fun _ _ => rfl), hlost, fun h => ?_⟩
  rw [h.1] at hlost
  cases hlost

end RodActuator.Param
