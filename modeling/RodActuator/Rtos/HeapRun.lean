import RodActuator.Rtos.HeapShape

/-! Runs of the heap of the kernel. -/

namespace RodActuator.Rtos
open HeapBlock Transition

/-! ### The size of a block -/

theorem alignSize_eq (size : BitVec 32) : alignSize size = ((size + 3#32) >>> 2) <<< 2 := by
  have hmask : ∀ i < 32, (3#32).getLsbD i = decide (i < 2) := by decide
  refine BitVec.eq_of_getLsbD_eq fun i hi => ?_
  rw [alignSize, BitVec.getLsbD_and, BitVec.getLsbD_not, hmask i hi, BitVec.getLsbD_shiftLeft, BitVec.getLsbD_ushiftRight]
  by_cases htwo : i < 2
  · simp [htwo]
  · rw [Nat.add_sub_cancel' (Nat.not_lt.mp htwo)]
    simp [htwo, hi]

theorem toNat_alignSize (size : BitVec 32) : (alignSize size).toNat = (size.toNat + 3) % 2 ^ 32 / 4 * 4 := by
  have hthree : (3#32).toNat = 3 := rfl
  rw [alignSize_eq, BitVec.toNat_shiftLeft, BitVec.toNat_ushiftRight, BitVec.toNat_add, hthree, Nat.shiftRight_eq_div_pow,
    Nat.shiftLeft_eq]
  omega

theorem four_dvd_blockSize (size : BitVec 32) : 4 ∣ blockSize size := by
  rw [blockSize]
  split
  · decide
  · rw [toNat_alignSize]
    exact Nat.dvd_mul_left ..

theorem le_blockSize {size : BitVec 32} (hsize : size.toNat + 3 < 2 ^ 32) : size.toNat ≤ blockSize size := by
  have halign := toNat_alignSize size
  rw [Nat.mod_eq_of_lt hsize] at halign
  rw [blockSize]
  split
  · omega
  · omega

/-- What `rt_smem_realloc` makes of the new size. -/
theorem alignSize_spec {size : BitVec 32} (hsize : size.toNat + 3 < 2 ^ 32) : size.toNat ≤ (alignSize size).toNat ∧
    4 ∣ (alignSize size).toNat ∧ (alignSize size).toNat + 3 < 2 ^ 32 ∧ ((alignSize size).toNat = 0 ↔ size = 0) := by
  have halign := toNat_alignSize size
  have hzero : size.toNat = 0 ↔ size = 0 := BitVec.toNat_eq (y := 0#32).symm
  rw [Nat.mod_eq_of_lt hsize] at halign
  rw [halign, ← hzero]
  omega

theorem blockSize_pos (size : BitVec 32) : 0 < blockSize size := by
  have hmin : 0 < minSizeAligned := by decide
  rw [blockSize]
  split
  · exact hmin
  · omega

namespace SmallMem
variable {pre post : List HeapBlock} {size k : Nat}

theorem usedPlaces_takenBlocks : usedPlaces sizeofStructMem 0 (takenBlocks pre post size k) =
    usedPlaces sizeofStructMem 0 pre ++ (width sizeofStructMem pre, ⟨true, takenLen size k⟩) ::
      usedPlaces sizeofStructMem (width sizeofStructMem pre + sizeofStructMem + k) post := by
  rw [takenBlocks, usedPlaces_append, usedPlaces_used, Nat.zero_add, leftOf, takenLen]
  split
  · rw [List.cons_append, List.nil_append, usedPlaces_free]
    congr 3
    omega
  · rfl

theorem coalesced_takenBlocks (hbs : Coalesced (pre ++ ⟨false, k⟩ :: post)) : Coalesced (takenBlocks pre post size k) := by
  obtain ⟨hpre, hpost⟩ := coalesced_split.mp hbs
  refine coalesced_split.mpr ⟨hpre.concat_used rfl, ?_⟩
  rw [leftOf]
  split
  · exact (hpost.cons_congr rfl).cons_used rfl
  · exact hpost.of_cons.cons_used rfl

theorem dvd_takenBlocks (hbs : ∀ b ∈ pre ++ ⟨false, k⟩ :: post, 4 ∣ b.len) (hsize : 4 ∣ size) :
    ∀ b ∈ takenBlocks pre post size k, 4 ∣ b.len := by
  have hk : 4 ∣ k := hbs ⟨false, k⟩ (by simp)
  intro b hb
  rcases List.mem_append.mp hb with hb | hb
  · exact hbs b (List.mem_append_left _ hb)
  · rcases List.mem_cons.mp hb with rfl | hb
    · rw [takenLen]
      split
      · exact hsize
      · exact hk
    · rcases List.mem_append.mp hb with hb | hb
      · rw [leftOf] at hb
        split at hb
        · rw [List.mem_singleton.mp hb]
          exact Nat.dvd_sub hk (Nat.dvd_add (by decide) hsize)
        · cases hb
      · exact hbs b (List.mem_append_right _ (List.mem_cons_of_mem _ hb))

end SmallMem

namespace UserHeap

/-- Two areas do not meet, and there is room for an item between them. -/
def Apart (x y : Nat × Nat) : Prop := x.1 + x.2 + sizeofStructMem ≤ y.1 ∨ y.1 + y.2 + sizeofStructMem ≤ x.1

/-- Between the two states the heap wrote items, but none whose bytes meet one of the areas. -/
def Spares (m m' : SmallMem) (live : List (Nat × Nat)) : Prop :=
  ∃ ps, SmallMem.Writes ps m m' ∧ ∀ p ∈ ps, ∀ x ∈ live, p + sizeofStructMem ≤ x.1 ∨ x.1 + x.2 ≤ p

theorem Spares.refl (m : SmallMem) (live : List (Nat × Nat)) : Spares m m live := ⟨[], .refl m, List.forall_mem_nil _⟩

theorem Spares.mono {m m' : SmallMem} {live live' : List (Nat × Nat)} (h : Spares m m' live)
    (hsub : ∀ x ∈ live', x ∈ live) : Spares m m' live' := by
  obtain ⟨ps, hps, hapart⟩ := h
  exact ⟨ps, hps, fun p hp x hx => hapart p hp x (hsub x hx)⟩

theorem Spares.trans {m m' m'' : SmallMem} {live : List (Nat × Nat)} (h : Spares m m' live) (h' : Spares m' m'' live) :
    Spares m m'' live := by
  obtain ⟨ps, hps, hapart⟩ := h
  obtain ⟨qs, hqs, hapart'⟩ := h'
  exact ⟨qs ++ ps, hps.trans hqs, fun p hp => (List.mem_append.mp hp).elim (hapart' p) (hapart p)⟩

/-- The used blocks are those of the users. -/
structure Inv (size : Nat) (s : UserHeap) (bs : List HeapBlock) : Prop where
  shape : s.mem.Shape bs
  size_eq : s.mem.memSizeAligned = size
  dvd : ∀ b ∈ bs, 4 ∣ b.len
  coalesced : Coalesced bs
  block : ∀ x ∈ s.live, ∃ p b, (p, b) ∈ usedPlaces sizeofStructMem 0 bs ∧ x.1 = p + sizeofStructMem ∧ x.2 ≤ b.len ∧ 0 < b.len
  owner : ∀ p b, (p, b) ∈ usedPlaces sizeofStructMem 0 bs → ∃ x ∈ s.live, x.1 = p + sizeofStructMem
  nodup : (s.live.map Prod.fst).Nodup

variable {s s' : UserHeap} {bs bs' pre post : List HeapBlock} {size k n : Nat} {m' : SmallMem}

theorem inv_init (memory : Nat → SmallMemItem) (hsize : 4 ∣ size) : Inv size (.init memory size) [⟨false, size⟩] where
  shape := SmallMem.shape_init memory size
  size_eq := rfl
  dvd b hb := by
    rw [List.mem_singleton.mp hb]
    exact hsize
  coalesced := List.isChain_singleton _
  block := List.forall_mem_nil _
  owner _ _ hp := absurd hp List.not_mem_nil
  nodup := .nil

/-- The blocks in front of one and behind it. -/
def around (pre post : List HeapBlock) (k : Nat) : List (Nat × HeapBlock) :=
  usedPlaces sizeofStructMem 0 pre ++ usedPlaces sizeofStructMem (width sizeofStructMem pre + sizeofStructMem + k) post

theorem around_ne {p : Nat} {b : HeapBlock} (hp : (p, b) ∈ around pre post k) : p ≠ width sizeofStructMem pre := by
  have hpos := sizeofStructMem_pos
  rcases List.mem_append.mp hp with hp | hp
  · have := le_of_mem_places (mem_usedPlaces.mp hp).1
    omega
  · have := le_of_mem_places (mem_usedPlaces.mp hp).1
    omega

theorem mem_usedPlaces_split {p : Nat} {b : HeapBlock} {flag : Bool} :
    (p, b) ∈ usedPlaces sizeofStructMem 0 (pre ++ ⟨flag, k⟩ :: post) ↔
      (p = width sizeofStructMem pre ∧ b = ⟨flag, k⟩ ∧ flag = true) ∨ (p, b) ∈ around pre post k := by
  rw [usedPlaces_append, Nat.zero_add, around]
  cases flag with
  | true =>
    rw [usedPlaces_used, List.mem_append, List.mem_cons, List.mem_append, Prod.mk.injEq]
    simp only [and_true]
    exact or_left_comm
  | false =>
    rw [usedPlaces_free]
    simp only [Bool.false_eq_true, and_false, false_or]

/-- A free block that is taken is no area of the users before. -/
theorem Inv.malloc (inv : Inv size s (pre ++ ⟨false, k⟩ :: post)) {request : BitVec 32} {area : Nat}
    (harea : area ≤ blockSize request) (hk : blockSize request ≤ k)
    (hshape : m'.Shape (SmallMem.takenBlocks pre post (blockSize request) k))
    (hsame : m'.memSizeAligned = s.mem.memSizeAligned) :
    Inv size ⟨m', (width sizeofStructMem pre + sizeofStructMem, area) :: s.live⟩
      (SmallMem.takenBlocks pre post (blockSize request) k) := by
  have hlen := SmallMem.le_takenLen hk
  have hnew : ∀ p b, (p, b) ∈ usedPlaces sizeofStructMem 0 (SmallMem.takenBlocks pre post (blockSize request) k) ↔
      (p = width sizeofStructMem pre ∧ b = ⟨true, SmallMem.takenLen (blockSize request) k⟩) ∨ (p, b) ∈ around pre post k := by
    intro p b
    rw [SmallMem.usedPlaces_takenBlocks, List.mem_append, List.mem_cons, around, List.mem_append, Prod.mk.injEq]
    exact or_left_comm
  have hold : ∀ p b, (p, b) ∈ usedPlaces sizeofStructMem 0 (pre ++ ⟨false, k⟩ :: post) ↔ (p, b) ∈ around pre post k :=
    fun p b => mem_usedPlaces_split.trans (or_iff_right fun h => Bool.false_ne_true h.2.2)
  refine ⟨hshape, hsame.trans inv.size_eq, SmallMem.dvd_takenBlocks inv.dvd (four_dvd_blockSize request),
    SmallMem.coalesced_takenBlocks inv.coalesced, ?_, ?_, List.nodup_cons.mpr ⟨?_, inv.nodup⟩⟩
  · intro x hx
    rcases List.mem_cons.mp hx with rfl | hx
    · exact ⟨_, _, (hnew _ _).mpr (.inl ⟨rfl, rfl⟩), rfl, harea.trans hlen, (blockSize_pos request).trans_le hlen⟩
    · obtain ⟨p, b, hp, hrest⟩ := inv.block x hx
      exact ⟨p, b, (hnew p b).mpr (.inr ((hold p b).mp hp)), hrest⟩
  · intro p b hp
    rcases (hnew p b).mp hp with ⟨rfl, -⟩ | hp
    · exact ⟨_, List.mem_cons_self, rfl⟩
    · obtain ⟨x, hx, heq⟩ := inv.owner p b ((hold p b).mpr hp)
      exact ⟨x, List.mem_cons_of_mem _ hx, heq⟩
  · intro hmem
    obtain ⟨x, hx, hx1⟩ := List.mem_map.mp hmem
    obtain ⟨p, b, hp, heq, -⟩ := inv.block x hx
    exact around_ne ((hold p b).mp hp) (Nat.add_right_cancel (heq.symm.trans hx1))

/-- The areas other than one lie in the blocks around it. -/
theorem Inv.others (inv : Inv size s (pre ++ ⟨true, k⟩ :: post)) :
    (∀ x ∈ s.live.filter fun x => x.1 ≠ width sizeofStructMem pre + sizeofStructMem, ∃ p b, (p, b) ∈ around pre post k ∧
      x.1 = p + sizeofStructMem ∧ x.2 ≤ b.len ∧ 0 < b.len) ∧
      ∀ p b, (p, b) ∈ around pre post k →
        ∃ x ∈ s.live.filter fun x => x.1 ≠ width sizeofStructMem pre + sizeofStructMem, x.1 = p + sizeofStructMem := by
  constructor
  · intro x hx
    obtain ⟨hx, hne⟩ := List.mem_filter.mp hx
    obtain ⟨p, b, hp, heq, hrest⟩ := inv.block x hx
    rcases mem_usedPlaces_split.mp hp with ⟨rfl, -⟩ | hp
    · exact absurd heq (of_decide_eq_true hne)
    · exact ⟨p, b, hp, heq, hrest⟩
  · intro p b hp
    obtain ⟨x, hx, heq⟩ := inv.owner p b (mem_usedPlaces_split.mpr (.inr hp))
    refine ⟨x, List.mem_filter.mpr ⟨hx, decide_eq_true ?_⟩, heq⟩
    rw [heq]
    exact fun h => around_ne hp (Nat.add_right_cancel h)

theorem Inv.nodup_filter (inv : Inv size s bs) (f : Nat × Nat → Bool) : ((s.live.filter f).map Prod.fst).Nodup :=
  inv.nodup.sublist (List.filter_sublist.map Prod.fst)

/-- The area of a used block changes its size. -/
theorem Inv.renew (inv : Inv size s (pre ++ ⟨true, k⟩ :: post)) {area : Nat} (hshape : m'.Shape bs')
    (hsame : m'.memSizeAligned = s.mem.memSizeAligned) (hdvd : ∀ b ∈ bs', 4 ∣ b.len) (hcoalesced : Coalesced bs')
    (hplaces : ∀ p b, (p, b) ∈ usedPlaces sizeofStructMem 0 bs' ↔
      (p = width sizeofStructMem pre ∧ b = ⟨true, n⟩) ∨ (p, b) ∈ around pre post k) (hn : 0 < n) (harea : area ≤ n) :
    Inv size ⟨m', (width sizeofStructMem pre + sizeofStructMem, area) ::
      s.live.filter fun x => x.1 ≠ width sizeofStructMem pre + sizeofStructMem⟩ bs' := by
  obtain ⟨hblock, howner⟩ := inv.others
  refine ⟨hshape, hsame.trans inv.size_eq, hdvd, hcoalesced, ?_, ?_, List.nodup_cons.mpr ⟨?_, inv.nodup_filter _⟩⟩
  · intro x hx
    rcases List.mem_cons.mp hx with rfl | hx
    · exact ⟨_, _, (hplaces _ _).mpr (.inl ⟨rfl, rfl⟩), rfl, harea, hn⟩
    · obtain ⟨p, b, hp, hrest⟩ := hblock x hx
      exact ⟨p, b, (hplaces p b).mpr (.inr hp), hrest⟩
  · intro p b hp
    rcases (hplaces p b).mp hp with ⟨rfl, -⟩ | hp
    · exact ⟨_, List.mem_cons_self, rfl⟩
    · obtain ⟨x, hx, heq⟩ := howner p b hp
      exact ⟨x, List.mem_cons_of_mem _ hx, heq⟩
  · intro hmem
    obtain ⟨x, hx, hx1⟩ := List.mem_map.mp hmem
    exact of_decide_eq_true (List.mem_filter.mp hx).2 hx1

theorem Inv.free (inv : Inv size s (pre ++ ⟨true, n⟩ :: post)) (hshape : m'.Shape bs')
    (merge : Merge sizeofStructMem (pre ++ ⟨false, n⟩ :: post) bs') (hcoalesced : Coalesced bs')
    (hsame : m'.memSizeAligned = s.mem.memSizeAligned) :
    Inv size ⟨m', s.live.filter fun x => x.1 ≠ width sizeofStructMem pre + sizeofStructMem⟩ bs' := by
  obtain ⟨hblock, howner⟩ := inv.others
  have hplaces : ∀ p b, (p, b) ∈ usedPlaces sizeofStructMem 0 bs' ↔ (p, b) ∈ around pre post n := fun p b => by
    rw [merge.usedPlaces]
    exact mem_usedPlaces_split.trans (or_iff_right fun h => Bool.false_ne_true h.2.2)
  have hdvd : ∀ b ∈ pre ++ ⟨false, n⟩ :: post, 4 ∣ b.len := by
    intro b hb
    rcases List.mem_append.mp hb with hb | hb
    · exact inv.dvd b (List.mem_append_left _ hb)
    · rcases List.mem_cons.mp hb with rfl | hb
      · exact inv.dvd ⟨true, n⟩ (by simp)
      · exact inv.dvd b (List.mem_append_right _ (List.mem_cons_of_mem _ hb))
  refine ⟨hshape, hsame.trans inv.size_eq, merge.dvd (by decide) hdvd, hcoalesced, ?_, ?_, inv.nodup_filter _⟩
  · intro x hx
    obtain ⟨p, b, hp, hrest⟩ := hblock x hx
    exact ⟨p, b, (hplaces p b).mpr hp, hrest⟩
  · intro p b hp
    exact howner p b ((hplaces p b).mp hp)

/-- The areas of the users lie apart, since their blocks do. -/
theorem Inv.apart (inv : Inv size s bs) : s.live.Pairwise Apart := by
  refine (List.pairwise_map.mp inv.nodup).imp_of_mem fun {x y} hx hy hne => ?_
  obtain ⟨p, b, hp, hpx, hbx, -⟩ := inv.block x hx
  obtain ⟨q, b', hq, hqy, hby, -⟩ := inv.block y hy
  have hpq := boundary_apart (fst_mem_boundaries (mem_usedPlaces.mp hp).1) (mem_usedPlaces.mp hq).1
  have hqp := boundary_apart (fst_mem_boundaries (mem_usedPlaces.mp hq).1) (mem_usedPlaces.mp hp).1
  rw [Apart]
  omega

/-- Items at boundaries are outside of what the users have. -/
theorem Inv.spares (inv : Inv size s bs) (merge : Merge sizeofStructMem bs' bs) {m : SmallMem}
    (hwrote : SmallMem.Wrote (boundaries sizeofStructMem 0 bs') m m') : Spares m m' s.live := by
  obtain ⟨ps, hps, hmem⟩ := hwrote
  refine ⟨ps, hps, fun p hp x hx => ?_⟩
  obtain ⟨q, b, hq, heq, hlen, -⟩ := inv.block x hx
  rw [merge.usedPlaces] at hq
  rcases boundary_apart (hmem p hp) (mem_usedPlaces.mp hq).1 with hle | hle
  · exact .inl (by omega)
  · exact .inr (by omega)

/-- The block of an area. -/
theorem Inv.find (inv : Inv size s bs) {rmem : Nat} (hmem : rmem ∈ s.live.map Prod.fst) :
    ∃ pre n post, bs = pre ++ ⟨true, n⟩ :: post ∧ rmem = width sizeofStructMem pre + sizeofStructMem ∧ 0 < n ∧
      4 ∣ width sizeofStructMem pre := by
  obtain ⟨x, hx, rfl⟩ := List.mem_map.mp hmem
  obtain ⟨p, ⟨used, n⟩, hp, heq, -, hn⟩ := inv.block x hx
  obtain ⟨hplace, hused⟩ := mem_usedPlaces.mp hp
  obtain ⟨pre, post, rfl, rfl⟩ := split_of_mem_places hplace
  dsimp only at hused
  subst hused
  rw [Nat.zero_add] at heq
  exact ⟨pre, n, post, rfl, heq, hn, dvd_width (by decide) fun b hb => inv.dvd b (List.mem_append_left _ hb)⟩

theorem Inv.release (inv : Inv size s bs) {rmem : Nat} (hmem : rmem ∈ s.live.map Prod.fst) :
    ∃ m' bs', s.mem.free rmem = some m' ∧ Inv size ⟨m', s.live.filter fun x => x.1 ≠ rmem⟩ bs' ∧
      Spares s.mem m' s.live := by
  obtain ⟨pre, n, post, rfl, rfl, hn, hdvd⟩ := inv.find hmem
  obtain ⟨m', bs', hfree, hshape, hmerge, hcoalesced, hsame, hwrote⟩ := inv.shape.free hn hdvd inv.coalesced
  exact ⟨m', bs', hfree, inv.free hshape hmerge hcoalesced hsame, inv.spares .refl hwrote⟩

theorem Inv.alloc (inv : Inv size s bs) {request : BitVec 32} (hzero : request ≠ 0) {area : Nat}
    (harea : area ≤ blockSize request) :
    (∃ p m' bs', s.mem.alloc request = some (some p, m') ∧ Inv size ⟨m', (p, area) :: s.live⟩ bs' ∧
      Spares s.mem m' ((p, area) :: s.live)) ∨ s.mem.alloc request = some (none, s.mem) := by
  rcases inv.shape.alloc inv.dvd hzero with ⟨pre, k, post, m', rfl, hk, halloc, hshape, hsame, hwrote⟩ | ⟨halloc, -⟩
  · have inv' := inv.malloc harea hk hshape hsame
    exact .inl ⟨_, m', _, halloc, inv', inv'.spares .refl hwrote⟩
  · exact .inr halloc

/-- The new area is there before the old one is given back. -/
theorem Inv.move (inv : Inv size s bs) {rmem : Nat} (hmem : rmem ∈ s.live.map Prod.fst) {request : BitVec 32}
    (hzero : request ≠ 0) {area : Nat} (harea : area ≤ blockSize request) :
    (∃ p m' m'' bs', s.mem.alloc request = some (some p, m') ∧ m'.free rmem = some m'' ∧
      Inv size ⟨m'', (p, area) :: s.live.filter fun x => x.1 ≠ rmem⟩ bs' ∧
      Spares s.mem m'' ((p, area) :: s.live.filter fun x => x.1 ≠ rmem)) ∨ s.mem.alloc request = some (none, s.mem) := by
  rcases inv.alloc hzero harea with ⟨p, m', bs', halloc, inv', hspares⟩ | halloc
  · obtain ⟨m'', bs'', hfree, inv'', hspares'⟩ := inv'.release (List.mem_cons_of_mem _ hmem)
    have hne : p ≠ rmem := fun heq => (List.nodup_cons.mp inv'.nodup).1 (heq ▸ hmem)
    have hfilter : ((p, area) :: s.live).filter (fun x => x.1 ≠ rmem) = (p, area) :: s.live.filter fun x => x.1 ≠ rmem :=
      List.filter_cons_of_pos (decide_eq_true hne)
    dsimp only at inv''
    rw [hfilter] at inv''
    refine .inl ⟨p, m', m'', bs'', halloc, hfree, inv'', (hspares.trans hspares').mono fun x hx => ?_⟩
    rcases List.mem_cons.mp hx with rfl | hx
    · exact List.mem_cons_self
    · exact List.mem_cons_of_mem _ (List.mem_filter.mp hx).1
  · exact .inr halloc

/-- An area that is made smaller stays where it is. -/
theorem Inv.cut (inv : Inv size s (pre ++ ⟨true, k⟩ :: post)) {area : Nat} (hn : 0 < n) (hdvd : 4 ∣ n) (harea : area ≤ n)
    (hroom : n + sizeofStructMem + minSizeAligned < k) :
    ∃ m' bs', s.mem.shrink n (width sizeofStructMem pre) = some m' ∧
      Inv size ⟨m', (width sizeofStructMem pre + sizeofStructMem, area) ::
        s.live.filter fun x => x.1 ≠ width sizeofStructMem pre + sizeofStructMem⟩ bs' ∧
      Spares s.mem m' ((width sizeofStructMem pre + sizeofStructMem, area) ::
        s.live.filter fun x => x.1 ≠ width sizeofStructMem pre + sizeofStructMem) := by
  obtain ⟨m', bs', hshrink, hshape, hmerge, hcoalesced, hsame, hwrote⟩ := inv.shape.shrink hroom inv.coalesced
  have hk : 4 ∣ k := inv.dvd ⟨true, k⟩ (by simp)
  have hblocks : ∀ b ∈ pre ++ ⟨true, n⟩ :: ⟨false, k - (sizeofStructMem + n)⟩ :: post, 4 ∣ b.len := by
    intro b hb
    rcases List.mem_append.mp hb with hb | hb
    · exact inv.dvd b (List.mem_append_left _ hb)
    · rcases List.mem_cons.mp hb with rfl | hb
      · exact hdvd
      · rcases List.mem_cons.mp hb with rfl | hb
        · exact Nat.dvd_sub hk (Nat.dvd_add (by decide) hdvd)
        · exact inv.dvd b (List.mem_append_right _ (List.mem_cons_of_mem _ hb))
  have hrest : width sizeofStructMem pre + sizeofStructMem + n + sizeofStructMem + (k - (sizeofStructMem + n)) =
      width sizeofStructMem pre + sizeofStructMem + k := by omega
  have hplaces : ∀ p b, (p, b) ∈ usedPlaces sizeofStructMem 0 bs' ↔
      (p = width sizeofStructMem pre ∧ b = ⟨true, n⟩) ∨ (p, b) ∈ around pre post k := fun p b => by
    rw [hmerge.usedPlaces, mem_usedPlaces_split, around, usedPlaces_free, hrest, around]
    simp only [and_true]
  have inv' := inv.renew hshape hsame (hmerge.dvd (by decide) hblocks) hcoalesced hplaces hn harea
  exact ⟨m', bs', hshrink, inv', inv'.spares hmerge hwrote⟩

/-- An area that gets another size stays, or is given back for a new one. -/
theorem Inv.realloc (inv : Inv size s bs) {rmem : Nat} {newsize : BitVec 32} (hmem : rmem ∈ s.live.map Prod.fst)
    (hproper : newsize.toNat + 3 < 2 ^ 32) :
    ∃ r m' bs', s.mem.realloc rmem newsize = some (r, m') ∧ Inv size ⟨m', resized rmem newsize s.live r⟩ bs' ∧
      Spares s.mem m' (resized rmem newsize s.live r) := by
  obtain ⟨hle, hdvd, hsmall, hzero⟩ := alignSize_spec hproper
  rw [SmallMem.realloc]
  by_cases hbig : s.mem.memSizeAligned < (alignSize newsize).toNat
  · refine ⟨none, s.mem, bs, if_pos hbig, ?_, .refl ..⟩
    rw [resized, if_neg fun h => by rw [hzero.mpr h] at hbig; omega]
    exact inv
  · rw [if_neg hbig]
    by_cases hnone : (alignSize newsize).toNat = 0
    · obtain ⟨m', bs', hfree, inv', hspares⟩ := inv.release hmem
      refine ⟨none, m', bs', ?_, ?_⟩
      · rw [if_pos hnone, hfree]
        rfl
      · rw [resized, if_pos (hzero.mp hnone)]
        exact ⟨inv', hspares.mono fun x hx => (List.mem_filter.mp hx).1⟩
    · obtain ⟨pre, n, post, rfl, rfl, hn, hplace⟩ := inv.find hmem
      obtain ⟨q, last, -, hitem, hseg⟩ := inv.shape.cut
      have hend : s.mem.heapEnd = _ := hseg.end_eq
      have hsizeof : sizeofStructMem = 12 := rfl
      dsimp only at hitem hend
      have hdiff : width sizeofStructMem pre + sizeofStructMem - sizeofStructMem = width sizeofStructMem pre :=
        Nat.add_sub_cancel ..
      have hlen : (s.mem.item (width sizeofStructMem pre)).next - width sizeofStructMem pre - sizeofStructMem = n := by
        rw [hitem]
        dsimp only
        omega
      rw [if_neg hnone, if_pos (by omega), hdiff, hlen]
      by_cases hsame : n = (alignSize newsize).toNat
      · rw [if_pos hsame]
        have hplaces : ∀ p b, (p, b) ∈ usedPlaces sizeofStructMem 0 (pre ++ ⟨true, n⟩ :: post) ↔
            (p = width sizeofStructMem pre ∧ b = ⟨true, n⟩) ∨ (p, b) ∈ around pre post n := fun p b => by
          rw [mem_usedPlaces_split]
          simp only [and_true]
        exact ⟨some (width sizeofStructMem pre + sizeofStructMem), s.mem, _, rfl,
          inv.renew inv.shape rfl inv.dvd inv.coalesced hplaces hn (hle.trans hsame.ge), .refl ..⟩
      · rw [if_neg hsame]
        by_cases hroom : (alignSize newsize).toNat + sizeofStructMem + minSizeAligned < n
        · obtain ⟨m', bs', hshrink, inv', hspares⟩ := inv.cut (Nat.pos_of_ne_zero hnone) hdvd hle hroom
          refine ⟨some (width sizeofStructMem pre + sizeofStructMem), m', bs', ?_, inv', hspares⟩
          rw [if_pos hroom, hshrink]
          rfl
        · rw [if_neg hroom]
          have hrequest : alignSize newsize ≠ 0 := fun h => hnone (by rw [h]; rfl)
          rcases inv.move hmem hrequest (hle.trans (le_blockSize hsmall)) with
            ⟨p, m', m'', bs', halloc, hfree, inv', hspares⟩ | halloc
          · refine ⟨some p, m'', bs', ?_, inv', hspares⟩
            rw [halloc]
            change Option.map _ (m'.free _) = _
            rw [hfree]
            rfl
          · refine ⟨none, s.mem, pre ++ ⟨true, n⟩ :: post, by rw [halloc]; rfl, ?_, .refl ..⟩
            rw [resized, if_neg fun h => hnone (hzero.mpr h)]
            exact inv

/-- No call of the users fails, none writes into what they have, and the invariant is kept. -/
theorem Inv.call (inv : Inv size s bs) {c : HeapCall} (hproper : s.Proper (.call c)) :
    ∃ s' bs', s.call c = some s' ∧ Inv size s' bs' ∧ Spares s.mem s'.mem s'.live := by
  cases c with
  | malloc request =>
    by_cases hzero : request = 0
    · refine ⟨s, bs, ?_, inv, .refl ..⟩
      rw [UserHeap.call, SmallMem.alloc, if_pos hzero]
      rfl
    · rcases inv.alloc hzero (le_blockSize hproper) with ⟨p, m', bs', halloc, inv', hspares⟩ | halloc
      · refine ⟨_, bs', ?_, inv', hspares⟩
        rw [UserHeap.call, halloc]
        rfl
      · refine ⟨s, bs, ?_, inv, .refl ..⟩
        rw [UserHeap.call, halloc]
        rfl
  | free rmem =>
    obtain ⟨m', bs', hfree, inv', hspares⟩ := inv.release hproper
    refine ⟨_, bs', ?_, inv', hspares.mono fun x hx => (List.mem_filter.mp hx).1⟩
    rw [UserHeap.call, hfree]
    rfl
  | realloc rmem newsize =>
    obtain ⟨r, m', bs', hrealloc, inv', hspares⟩ := inv.realloc hproper.1 hproper.2
    refine ⟨_, bs', ?_, inv', hspares⟩
    rw [UserHeap.call, hrealloc]
    rfl

/-- No block starts where the users write. -/
theorem Inv.store (inv : Inv size s bs) {p : Nat} {it : SmallMemItem} (hproper : s.Proper (.store p it)) :
    Inv size (s.store p it) bs := by
  obtain ⟨x, hx, hlow, hhigh⟩ := hproper
  obtain ⟨q, b, hq, heq, hlen, -⟩ := inv.block x hx
  have hplace := (mem_usedPlaces.mp hq).1
  have hdvd : 4 ∣ b.len := by
    obtain ⟨pre, post, rfl, -⟩ := split_of_mem_places hplace
    exact inv.dvd b (by simp)
  have hsame : ∀ o ∈ boundaries sizeofStructMem 0 bs, (s.store p it).mem.item o = s.mem.item o := by
    intro o ho
    refine Function.update_of_ne ?_ ..
    rintro rfl
    rcases boundary_apart ho hplace with hle | hle
    · omega
    · omega
  have hend : s.mem.heapEnd ∈ boundaries sizeofStructMem 0 bs := by
    have hmem : 0 + width sizeofStructMem bs ∈ boundaries sizeofStructMem 0 (bs ++ []) := width_mem_boundaries
    rwa [List.append_nil, Nat.zero_add, ← inv.shape.heapEnd_eq] at hmem
  obtain ⟨last, hseg⟩ := inv.shape.seg
  have hshape : (s.store p it).mem.Shape bs := by
    refine ⟨⟨⟨last, hseg.of_boundaries hsame⟩, ?_⟩, inv.shape.lfree, inv.shape.used⟩
    exact (congrArg SmallMemItem.poolPtr (hsame _ hend)).trans inv.shape.heapEnd_used
  exact ⟨hshape, inv.size_eq, inv.dvd, inv.coalesced, inv.block, inv.owner, inv.nodup⟩

theorem Inv.step (inv : Inv size s bs) {a : HeapAct} (hproper : s.Proper a) :
    ∃ s' bs', s.step a = some s' ∧ Inv size s' bs' := by
  cases a with
  | call c =>
    obtain ⟨s', bs', hcall, inv', -⟩ := inv.call hproper
    exact ⟨s', bs', hcall, inv'⟩
  | store p it => exact ⟨_, bs, rfl, inv.store hproper⟩

theorem inv_of_run {memory : Nat → SmallMemItem} (hsize : 4 ∣ size) {acts : List HeapAct}
    (run : Run UserHeap.step Proper (.init memory size) acts s) : ∃ bs, Inv size s bs := by
  induction run with
  | nil => exact ⟨_, inv_init memory hsize⟩
  | snoc _ hproper hstep ih =>
    obtain ⟨bs, inv⟩ := ih
    obtain ⟨s', bs', hstep', inv'⟩ := inv.step hproper
    cases hstep.symm.trans hstep'
    exact ⟨bs', inv'⟩

/-- A call that gets nothing finds no room: every range of the size of the block meets one of the users. -/
theorem Inv.full (inv : Inv size s bs) {request : BitVec 32} (hzero : request ≠ 0)
    (halloc : s.mem.alloc request = some (none, m')) {o : Nat} (ho : o + sizeofStructMem + blockSize request ≤ size + sizeofStructMem) :
    ∃ x ∈ s.live, o < (s.mem.item (x.1 - sizeofStructMem)).next ∧
      x.1 - sizeofStructMem < o + sizeofStructMem + blockSize request := by
  have hwidth := inv.shape.heapEnd_eq
  rw [SmallMem.heapEnd, inv.size_eq] at hwidth
  rcases inv.shape.alloc inv.dvd hzero with ⟨pre, k, post, m', -, -, hsome, -⟩ | ⟨-, hall⟩
  · cases halloc.symm.trans hsome
  · by_contra hnone
    have hgap : ∀ p b, (p, b) ∈ places sizeofStructMem 0 bs → b.used = true →
        p + sizeofStructMem + b.len ≤ o ∨ o + sizeofStructMem + blockSize request ≤ p := by
      intro p b hp hb
      obtain ⟨x, hx, heq⟩ := inv.owner p b (mem_usedPlaces.mpr ⟨hp, hb⟩)
      obtain ⟨pre, post, rfl, rfl⟩ := split_of_mem_places hp
      obtain ⟨r, last, -, hitem, -⟩ := inv.shape.cut
      by_contra hmeets
      refine hnone ⟨x, hx, ?_, ?_⟩
      · rw [heq, Nat.add_sub_cancel, Nat.zero_add, hitem]
        dsimp only
        omega
      · omega
    obtain ⟨b, hb, hfree, hlen⟩ := inv.coalesced.fits (Nat.zero_le o) (by omega) hgap sizeofStructMem_pos
    rcases hall b hb with hused | hlt
    · rw [hfree] at hused
      cases hused
    · omega

/-- A heap that is not used is one free block. -/
theorem Inv.unused (inv : Inv size s bs) (hlive : s.live = []) :
    s.mem.item 0 = ⟨some false, size + sizeofStructMem, 0⟩ ∧ s.mem.lfree = 0 ∧ s.mem.used = 0 := by
  have hwidth := inv.shape.heapEnd_eq
  have hpos := sizeofStructMem_pos
  rw [SmallMem.heapEnd, inv.size_eq] at hwidth
  have hfree : ∀ b ∈ bs, b.used = false := by
    intro b hb
    obtain ⟨pre, post, rfl⟩ := List.append_of_mem hb
    rw [← Bool.not_eq_true]
    intro hused
    have hplace : (width sizeofStructMem pre, b) ∈ places sizeofStructMem 0 (pre ++ b :: post) := by simp
    obtain ⟨x, hx, -⟩ := inv.owner _ b (mem_usedPlaces.mpr ⟨hplace, hused⟩)
    rw [hlive] at hx
    cases hx
  have hlen := inv.coalesced.length_le_one hfree
  rcases bs with _ | ⟨⟨used, n⟩, _ | ⟨y, bs⟩⟩
  · rw [width_nil] at hwidth
    omega
  · obtain ⟨last, hitem, hseg⟩ := inv.shape.seg
    have hused : used = false := hfree _ List.mem_cons_self
    subst hused
    rw [width_cons, width_nil] at hwidth
    dsimp only at hwidth hitem
    refine ⟨?_, inv.shape.lfree, inv.shape.used⟩
    rw [hitem]
    congr 1
    omega
  · rw [List.length_cons, List.length_cons] at hlen
    omega

/-- In every run of calls whose users give back what they got, and write what they like into their areas in between: the
    areas of the users lie apart, with room for the items, and aligned in the heap; no assertion fails and the heap writes no
    item into an area that is kept; a call gets nothing only if there is no room for its block anywhere; and when all is free
    the heap is as it was. -/
theorem heap_sound {memory : Nat → SmallMemItem} (hsize : 4 ∣ size) {acts : List HeapAct}
    (run : Run UserHeap.step Proper (.init memory size) acts s) :
    s.live.Pairwise Apart ∧
      (∀ x ∈ s.live, 4 ∣ x.1 ∧ sizeofStructMem ≤ x.1 ∧ x.1 + x.2 ≤ size + sizeofStructMem) ∧
      (∀ c, s.Proper (.call c) → ∃ s', s.step (.call c) = some s' ∧ Spares s.mem s'.mem s'.live) ∧
      (∀ request m', request ≠ 0 → s.mem.alloc request = some (none, m') →
        ∀ o, o + sizeofStructMem + blockSize request ≤ size + sizeofStructMem →
          ∃ x ∈ s.live, o < (s.mem.item (x.1 - sizeofStructMem)).next ∧
            x.1 - sizeofStructMem < o + sizeofStructMem + blockSize request) ∧
      (s.live = [] → s.mem.item 0 = ⟨some false, size + sizeofStructMem, 0⟩ ∧ s.mem.lfree = 0 ∧ s.mem.used = 0) := by
  obtain ⟨bs, inv⟩ := inv_of_run hsize run
  refine ⟨inv.apart, fun x hx => ?_, fun c hproper => ?_, fun request m' hzero halloc o ho => inv.full hzero halloc ho,
    inv.unused⟩
  · obtain ⟨p, b, hp, heq, hlen, -⟩ := inv.block x hx
    have hplace := (mem_usedPlaces.mp hp).1
    have hle := le_of_mem_places hplace
    have hwidth := inv.shape.heapEnd_eq
    rw [SmallMem.heapEnd, inv.size_eq] at hwidth
    obtain ⟨pre, post, rfl, rfl⟩ := split_of_mem_places hplace
    have hdvd : 4 ∣ width sizeofStructMem pre :=
      dvd_width (by decide) fun b hb => inv.dvd b (List.mem_append_left _ hb)
    have hsizeof : sizeofStructMem = 12 := rfl
    refine ⟨?_, ?_, ?_⟩
    · omega
    · omega
    · omega
  · obtain ⟨s', -, hcall, -, hspares⟩ := inv.call hproper
    exact ⟨s', hcall, hspares⟩

/-- Two requests, of which the first is written to, freed and asked for again, larger; then the second one grows. -/
def reusingRun : List HeapAct :=
  [.call (.malloc 8#32), .store 1 ⟨none, 0, 7⟩, .store 19 ⟨some true, 4, 0⟩, .call (.malloc 20#32), .call (.free 12),
    .call (.malloc 16#32), .call (.realloc 36 28#32)]

theorem heap_sound_reuses : ∃ s : UserHeap,
    Run UserHeap.step Proper (.init (fun _ => ⟨none, 0, 0⟩) 160) reusingRun s ∧
      s.live = [(96, 28), (68, 16)] ∧ s.live.Pairwise Apart := by
  obtain ⟨s, hexec, hlive⟩ := exists_of_any (P := fun s : UserHeap => s.live = [(96, 28), (68, 16)])
    (o := exec (guarded UserHeap.step Proper) (.init (fun _ => ⟨none, 0, 0⟩) 160) reusingRun) (by decide +kernel)
  have run := Run.of_exec hexec
  exact ⟨s, run, hlive, (heap_sound (by decide) run).1⟩

end UserHeap

end RodActuator.Rtos
