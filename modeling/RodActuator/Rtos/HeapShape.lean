import RodActuator.Rtos.SmallMem

/-! The items of the heap of the kernel are a list of blocks, and what the calls do to it. -/

namespace RodActuator.Rtos
open HeapBlock

/-- From `c` to `e` the items are the blocks; `prev` is the item in front and `last` the last one. -/
def Seg (item : Nat → SmallMemItem) : Nat → Nat → List HeapBlock → Nat → Nat → Prop
  | prev, c, [], last, e => prev = last ∧ c = e
  | prev, c, b :: bs, last, e =>
    item c = ⟨some b.used, c + sizeofStructMem + b.len, prev⟩ ∧ Seg item c (c + sizeofStructMem + b.len) bs last e

section
variable {item item' : Nat → SmallMemItem} {prev prev' c d e n k last : Nat} {b : HeapBlock} {bs pre mid post : List HeapBlock}

theorem sizeofStructMem_pos : 0 < sizeofStructMem := by decide

theorem Seg.end_eq (h : Seg item prev c bs last e) : e = c + width sizeofStructMem bs := by
  induction bs generalizing prev c with
  | nil => exact h.2.symm
  | cons b bs ih =>
    rw [ih h.2, width_cons]
    omega

theorem seg_append : Seg item prev c (pre ++ post) last e ↔
    ∃ r, Seg item prev c pre r (c + width sizeofStructMem pre) ∧
      Seg item r (c + width sizeofStructMem pre) post last e := by
  induction pre generalizing prev c with
  | nil => exact ⟨fun h => ⟨prev, ⟨rfl, rfl⟩, h⟩, by rintro ⟨r, ⟨rfl, -⟩, h⟩; exact h⟩
  | cons b pre ih =>
    have hwidth : c + width sizeofStructMem (b :: pre) = c + sizeofStructMem + b.len + width sizeofStructMem pre := by
      rw [width_cons]
      omega
    rw [hwidth, List.cons_append, Seg, ih]
    constructor
    · rintro ⟨hitem, r, hpre, hpost⟩
      exact ⟨r, ⟨hitem, hpre⟩, hpost⟩
    · rintro ⟨r, ⟨hitem, hpre⟩, hpost⟩
      exact ⟨hitem, r, hpre, hpost⟩

theorem Seg.congr (h : Seg item prev c bs last e) (hsame : ∀ o, c ≤ o → o < e → item' o = item o) :
    Seg item' prev c bs last e := by
  induction bs generalizing prev c with
  | nil => exact h
  | cons b bs ih =>
    have hend := h.end_eq
    have hpos := sizeofStructMem_pos
    rw [width_cons] at hend
    refine ⟨(hsame c (Nat.le_refl c) (by omega)).trans h.1, ih h.2 fun o ho => hsame o (by omega)⟩

/-- Only the items where the blocks start matter. -/
theorem Seg.of_boundaries (h : Seg item prev c bs last e)
    (hsame : ∀ o ∈ boundaries sizeofStructMem c bs, item' o = item o) : Seg item' prev c bs last e := by
  induction bs generalizing prev c with
  | nil => exact h
  | cons b bs ih =>
    exact ⟨(hsame c List.mem_cons_self).trans h.1, ih h.2 fun o ho => hsame o (List.mem_cons_of_mem _ ho)⟩

/-- The blocks behind a change, where only the way back of the first one changes. -/
theorem Seg.retie (h : Seg item prev c bs last e) (hlater : ∀ o, c < o → o < e → item' o = item o)
    (hhead : c < e → item' c = { item c with prev := prev' }) : ∃ last', Seg item' prev' c bs last' e := by
  cases bs with
  | nil => exact ⟨prev', rfl, h.2⟩
  | cons b bs =>
    have hend := h.end_eq
    have hpos := sizeofStructMem_pos
    rw [width_cons] at hend
    refine ⟨last, ?_, h.2.congr fun o ho => hlater o (by omega)⟩
    rw [hhead (by omega), h.1]

theorem SmallMemItem.eq_set_prev {it : SmallMemItem} (h : it.prev = prev) : it = { it with prev := prev } := by rw [← h]

theorem Seg.head_prev (h : Seg item prev c bs last e) (hc : c < e) : (item c).prev = prev := by
  cases bs with
  | nil => exact absurd h.2 hc.ne
  | cons b bs => rw [h.1]

/-- Some blocks are put in the place of others. -/
theorem Seg.replace {r s s' : Nat} (hpre : Seg item prev c pre r d) (hmid : Seg item' r d mid s' e)
    (hpost : Seg item s e post last n) (hlow : ∀ o < d, item' o = item o)
    (hlater : ∀ o, e < o → o < n → item' o = item o) (hhead : e < n → item' e = { item e with prev := s' }) :
    ∃ last', Seg item' prev c (pre ++ (mid ++ post)) last' n := by
  obtain ⟨last', htied⟩ := hpost.retie hlater hhead
  refine ⟨last', seg_append.mpr ⟨r, ?_, seg_append.mpr ⟨s', ?_, ?_⟩⟩⟩
  · rw [← hpre.end_eq]
    exact hpre.congr fun o _ ho => hlow o ho
  · rw [← hpre.end_eq, ← hmid.end_eq]
    exact hmid
  · rw [← hpre.end_eq, ← hmid.end_eq]
    exact htied

end

namespace SmallMem

/-- The items are the blocks, with a used one behind them. -/
structure Laid (m : SmallMem) (bs : List HeapBlock) : Prop where
  seg : ∃ last, Seg m.item 0 0 bs last m.heapEnd
  heapEnd_used : (m.item m.heapEnd).poolPtr = some true

/-- The heap also has the number of used bytes and the first free block. -/
structure Shape (m : SmallMem) (bs : List HeapBlock) : Prop extends Laid m bs where
  lfree : m.lfree = firstFree sizeofStructMem 0 bs
  used : m.used = usedWidth sizeofStructMem bs

/-- Between the two states items were written at these places, and no others have changed. -/
def Writes (places : List Nat) (m m' : SmallMem) : Prop :=
  m'.writes = places ++ m.writes ∧ ∀ p ∉ places, m'.item p = m.item p

theorem Writes.refl (m : SmallMem) : Writes [] m m := ⟨rfl, fun _ _ => rfl⟩

theorem Writes.trans {ps qs : List Nat} {m m' m'' : SmallMem} (h : Writes ps m m') (h' : Writes qs m' m'') :
    Writes (qs ++ ps) m m'' := by
  refine ⟨?_, fun p hp => ?_⟩
  · rw [h'.1, h.1, List.append_assoc]
  · rw [List.mem_append, not_or] at hp
    exact (h'.2 p hp.1).trans (h.2 p hp.2)

/-- Between the two states items were written there only. -/
def Wrote (starts : List Nat) (m m' : SmallMem) : Prop := ∃ ps, Writes ps m m' ∧ ∀ p ∈ ps, p ∈ starts

theorem Wrote.refl {starts : List Nat} (m : SmallMem) : Wrote starts m m := ⟨[], .refl m, List.forall_mem_nil _⟩

theorem Wrote.trans {starts : List Nat} {m m' m'' : SmallMem} (h : Wrote starts m m') (h' : Wrote starts m' m'') :
    Wrote starts m m'' := by
  obtain ⟨ps, hps, hmem⟩ := h
  obtain ⟨qs, hqs, hmem'⟩ := h'
  exact ⟨qs ++ ps, hps.trans hqs, fun p hp => (List.mem_append.mp hp).elim (hmem' p) (hmem p)⟩

theorem Wrote.mono {starts starts' : List Nat} {m m' : SmallMem} (h : Wrote starts m m') (hsub : ∀ p ∈ starts, p ∈ starts') :
    Wrote starts' m m' := by
  obtain ⟨ps, hps, hmem⟩ := h
  exact ⟨ps, hps, fun p hp => hsub p (hmem p hp)⟩

variable {m m' : SmallMem} {bs pre post : List HeapBlock} {b : HeapBlock} {n k p q size fuel : Nat}

theorem setItem_self (f : SmallMemItem → SmallMemItem) : (m.setItem p f).item p = f (m.item p) := Function.update_self ..

theorem setItem_ne (hq : q ≠ p) (f : SmallMemItem → SmallMemItem) : (m.setItem p f).item q = m.item q :=
  Function.update_of_ne hq ..

theorem start_mem : width sizeofStructMem pre ∈ boundaries sizeofStructMem 0 (pre ++ post) := by
  have hmem : 0 + width sizeofStructMem pre ∈ boundaries sizeofStructMem 0 (pre ++ post) := width_mem_boundaries
  rwa [Nat.zero_add] at hmem

theorem setItem_wrote {starts : List Nat} (hp : p ∈ starts) (f : SmallMemItem → SmallMemItem) :
    Wrote starts m (m.setItem p f) := by
  refine ⟨[p], ⟨rfl, fun q hq => setItem_ne (fun heq => hq (List.mem_singleton.mpr heq)) f⟩, fun q hq => ?_⟩
  rwa [List.mem_singleton.mp hq]

theorem Laid.heapEnd_eq (h : Laid m bs) : m.heapEnd = width sizeofStructMem bs := by
  obtain ⟨last, hseg⟩ := h.seg
  rw [hseg.end_eq, Nat.zero_add]

/-- Where a block of the list is. -/
theorem Laid.cut (h : Laid m (pre ++ b :: post)) :
    ∃ r last, Seg m.item 0 0 pre r (width sizeofStructMem pre) ∧
      m.item (width sizeofStructMem pre) =
        ⟨some b.used, width sizeofStructMem pre + sizeofStructMem + b.len, r⟩ ∧
      Seg m.item (width sizeofStructMem pre) (width sizeofStructMem pre + sizeofStructMem + b.len) post last m.heapEnd := by
  obtain ⟨last, hseg⟩ := h.seg
  obtain ⟨r, hpre, hitem, hpost⟩ := seg_append.mp hseg
  rw [Nat.zero_add] at hpre hitem hpost
  exact ⟨r, last, hpre, hitem, hpost⟩

theorem init_item (memory : Nat → SmallMemItem) (size p : Nat) : (init memory size).item p =
    Function.update (Function.update memory 0 ⟨some false, size + sizeofStructMem, 0⟩) (size + sizeofStructMem)
      ⟨some true, size + sizeofStructMem, size + sizeofStructMem⟩ p := rfl

theorem shape_init (memory : Nat → SmallMemItem) (size : Nat) : Shape (init memory size) [⟨false, size⟩] := by
  have hne : (0 : Nat) ≠ size + sizeofStructMem := (Nat.add_pos_right size sizeofStructMem_pos).ne
  refine ⟨⟨⟨0, ?_, rfl, ?_⟩, ?_⟩, rfl, rfl⟩
  · rw [init_item, Function.update_of_ne hne, Function.update_self, Nat.zero_add, Nat.add_comm]
  · rw [heapEnd, init, Nat.zero_add, Nat.add_comm]
  · rw [init_item, heapEnd, init, Function.update_self]

/-! ### The loops -/

theorem search_spec {c prev last : Nat} (hseg : Seg m.item prev c bs last m.heapEnd) (hsize : size ≤ m.memSizeAligned)
    (hfuel : bs.length < fuel) :
    (∃ pre k post, search size m fuel c = some (c + width sizeofStructMem pre) ∧ bs = pre ++ ⟨false, k⟩ :: post ∧ size ≤ k) ∨
      search size m fuel c = none ∧ ∀ b ∈ bs, b.used = true ∨ b.len < size := by
  induction bs generalizing prev c fuel with
  | nil =>
    have hend : c = m.memSizeAligned + sizeofStructMem := hseg.2
    have hpos := sizeofStructMem_pos
    refine .inr ⟨?_, List.forall_mem_nil _⟩
    cases fuel with
    | zero => rfl
    | succ fuel => rw [search, if_neg (by omega)]
  | cons b bs ih =>
    obtain ⟨fuel, rfl⟩ := Nat.exists_eq_add_one_of_ne_zero (Nat.ne_zero_of_lt hfuel)
    obtain ⟨hitem, hrest⟩ := hseg
    have hend : m.memSizeAligned + sizeofStructMem = _ := hrest.end_eq
    by_cases hc : c ≤ m.memSizeAligned - size
    · have hlen : c + sizeofStructMem + b.len - (c + sizeofStructMem) = b.len := Nat.add_sub_cancel_left ..
      rw [search, if_pos hc, hitem, hlen]
      by_cases hfits : b.used = false ∧ size ≤ b.len
      · refine .inl ⟨[], b.len, bs, if_pos ⟨?_, hfits.2⟩, ?_, hfits.2⟩
        · rw [List.nil_append, ← hfits.1]
        · simp [SmallMemItem.isUsed, hfits.1]
      · have hno : b.used = true ∨ b.len < size := by
          rcases Bool.eq_false_or_eq_true b.used with h | h
          · exact .inl h
          · exact .inr (Nat.not_le.mp fun hle => hfits ⟨h, hle⟩)
        rw [if_neg fun h => hfits ⟨by simpa [SmallMemItem.isUsed] using h.1, h.2⟩]
        rcases ih hrest (Nat.lt_of_succ_lt_succ hfuel) with ⟨pre, k, post, hfound, rfl, hk⟩ | ⟨hnone, hall⟩
        · refine .inl ⟨b :: pre, k, post, ?_, rfl, hk⟩
          rw [hfound, width_cons]
          exact congrArg some (by omega)
        · exact .inr ⟨hnone, List.forall_mem_cons.mpr ⟨hno, hall⟩⟩
    · -- Behind the bound no block is large enough.
      refine .inr ⟨by rw [search, if_neg hc], fun x hx => .inr ?_⟩
      obtain ⟨xs, ys, heq⟩ := List.append_of_mem hx
      have hwidth : width sizeofStructMem (b :: bs) = _ := congrArg (width sizeofStructMem) heq
      rw [width_append, width_cons, width_cons] at hwidth
      omega

theorem skipUsed_spec {c prev last : Nat} (hseg : Seg m.item prev c bs last m.heapEnd) (hfuel : bs.length < fuel) :
    m.skipUsed fuel c = firstFree sizeofStructMem c bs := by
  induction bs generalizing prev c fuel with
  | nil =>
    obtain ⟨fuel, rfl⟩ := Nat.exists_eq_add_one_of_ne_zero (Nat.ne_zero_of_lt hfuel)
    rw [skipUsed, if_neg fun h => h.2 hseg.2]
    rfl
  | cons b bs ih =>
    obtain ⟨fuel, rfl⟩ := Nat.exists_eq_add_one_of_ne_zero (Nat.ne_zero_of_lt hfuel)
    obtain ⟨hitem, hrest⟩ := hseg
    have hend := hrest.end_eq
    have hpos := sizeofStructMem_pos
    rw [skipUsed, firstFree, hitem]
    by_cases hb : b.used = true
    · rw [if_pos ⟨by simp [SmallMemItem.isUsed, hb], by omega⟩, if_pos hb, ih hrest (Nat.lt_of_succ_lt_succ hfuel)]
    · rw [if_neg fun h => hb (by simpa [SmallMemItem.isUsed] using h.1), if_neg hb]

theorem Laid.length_lt_turns (h : Laid m bs) : bs.length < m.turns := by
  have hlen : sizeofStructMem * bs.length ≤ width sizeofStructMem bs := length_mul_le
  rw [← h.heapEnd_eq, heapEnd] at hlen
  rw [turns]
  change 12 * bs.length ≤ m.memSizeAligned + 12 at hlen
  omega

/-! ### The changes of the items -/

theorem Laid.mark {u : Bool} (h : Laid m (pre ++ ⟨u, n⟩ :: post)) (flag : Bool) :
    Laid (m.setItem (width sizeofStructMem pre) fun it => { it with poolPtr := some flag }) (pre ++ ⟨flag, n⟩ :: post) := by
  obtain ⟨r, last, hpre, hitem, hpost⟩ := h.cut
  have hend : m.heapEnd = _ := hpost.end_eq
  have hpos := sizeofStructMem_pos
  dsimp only at hitem hpost hend
  have hother : ∀ o, o ≠ width sizeofStructMem pre →
      (m.setItem (width sizeofStructMem pre) fun it => { it with poolPtr := some flag }).item o = m.item o :=
    fun o ho => setItem_ne ho _
  have hmid : Seg (m.setItem (width sizeofStructMem pre) fun it => { it with poolPtr := some flag }).item r
      (width sizeofStructMem pre) [⟨flag, n⟩] (width sizeofStructMem pre) (width sizeofStructMem pre + sizeofStructMem + n) := by
    refine ⟨?_, rfl, rfl⟩
    rw [setItem_self, hitem]
  refine ⟨hpre.replace hmid hpost ?_ ?_ ?_, ?_⟩
  · exact fun o ho => hother o ho.ne
  · exact fun o ho _ => hother o (by omega)
  · intro ho
    exact (hother _ (by omega)).trans (SmallMemItem.eq_set_prev (hpost.head_prev ho))
  · exact (congrArg SmallMemItem.poolPtr (hother m.heapEnd (by omega))).trans h.heapEnd_used

section
variable {mem nmem : Nat}

theorem combine_next (hlt : mem < nmem) : (m.combine mem nmem).item mem = { m.item mem with next := (m.item nmem).next } ∨
    (m.item nmem).next = mem := by
  by_cases hnext : (m.item nmem).next = mem
  · exact .inr hnext
  · refine .inl ?_
    simp only [combine]
    rw [setItem_ne, setItem_self, setItem_ne hlt.ne, setItem_self]
    rw [setItem_self]
    exact Ne.symm hnext

theorem combine_prev (hne : (m.item nmem).next ≠ nmem) (hne' : (m.item nmem).next ≠ mem) :
    (m.combine mem nmem).item (m.item nmem).next = { m.item (m.item nmem).next with prev := mem } := by
  simp only [combine]
  rw [setItem_self]
  dsimp only
  rw [setItem_self, setItem_ne hne', setItem_ne hne]

theorem combine_other {o : Nat} (ho : o ≠ mem) (ho' : o ≠ nmem) (hnext : o ≠ (m.item nmem).next) :
    (m.combine mem nmem).item o = m.item o := by
  simp only [combine]
  rw [setItem_ne, setItem_ne ho, setItem_ne ho']
  rw [setItem_self]
  exact hnext

end

/-- An item goes into the unused one in front of it. -/
theorem Laid.combine {u : Bool} (h : Laid m (pre ++ ⟨u, n⟩ :: ⟨false, k⟩ :: post)) :
    Laid (m.combine (width sizeofStructMem pre) (width sizeofStructMem pre + sizeofStructMem + n))
      (pre ++ ⟨u, n + sizeofStructMem + k⟩ :: post) := by
  obtain ⟨r, last, hpre, hitem, hnmem, hpost⟩ := h.cut
  have hend : m.heapEnd = _ := hpost.end_eq
  have hpos := sizeofStructMem_pos
  dsimp only at hitem hnmem hpost hend
  generalize hd : width sizeofStructMem pre = d at *
  have hnext : (m.item (d + sizeofStructMem + n)).next = d + sizeofStructMem + n + sizeofStructMem + k := by rw [hnmem]
  have hother : ∀ o, o ≠ d → o ≠ d + sizeofStructMem + n → o ≠ d + sizeofStructMem + n + sizeofStructMem + k →
      (m.combine d (d + sizeofStructMem + n)).item o = m.item o := fun o ho ho' hoe =>
    combine_other ho ho' (by rwa [hnext])
  have hmem : (m.combine d (d + sizeofStructMem + n)).item d =
      ⟨some u, d + sizeofStructMem + n + sizeofStructMem + k, r⟩ := by
    rcases combine_next (m := m) (show d < d + sizeofStructMem + n by omega) with hm | hm
    · rw [hm, hnext, hitem]
    · omega
  have hprev : (m.combine d (d + sizeofStructMem + n)).item (d + sizeofStructMem + n + sizeofStructMem + k) =
      { m.item (d + sizeofStructMem + n + sizeofStructMem + k) with prev := d } := by
    have hp := @combine_prev m d (d + sizeofStructMem + n) (by omega) (by omega)
    rwa [hnext] at hp
  have hmid : Seg (m.combine d (d + sizeofStructMem + n)).item r d [⟨u, n + sizeofStructMem + k⟩] d
      (d + sizeofStructMem + n + sizeofStructMem + k) := by
    have hsum : d + sizeofStructMem + (n + sizeofStructMem + k) = d + sizeofStructMem + n + sizeofStructMem + k := by omega
    refine ⟨?_, rfl, hsum⟩
    rw [hmem, hsum]
  refine ⟨hpre.replace hmid hpost ?_ ?_ fun _ => hprev, ?_⟩
  · exact fun o ho => hother o (by omega) (by omega) (by omega)
  · exact fun o ho _ => hother o (by omega) (by omega) (by omega)
  · have hused := h.heapEnd_used
    change ((m.combine d _).item m.heapEnd).poolPtr = _
    by_cases he : m.heapEnd = d + sizeofStructMem + n + sizeofStructMem + k
    · rw [he] at hused ⊢
      rw [hprev]
      exact hused
    · exact (congrArg SmallMemItem.poolPtr (hother m.heapEnd (by omega) (by omega) he)).trans hused

/-- The room that is taken of a free block, and the block that is left. -/
def takenLen (size k : Nat) : Nat := if size + sizeofStructMem + minSizeAligned ≤ k then size else k

def leftOf (size k : Nat) : List HeapBlock :=
  if size + sizeofStructMem + minSizeAligned ≤ k then [⟨false, k - (sizeofStructMem + size)⟩] else []

theorem account_laid (size : Nat) (h : Laid m bs) : Laid (m.account size) bs := ⟨h.seg, h.heapEnd_used⟩

theorem divide_used {mem : Nat} : (m.divide size mem).used = m.used := by
  simp only [divide]
  split <;> rfl

theorem divide_memSizeAligned {mem : Nat} : (m.divide size mem).memSizeAligned = m.memSizeAligned := by
  simp only [divide]
  split <;> rfl

theorem divide_heapEnd {mem : Nat} : (m.divide size mem).heapEnd = m.heapEnd :=
  congrArg (· + sizeofStructMem) divide_memSizeAligned

theorem split_memSizeAligned {mem : Nat} : (m.split size mem).memSizeAligned = m.memSizeAligned := by
  rw [SmallMem.split]
  split
  · exact divide_memSizeAligned
  · rfl

theorem divide_lfree {mem : Nat} : (m.divide size mem).lfree = m.lfree := by
  simp only [divide]
  split <;> rfl

section
variable {mem next : Nat} (hnext : (m.item mem).next = next) (hlt : mem + sizeofStructMem + size < next)

include hnext hlt in
theorem divide_mem : (m.divide size mem).item mem = { m.item mem with next := mem + sizeofStructMem + size } := by
  have hpos := sizeofStructMem_pos
  simp only [divide, hnext]
  split
  · rw [setItem_ne (by omega), setItem_self, setItem_ne (by omega)]
  · rw [setItem_self, setItem_ne (by omega)]

include hnext hlt in
theorem divide_mem2 : (m.divide size mem).item (mem + sizeofStructMem + size) = ⟨some false, next, mem⟩ := by
  have hpos := sizeofStructMem_pos
  simp only [divide, hnext]
  split
  · rw [setItem_ne (by omega), setItem_ne (by omega), setItem_self]
  · rw [setItem_ne (by omega), setItem_self]

include hnext hlt in
theorem divide_next (hend : next < m.heapEnd) :
    (m.divide size mem).item next = { m.item next with prev := mem + sizeofStructMem + size } := by
  have hpos := sizeofStructMem_pos
  simp only [divide, hnext]
  split
  · rw [setItem_self, setItem_ne (by omega), setItem_ne (by omega)]
  · rename_i hne
    exact absurd hend.ne hne

include hnext in
theorem divide_other {o : Nat} (ho : o ≠ mem) (ho' : o ≠ mem + sizeofStructMem + size) (hoe : o = next → next = m.heapEnd) :
    (m.divide size mem).item o = m.item o := by
  simp only [divide, hnext]
  split
  · rename_i hend
    rw [setItem_ne (fun h => hend (hoe h)), setItem_ne ho, setItem_ne ho']
  · rw [setItem_ne ho, setItem_ne ho']

end

/-- An item is divided in two. -/
theorem Laid.divide {u : Bool} (h : Laid m (pre ++ ⟨u, k⟩ :: post)) (hroom : sizeofStructMem + size < k) :
    Laid (m.divide size (width sizeofStructMem pre))
      (pre ++ ⟨u, size⟩ :: ⟨false, k - (sizeofStructMem + size)⟩ :: post) := by
  obtain ⟨r, last, hpre, hitem, hpost⟩ := h.cut
  have hend : m.heapEnd = _ := hpost.end_eq
  have hpos := sizeofStructMem_pos
  dsimp only at hitem hpost hend
  generalize hd : width sizeofStructMem pre = d at *
  have hnext : (m.item d).next = d + sizeofStructMem + k := by rw [hitem]
  have hlt : d + sizeofStructMem + size < d + sizeofStructMem + k := by omega
  have hmid : Seg (m.divide size d).item r d [⟨u, size⟩, ⟨false, k - (sizeofStructMem + size)⟩]
      (d + sizeofStructMem + size) (d + sizeofStructMem + k) := by
    have hsum : d + sizeofStructMem + size + sizeofStructMem + (k - (sizeofStructMem + size)) = d + sizeofStructMem + k := by
      omega
    refine ⟨?_, ?_, rfl, hsum⟩
    · rw [divide_mem hnext hlt, hitem]
    · rw [divide_mem2 hnext hlt, hsum]
  have hlaid : ∃ last, Seg (m.divide size d).item 0 0 (pre ++ ([⟨u, size⟩, ⟨false, k - (sizeofStructMem + size)⟩] ++ post))
      last m.heapEnd := by
    refine hpre.replace hmid hpost ?_ ?_ fun he => divide_next hnext hlt he
    · exact fun o ho => divide_other hnext (by omega) (by omega) (by omega)
    · exact fun o ho _ => divide_other hnext (by omega) (by omega) (by omega)
  refine ⟨?_, ?_⟩
  · rw [divide_heapEnd]
    exact hlaid
  · rw [divide_heapEnd, divide_other hnext (by omega) (by omega) Eq.symm]
    exact h.heapEnd_used

theorem Laid.split (h : Laid m (pre ++ ⟨false, k⟩ :: post)) (size : Nat) :
    Laid (m.split size (width sizeofStructMem pre)) (pre ++ ⟨false, takenLen size k⟩ :: (leftOf size k ++ post)) ∧
      (m.split size (width sizeofStructMem pre)).used = m.used + (sizeofStructMem + takenLen size k) ∧
      (m.split size (width sizeofStructMem pre)).lfree = m.lfree := by
  obtain ⟨r, last, hpre, hitem, hpost⟩ := h.cut
  dsimp only at hitem
  have hlen : (m.item (width sizeofStructMem pre)).next - (width sizeofStructMem pre + sizeofStructMem) = k := by
    rw [hitem]
    exact Nat.add_sub_cancel_left ..
  rw [SmallMem.split, hlen, takenLen, leftOf]
  by_cases hroom : size + sizeofStructMem + minSizeAligned ≤ k
  · have hmin : 0 < minSizeAligned := by decide
    rw [if_pos hroom, if_pos hroom, if_pos hroom]
    refine ⟨account_laid _ (h.divide (by omega)), ?_, divide_lfree⟩
    rw [account, divide_used, Nat.add_comm size]
  · rw [if_neg hroom, if_neg hroom, if_neg hroom, hitem]
    refine ⟨account_laid _ h, congrArg (m.used + ·) ?_, rfl⟩
    dsimp only
    omega

/-! ### The calls -/

/-- The blocks when the free block behind `pre` is taken. -/
def takenBlocks (pre post : List HeapBlock) (size k : Nat) : List HeapBlock :=
  pre ++ ⟨true, takenLen size k⟩ :: (leftOf size k ++ post)

theorem le_takenLen (hsize : size ≤ k) : size ≤ takenLen size k := by
  rw [takenLen]
  split
  · exact Nat.le_refl size
  · exact hsize

theorem usedWidth_leftOf : usedWidth sizeofStructMem (leftOf size k) = 0 := by
  rw [leftOf]
  split
  · rfl
  · rfl

section
variable {starts : List Nat} {mem nmem : Nat}

theorem wrote_divide (hmem : mem ∈ starts) (hmem2 : mem + sizeofStructMem + size ∈ starts)
    (hnext : (m.item mem).next ∈ starts) : Wrote starts m (m.divide size mem) := by
  have hboth : Wrote starts m ((m.setItem (mem + sizeofStructMem + size) fun _ =>
      ⟨some false, (m.item mem).next, mem⟩).setItem mem fun it => { it with next := mem + sizeofStructMem + size }) :=
    (setItem_wrote hmem2 _).trans (setItem_wrote hmem _)
  simp only [divide]
  split
  · exact hboth.trans (setItem_wrote hnext _)
  · exact hboth

theorem wrote_combine (hmem : mem ∈ starts) (hnmem : nmem ∈ starts) (hnext : (m.item nmem).next ∈ starts) :
    Wrote starts m (m.combine mem nmem) := by
  have hnext' : (({ m with lfree := if m.lfree = nmem then mem else m.lfree }.setItem nmem fun it =>
      { it with poolPtr := none }).item nmem).next ∈ starts := by
    rw [setItem_self]
    exact hnext
  have hwrote : Wrote starts { m with lfree := if m.lfree = nmem then mem else m.lfree } (m.combine mem nmem) :=
    ((setItem_wrote hnmem _).trans (setItem_wrote hmem _)).trans (setItem_wrote hnext' _)
  exact hwrote

end

theorem Laid.divide_wrote {u : Bool} (h : Laid m (pre ++ ⟨u, k⟩ :: post)) (hroom : sizeofStructMem + size < k) :
    Wrote (boundaries sizeofStructMem 0 (pre ++ ⟨u, size⟩ :: ⟨false, k - (sizeofStructMem + size)⟩ :: post)) m
      (m.divide size (width sizeofStructMem pre)) := by
  obtain ⟨r, last, -, hitem, -⟩ := h.cut
  dsimp only at hitem
  have hnext : (m.item (width sizeofStructMem pre)).next = width sizeofStructMem pre + sizeofStructMem + k := by rw [hitem]
  have hsum : width sizeofStructMem pre + sizeofStructMem + size + sizeofStructMem + (k - (sizeofStructMem + size)) =
      width sizeofStructMem pre + sizeofStructMem + k := by omega
  rw [boundaries_append, Nat.zero_add, boundaries, boundaries, hsum]
  refine wrote_divide (List.mem_append_right _ ?_) (List.mem_append_right _ ?_) (List.mem_append_right _ ?_)
  · exact List.mem_cons_self
  · exact List.mem_cons_of_mem _ List.mem_cons_self
  · rw [hnext]
    exact List.mem_cons_of_mem _ (List.mem_cons_of_mem _ mem_boundaries_self)

theorem Laid.split_wrote (h : Laid m (pre ++ ⟨false, k⟩ :: post)) :
    Wrote (boundaries sizeofStructMem 0 (takenBlocks pre post size k)) m (m.split size (width sizeofStructMem pre)) := by
  obtain ⟨r, last, -, hitem, -⟩ := h.cut
  have hmin : 0 < minSizeAligned := by decide
  dsimp only at hitem
  have hnext : (m.item (width sizeofStructMem pre)).next = width sizeofStructMem pre + sizeofStructMem + k := by rw [hitem]
  rw [SmallMem.split, hnext, Nat.add_sub_cancel_left]
  split
  · rename_i hroom
    rw [takenBlocks, takenLen, leftOf, if_pos hroom, if_pos hroom, boundaries_flag true false]
    exact h.divide_wrote (by omega)
  · exact .refl m

theorem Shape.lfree_free (h : Shape m bs) : m.lfree = m.heapEnd ∨ ¬(m.item m.lfree).isUsed = true := by
  obtain ⟨pre, post, rfl, -, hfirst, hhead⟩ := firstFree_split sizeofStructMem 0 bs
  rw [← h.lfree, Nat.zero_add] at hfirst
  cases post with
  | nil =>
    refine .inl ?_
    rw [hfirst, h.heapEnd_eq, List.append_nil]
  | cons b post =>
    obtain ⟨r, last, -, hitem, -⟩ := h.cut
    refine .inr ?_
    rw [hfirst, hitem, SmallMemItem.isUsed, hhead b rfl]
    simp

theorem Shape.take (h : Shape m (pre ++ ⟨false, k⟩ :: post)) (hsize : size ≤ k)
    (halign : width sizeofStructMem pre % 4 = 0) :
    ∃ m', m.take size (width sizeofStructMem pre) = some m' ∧ Shape m' (takenBlocks pre post size k) ∧
      m'.memSizeAligned = m.memSizeAligned ∧
      Wrote (boundaries sizeofStructMem 0 (takenBlocks pre post size k)) m m' := by
  obtain ⟨hsplit, hused, hlfree⟩ := h.toLaid.split size
  have htaken := hsplit.mark true
  obtain ⟨r, last, -, hitem, hpost⟩ := htaken.cut
  have hsizeof : sizeofStructMem = 12 := rfl
  have hfits : width sizeofStructMem pre + sizeofStructMem + size ≤ m.heapEnd := by
    rw [h.heapEnd_eq, width_append, width_cons]
    dsimp only
    omega
  generalize hT : (m.split size (width sizeofStructMem pre)).setItem (width sizeofStructMem pre)
    (fun it => { it with poolPtr := some true }) = T at *
  have hTused : T.used = m.used + (sizeofStructMem + takenLen size k) := hT ▸ hused
  have hTlfree : T.lfree = m.lfree := hT ▸ hlfree
  have hTsize : T.memSizeAligned = m.memSizeAligned := hT ▸ split_memSizeAligned
  have hcount : T.used = usedWidth sizeofStructMem (takenBlocks pre post size k) := by
    rw [hTused, h.used, takenBlocks, usedWidth_append, usedWidth_append, usedWidth_cons, usedWidth_cons, usedWidth_append,
      usedWidth_leftOf, if_pos rfl, if_neg Bool.false_ne_true]
    dsimp only
    omega
  -- The first free block is sought again if it was the one that is taken.
  have hshape : Shape (if width sizeofStructMem pre = T.lfree then { T with lfree := T.skipUsed T.turns T.lfree } else T)
      (takenBlocks pre post size k) := by
    rcases firstFree_append_cases sizeofStructMem_pos 0 pre with hall | ⟨v, hv, hall⟩
    · have hlow : T.lfree = width sizeofStructMem pre := by
        rw [hTlfree, h.lfree, hall, firstFree_free, Nat.zero_add]
      have hturns := htaken.length_lt_turns
      rw [List.length_append] at hturns
      have htail : Seg T.item r (width sizeofStructMem pre) (⟨true, takenLen size k⟩ :: (leftOf size k ++ post)) last
          T.heapEnd := ⟨hitem, hpost⟩
      have hskip := skipUsed_spec htail (show _ < T.turns by omega)
      rw [if_pos hlow.symm, hlow, hskip]
      refine ⟨⟨htaken.seg, htaken.heapEnd_used⟩, ?_, hcount⟩
      rw [takenBlocks, hall, Nat.zero_add]
    · have hlow : T.lfree = v := by rw [hTlfree, h.lfree, hall]
      rw [if_neg (by omega)]
      refine ⟨htaken, ?_, hcount⟩
      rw [hlow, takenBlocks, hall]
  have hsame : (if width sizeofStructMem pre = T.lfree then { T with lfree := T.skipUsed T.turns T.lfree } else T).memSizeAligned =
      m.memSizeAligned := by
    split
    · exact hTsize
    · exact hTsize
  have hwrote : Wrote (boundaries sizeofStructMem 0 (takenBlocks pre post size k)) m T := by
    rw [← hT]
    exact h.toLaid.split_wrote.trans (setItem_wrote start_mem _)
  refine ⟨_, ?_, hshape, hsame, ?_⟩
  · rw [SmallMem.take, hT]
    refine if_pos ⟨fun _ => hshape.lfree_free, ?_, ?_, halign⟩
    · rw [heapEnd, hsame]
      exact hfits
    · omega
  · split
    · exact hwrote
    · exact hwrote

theorem len_le_memSizeAligned (h : Laid m bs) (hb : b ∈ bs) : b.len ≤ m.memSizeAligned := by
  obtain ⟨xs, ys, rfl⟩ := List.append_of_mem hb
  have hwidth := h.heapEnd_eq
  rw [heapEnd, width_append, width_cons] at hwidth
  omega

/-- The first free block that is large enough is taken, and none is if there is no such block. -/
theorem Shape.alloc (h : Shape m bs) (halign : ∀ b ∈ bs, 4 ∣ b.len) {size : BitVec 32} (hsize : size ≠ 0) :
    (∃ pre k post m', bs = pre ++ ⟨false, k⟩ :: post ∧ blockSize size ≤ k ∧
      m.alloc size = some (some (width sizeofStructMem pre + sizeofStructMem), m') ∧
      Shape m' (takenBlocks pre post (blockSize size) k) ∧ m'.memSizeAligned = m.memSizeAligned ∧
      Wrote (boundaries sizeofStructMem 0 (takenBlocks pre post (blockSize size) k)) m m') ∨
      m.alloc size = some (none, m) ∧ ∀ b ∈ bs, b.used = true ∨ b.len < blockSize size := by
  rw [SmallMem.alloc, if_neg hsize]
  by_cases hbig : m.memSizeAligned < blockSize size
  · exact .inr ⟨if_pos hbig, fun b hb => .inr ((len_le_memSizeAligned h.toLaid hb).trans_lt hbig)⟩
  · rw [if_neg hbig]
    obtain ⟨xs, ys, rfl, hused, hfirst, -⟩ := firstFree_split sizeofStructMem 0 bs
    rw [← h.lfree] at hfirst
    obtain ⟨last, hseg⟩ := h.seg
    obtain ⟨r, -, hys⟩ := seg_append.mp hseg
    rw [← hfirst] at hys
    have hturns := h.toLaid.length_lt_turns
    rw [List.length_append] at hturns
    rcases search_spec hys (Nat.not_lt.mp hbig) (show ys.length < m.turns by omega) with
      ⟨pre, k, post, hfound, rfl, hk⟩ | ⟨hnone, hall⟩
    · have hwidth : m.lfree + width sizeofStructMem pre = width sizeofStructMem (xs ++ pre) := by
        rw [hfirst, Nat.zero_add, width_append]
      rw [hwidth] at hfound
      rw [← List.append_assoc] at h halign
      have hdvd : 4 ∣ width sizeofStructMem (xs ++ pre) :=
        dvd_width (by decide) fun b hb => halign b (List.mem_append_left _ hb)
      obtain ⟨m', htake, hshape, hsame, hwrote⟩ := h.take hk (Nat.mod_eq_zero_of_dvd hdvd)
      refine .inl ⟨xs ++ pre, k, post, m', (List.append_assoc ..).symm, hk, ?_, hshape, hsame, hwrote⟩
      rw [hfound]
      exact congrArg (Option.map _) htake
    · refine .inr ⟨by rw [hnone], fun b hb => ?_⟩
      rcases List.mem_append.mp hb with hb | hb
      · exact .inl (hused b hb)
      · exact hall b hb

theorem firstFree_le_of_free (pre post : List HeapBlock) (n : Nat) :
    firstFree sizeofStructMem 0 (pre ++ ⟨false, n⟩ :: post) ≤ width sizeofStructMem pre ∧
      ∀ k bs, firstFree sizeofStructMem 0 (pre ++ ⟨false, k⟩ :: bs) =
        firstFree sizeofStructMem 0 (pre ++ ⟨false, n⟩ :: post) := by
  rcases firstFree_append_cases sizeofStructMem_pos 0 pre with hall | ⟨v, hv, hall⟩
  · refine ⟨?_, fun k bs => by rw [hall, hall, firstFree_free, firstFree_free]⟩
    rw [hall, firstFree_free, Nat.zero_add]
  · refine ⟨?_, fun k bs => by rw [hall, hall]⟩
    rw [hall]
    omega

theorem Laid.combine_wrote {u : Bool} (h : Laid m (pre ++ ⟨u, n⟩ :: ⟨false, k⟩ :: post)) :
    Wrote (boundaries sizeofStructMem 0 (pre ++ ⟨u, n⟩ :: ⟨false, k⟩ :: post)) m
      (m.combine (width sizeofStructMem pre) (width sizeofStructMem pre + sizeofStructMem + n)) := by
  obtain ⟨r, last, -, -, hnmem, -⟩ := h.cut
  dsimp only at hnmem
  rw [boundaries_append, Nat.zero_add, boundaries, boundaries]
  refine wrote_combine (List.mem_append_right _ ?_) (List.mem_append_right _ ?_) (List.mem_append_right _ ?_)
  · exact List.mem_cons_self
  · exact List.mem_cons_of_mem _ List.mem_cons_self
  · rw [hnmem]
    exact List.mem_cons_of_mem _ (List.mem_cons_of_mem _ mem_boundaries_self)

theorem Shape.combine (h : Shape m (pre ++ ⟨false, n⟩ :: ⟨false, k⟩ :: post)) :
    Shape (m.combine (width sizeofStructMem pre) (width sizeofStructMem pre + sizeofStructMem + n))
      (pre ++ ⟨false, n + sizeofStructMem + k⟩ :: post) := by
  have hpos := sizeofStructMem_pos
  obtain ⟨hle, heq⟩ := firstFree_le_of_free pre (⟨false, k⟩ :: post) n
  rw [← h.lfree] at hle heq
  refine ⟨h.toLaid.combine, ?_, ?_⟩
  · refine (if_neg ?_ : _ = m.lfree).trans (heq _ _).symm
    omega
  · refine h.used.trans ?_
    simp

theorem Shape.plugForward (h : Shape m (pre ++ ⟨false, n⟩ :: post)) (hpost : Coalesced post) :
    ∃ n' post', Shape (plugForward (width sizeofStructMem pre) m) (pre ++ ⟨false, n'⟩ :: post') ∧
      Merge sizeofStructMem (pre ++ ⟨false, n⟩ :: post) (pre ++ ⟨false, n'⟩ :: post') ∧
      Coalesced (⟨false, n'⟩ :: post') ∧ (plugForward (width sizeofStructMem pre) m).memSizeAligned = m.memSizeAligned ∧
      Wrote (boundaries sizeofStructMem 0 (pre ++ ⟨false, n⟩ :: post)) m (plugForward (width sizeofStructMem pre) m) := by
  obtain ⟨r, last, -, hitem, hseg⟩ := h.cut
  have hpos := sizeofStructMem_pos
  have hend : m.heapEnd = _ := hseg.end_eq
  dsimp only at hitem hseg hend
  have hnext : (m.item (width sizeofStructMem pre)).next = width sizeofStructMem pre + sizeofStructMem + n := by rw [hitem]
  rw [SmallMem.plugForward, hnext]
  rcases post with _ | ⟨⟨used, k⟩, post⟩
  · rw [if_neg fun hc => hc.2.2 hseg.2]
    exact ⟨n, [], h, .refl, List.isChain_singleton _, rfl, .refl m⟩
  · have hused : (m.item (width sizeofStructMem pre + sizeofStructMem + n)).isUsed = used := by
      rw [hseg.1, SmallMemItem.isUsed]
      simp
    cases used with
    | true =>
      rw [if_neg fun hc => hc.2.1 hused]
      exact ⟨n, _, h, .refl, coalesced_cons_cons.mpr ⟨.inr rfl, hpost⟩, rfl, .refl m⟩
    | false =>
      rw [width_cons] at hend
      dsimp only at hend
      rw [if_pos ⟨by omega, by rw [hused]; exact Bool.false_ne_true, by omega⟩]
      exact ⟨_, post, h.combine, .step .refl, hpost.cons_congr rfl, rfl, h.toLaid.combine_wrote⟩

theorem Shape.plugBackward (h : Shape m (pre ++ ⟨false, n⟩ :: post)) (hpre : Coalesced pre)
    (hpost : Coalesced (⟨false, n⟩ :: post)) :
    ∃ bs', Shape (plugBackward (width sizeofStructMem pre) m) bs' ∧
      Merge sizeofStructMem (pre ++ ⟨false, n⟩ :: post) bs' ∧ Coalesced bs' ∧
      (plugBackward (width sizeofStructMem pre) m).memSizeAligned = m.memSizeAligned ∧
      Wrote (boundaries sizeofStructMem 0 (pre ++ ⟨false, n⟩ :: post)) m (plugBackward (width sizeofStructMem pre) m) := by
  obtain ⟨r, last, hseg, hitem, -⟩ := h.cut
  have hpos := sizeofStructMem_pos
  have hprev : (m.item (width sizeofStructMem pre)).prev = r := by rw [hitem]
  rw [SmallMem.plugBackward, hprev]
  rcases List.eq_nil_or_concat' pre with rfl | ⟨pre, ⟨used, k⟩, rfl⟩
  · rw [if_neg fun hc => hc.1 (hseg.1.symm.trans rfl)]
    exact ⟨_, h, .refl, hpost, rfl, .refl m⟩
  · obtain ⟨r', -, hlast⟩ := seg_append.mp hseg
    rw [Nat.zero_add] at hlast
    obtain ⟨hitem', rfl, hwidth⟩ := hlast
    dsimp only at hitem' hwidth
    have hused : (m.item (width sizeofStructMem pre)).isUsed = used := by
      rw [hitem', SmallMemItem.isUsed]
      simp
    have hlist : ∀ (x : HeapBlock) (ys : List HeapBlock), pre ++ [x] ++ ys = pre ++ x :: ys := fun x ys => by simp
    cases used with
    | true =>
      rw [if_neg fun hc => hc.2 hused]
      refine ⟨_, h, .refl, ?_, rfl, .refl m⟩
      rw [hlist]
      exact coalesced_split.mpr ⟨hpre, hpost.cons_used rfl⟩
    | false =>
      rw [← hwidth, if_pos ⟨by omega, by rw [hused]; exact Bool.false_ne_true⟩]
      rw [hlist] at h ⊢
      exact ⟨_, h.combine, .step .refl, coalesced_split.mpr ⟨hpre.concat_congr rfl, hpost.cons_congr rfl⟩, rfl,
        h.toLaid.combine_wrote⟩

theorem Shape.release (h : Shape m (pre ++ ⟨true, n⟩ :: post)) :
    Shape (m.release (width sizeofStructMem pre)) (pre ++ ⟨false, n⟩ :: post) := by
  obtain ⟨r, last, -, hitem, -⟩ := h.cut
  have hpos := sizeofStructMem_pos
  have hlaid := h.toLaid.mark false
  refine ⟨⟨hlaid.seg, hlaid.heapEnd_used⟩, ?_, ?_⟩
  · change (if width sizeofStructMem pre < m.lfree then width sizeofStructMem pre else m.lfree) = _
    rw [h.lfree]
    rcases firstFree_append_cases sizeofStructMem_pos 0 pre with hall | ⟨v, hv, hall⟩
    · rw [hall, hall, firstFree_free, Nat.zero_add, if_pos]
      have hle : width sizeofStructMem pre + sizeofStructMem + n ≤
          firstFree sizeofStructMem (width sizeofStructMem pre + sizeofStructMem + n) post := le_firstFree
      rw [firstFree, if_pos rfl]
      dsimp only
      omega
    · rw [hall, hall, if_neg (by omega)]
  · change m.used - (((m.setItem _ _).item _).next - _) = _
    rw [setItem_self, hitem, h.used, usedWidth_append, usedWidth_append, usedWidth_cons, usedWidth_cons, if_pos rfl,
      if_neg Bool.false_ne_true]
    dsimp only
    omega

theorem Shape.free (h : Shape m (pre ++ ⟨true, n⟩ :: post)) (hn : 0 < n) (hdvd : 4 ∣ width sizeofStructMem pre)
    (hbs : Coalesced (pre ++ ⟨true, n⟩ :: post)) :
    ∃ m' bs', m.free (width sizeofStructMem pre + sizeofStructMem) = some m' ∧ Shape m' bs' ∧
      Merge sizeofStructMem (pre ++ ⟨false, n⟩ :: post) bs' ∧ Coalesced bs' ∧ m'.memSizeAligned = m.memSizeAligned ∧
      Wrote (boundaries sizeofStructMem 0 (pre ++ ⟨true, n⟩ :: post)) m m' := by
  obtain ⟨r, last, -, hitem, hseg⟩ := h.cut
  have hend : m.heapEnd = _ := hseg.end_eq
  have hpos := sizeofStructMem_pos
  have hsizeof : sizeofStructMem = 12 := rfl
  dsimp only at hitem hseg hend
  have hnext : (m.item (m.item (width sizeofStructMem pre)).next).poolPtr ≠ none := by
    rw [hitem]
    dsimp only
    rcases post with _ | ⟨b, post⟩
    · rw [hseg.2, h.heapEnd_used]
      exact Option.some_ne_none true
    · rw [hseg.1]
      exact Option.some_ne_none b.used
  obtain ⟨n', post', hforward, hmerge, hpost, hsame, hwrote⟩ := h.release.plugForward (coalesced_split.mp hbs).2.of_cons
  obtain ⟨bs', hbackward, hmerge', hbs', hsame', hwrote'⟩ := hforward.plugBackward (coalesced_append_left hbs) hpost
  have hmark : Wrote (boundaries sizeofStructMem 0 (pre ++ ⟨true, n⟩ :: post)) m
      (m.setItem (width sizeofStructMem pre) fun it => { it with poolPtr := some false }) := setItem_wrote start_mem _
  rw [boundaries_flag false true] at hwrote
  refine ⟨_, bs', ?_, hbackward, hmerge.trans hmerge', hbs', hsame'.trans hsame,
    (Wrote.trans hmark hwrote).trans (hwrote'.mono fun p hp => boundaries_flag false true ▸ hmerge.boundaries hp)⟩
  have hdiff : width sizeofStructMem pre + sizeofStructMem - sizeofStructMem = width sizeofStructMem pre := by omega
  rw [SmallMem.free, hdiff]
  have hmem : width sizeofStructMem pre + sizeofStructMem < m.heapEnd := by omega
  exact (if_pos ⟨by omega, by rw [hitem], hmem, hnext⟩).trans (if_pos ((Nat.le_add_right _ _).trans_lt hmem))

/-- The bytes of a used block behind the first ones become free. -/
theorem Shape.shrink (h : Shape m (pre ++ ⟨true, k⟩ :: post)) (hroom : size + sizeofStructMem + minSizeAligned < k)
    (hbs : Coalesced (pre ++ ⟨true, k⟩ :: post)) :
    ∃ m' bs', m.shrink size (width sizeofStructMem pre) = some m' ∧ Shape m' bs' ∧
      Merge sizeofStructMem (pre ++ ⟨true, size⟩ :: ⟨false, k - (sizeofStructMem + size)⟩ :: post) bs' ∧ Coalesced bs' ∧
      m'.memSizeAligned = m.memSizeAligned ∧
      Wrote (boundaries sizeofStructMem 0 (pre ++ ⟨true, size⟩ :: ⟨false, k - (sizeofStructMem + size)⟩ :: post)) m m' := by
  obtain ⟨r, last, -, hitem, -⟩ := h.cut
  have hpos := sizeofStructMem_pos
  have hlt : sizeofStructMem + size < k := by omega
  dsimp only at hitem
  have hlen : (m.item (width sizeofStructMem pre)).next - width sizeofStructMem pre - sizeofStructMem = k := by
    rw [hitem]
    dsimp only
    omega
  have hcut : width sizeofStructMem (pre ++ [⟨true, size⟩]) = width sizeofStructMem pre + sizeofStructMem + size := by
    rw [width_append, width_cons, width_nil, Nat.add_zero, Nat.add_assoc]
  have hlist : ∀ ys : List HeapBlock, pre ++ [⟨true, size⟩] ++ ys = pre ++ ⟨true, size⟩ :: ys := fun ys => by simp
  have hcounted : Laid { m with used := m.used - (k - size) } (pre ++ ⟨true, k⟩ :: post) := ⟨h.seg, h.heapEnd_used⟩
  have hdivided := hcounted.divide hlt
  have hwrote : Wrote (boundaries sizeofStructMem 0 (pre ++ ⟨true, size⟩ :: ⟨false, k - (sizeofStructMem + size)⟩ :: post))
      m ({ m with used := m.used - (k - size) }.divide size (width sizeofStructMem pre)) := hcounted.divide_wrote hlt
  have hlfree := @divide_lfree { m with used := m.used - (k - size) } size (width sizeofStructMem pre)
  have hused := @divide_used { m with used := m.used - (k - size) } size (width sizeofStructMem pre)
  have hsize := @divide_memSizeAligned { m with used := m.used - (k - size) } size (width sizeofStructMem pre)
  have hend : width sizeofStructMem pre + sizeofStructMem + size < m.memSizeAligned + sizeofStructMem := by
    have hwidth := h.heapEnd_eq
    rw [heapEnd, width_append, width_cons] at hwidth
    dsimp only at hwidth
    omega
  rw [SmallMem.shrink, hlen]
  generalize { m with used := m.used - (k - size) }.divide size (width sizeofStructMem pre) = D at *
  have hshape : Shape { D with
      lfree := if width sizeofStructMem pre + sizeofStructMem + size < D.lfree then
        width sizeofStructMem pre + sizeofStructMem + size else D.lfree }
      (pre ++ [⟨true, size⟩] ++ ⟨false, k - (sizeofStructMem + size)⟩ :: post) := by
    rw [hlist]
    refine ⟨⟨hdivided.seg, hdivided.heapEnd_used⟩, ?_, ?_⟩
    · dsimp only
      rw [hlfree, h.lfree]
      rcases firstFree_append_cases sizeofStructMem_pos 0 pre with hall | ⟨v, hv, hall⟩
      · have hle : width sizeofStructMem pre + sizeofStructMem + k ≤
          firstFree sizeofStructMem (width sizeofStructMem pre + sizeofStructMem + k) post := le_firstFree
        rw [hall, hall, Nat.zero_add, firstFree, if_pos rfl, firstFree, if_pos rfl, firstFree_free]
        exact if_pos (by dsimp only; omega)
      · rw [hall, hall, if_neg (by omega)]
    · dsimp only
      rw [hused, h.used, usedWidth_append, usedWidth_append, usedWidth_cons, usedWidth_cons, usedWidth_cons, if_pos rfl,
        if_pos rfl, if_neg Bool.false_ne_true]
      dsimp only
      omega
  obtain ⟨n', post', hforward, hmerge, hpost, hsame, hwrote'⟩ := hshape.plugForward (coalesced_split.mp hbs).2.of_cons
  obtain ⟨bs', hbackward, hmerge', hbs', hsame', hwrote''⟩ :=
    hforward.plugBackward ((coalesced_split.mp hbs).1.concat_used rfl) hpost
  rw [hlist] at hmerge hwrote'
  refine ⟨_, bs', ?_, hbackward, hmerge.trans hmerge', hbs', hsame'.trans (hsame.trans hsize),
    Wrote.trans (Wrote.trans hwrote hwrote') (hwrote''.mono fun p hp => hmerge.boundaries hp)⟩
  rw [hcut]
  refine if_pos ?_
  change _ < D.memSizeAligned + sizeofStructMem
  rw [hsize]
  exact hend

end SmallMem

end RodActuator.Rtos
