import Mathlib.Algebra.Order.BigOperators.Group.List
import Mathlib.Algebra.Order.Ring.Nat
import RodActuator.Adp.Adc
import RodActuator.Lib.Ieee754
import RodActuator.Lib.Ring

/-! The sliding mean and the ring against the whole stream of samples. The sum is raised and lowered one sample at a
    time and never counted anew; it is the sum of the newest samples all the same, and no step of it leaves 32 bits. -/

namespace RodActuator.Adp
open Binary32 FixedArray

namespace AdcDrvInst

/-- The sum of the newest samples that the window has room for. -/
def recentSum (raws : List (BitVec 16)) : Nat := ((raws.take adcMeanWindowSamples).map BitVec.toNat).sum

/-- No step of the sum leaves 32 bits when a raw value comes. -/
structure NoWrap (raw : BitVec 16) (p : AdcDrvInst) : Prop where
  filling : p.meanCnt < BitVec.ofNat 16 adcMeanWindowSamples → p.meanSum.toNat + raw.toNat < 2 ^ 32
  full : ¬p.meanCnt < BitVec.ofNat 16 adcMeanWindowSamples → ∀ oldest ∈ load p.meanWin p.meanIdx.toNat,
    oldest ≤ p.meanSum ∧ (p.meanSum - oldest).toNat + raw.toNat < 2 ^ 32

/-- The window after the samples, the newest first. -/
structure Sums (raws : List (BitVec 16)) (p : AdcDrvInst) : Prop where
  win : Ring.Holds (raws.map (BitVec.setWidth 32)) p.meanWin p.meanIdx.toNat p.meanCnt.toNat
  sum : p.meanSum.toNat = recentSum raws

/-- The instance after the samples. -/
structure Tracks (F : Binary32) (raws : List (BitVec 16)) (p : AdcDrvInst) : Prop where
  ring : Ring.Holds (raws.map (toValue F p.ch)) p.ring p.writeIdx.toNat p.count.toNat
  mean : Sums raws p

/-! ### One sample -/

theorem tracks_init (F : Binary32) (ch : AdcDrvCh) : Tracks F [] (init ch) where
  ring := Ring.holds_nil (by decide) _
  mean := ⟨Ring.holds_nil (by decide) _, rfl⟩

theorem toNat_nextIdx (size : Nat) (hsize : 0 < size ∧ size < 2 ^ 16) (idx : BitVec 16) :
    (nextIdx size idx).toNat = (idx.toNat + 1) % size := by
  have hlt := idx.isLt
  have hmod := Nat.mod_lt (idx.toNat + 1) hsize.1
  have hone : (idx.setWidth 32 + 1).toNat = idx.toNat + 1 := by
    rw [BitVec.toNat_add, BitVec.toNat_setWidth, Nat.mod_eq_of_lt (a := idx.toNat) (by omega)]
    exact Nat.mod_eq_of_lt (a := idx.toNat + 1) (by omega)
  rw [nextIdx, BitVec.toNat_setWidth, BitVec.toNat_umod, hone, BitVec.toNat_ofNat, Nat.mod_eq_of_lt (a := size) (by omega)]
  exact Nat.mod_eq_of_lt (by omega)

/-- A counter that stops at the size of its array. -/
theorem toNat_count (size : Nat) (hsize : size < 2 ^ 16) (count : BitVec 16) :
    (if count < BitVec.ofNat 16 size then count + 1 else count).toNat =
      if count.toNat < size then count.toNat + 1 else count.toNat := by
  have hlimit : (BitVec.ofNat 16 size).toNat = size := by
    rw [BitVec.toNat_ofNat]
    exact Nat.mod_eq_of_lt hsize
  simp only [BitVec.lt_def, hlimit]
  split
  · rename_i hlt
    rw [BitVec.toNat_add]
    exact Nat.mod_eq_of_lt (a := count.toNat + 1) (by omega)
  · rfl

theorem recentSum_le_length (raws : List (BitVec 16)) :
    recentSum raws ≤ min raws.length adcMeanWindowSamples * 65535 := by
  have hall : ∀ x ∈ (raws.take adcMeanWindowSamples).map BitVec.toNat, x ≤ 65535 := by
    intro x hx
    obtain ⟨raw, -, rfl⟩ := List.mem_map.mp hx
    have hlt := raw.isLt
    omega
  have hsum := List.sum_le_card_nsmul _ _ hall
  rw [List.length_map, List.length_take, min_comm] at hsum
  exact hsum

theorem recentSum_le (raws : List (BitVec 16)) : recentSum raws ≤ 20 * 65535 :=
  (recentSum_le_length raws).trans (Nat.mul_le_mul_right _ (min_le_right _ _))

/-- One sample more, and the one that the window has no room for any longer. -/
theorem recentSum_cons (raw : BitVec 16) (raws : List (BitVec 16)) :
    recentSum (raw :: raws) + (raws[adcMeanWindowSamples - 1]?.map BitVec.toNat).getD 0 =
      raw.toNat + recentSum raws := by
  have hcons := Ring.sum_take_cons (n := adcMeanWindowSamples) raw.toNat (raws.map BitVec.toNat) (by decide)
  rw [List.getElem?_map] at hcons
  rw [recentSum, recentSum, List.map_take, List.map_take]
  exact hcons

section
variable {F : Binary32} {raws : List (BitVec 16)} {p : AdcDrvInst}

theorem Sums.full_iff (h : Sums raws p) :
    p.meanCnt < BitVec.ofNat 16 adcMeanWindowSamples ↔ raws.length < adcMeanWindowSamples := by
  have hcnt := h.win.cnt_eq
  rw [List.length_map] at hcnt
  rw [BitVec.lt_def, show (BitVec.ofNat 16 adcMeanWindowSamples).toNat = adcMeanWindowSamples from rfl]
  omega

/-- The oldest sample of a full window is where the next one will be stored. -/
theorem Sums.oldest (h : Sums raws p) (hfull : ¬raws.length < adcMeanWindowSamples) :
    ∃ oldest, raws[adcMeanWindowSamples - 1]? = some oldest ∧
      load p.meanWin p.meanIdx.toNat = some (oldest.setWidth 32) ∧
      oldest.toNat ≤ p.meanSum.toNat := by
  have hlt : adcMeanWindowSamples - 1 < raws.length := by
    rw [adcMeanWindowSamples] at hfull ⊢
    omega
  have hcnt : p.meanCnt.toNat = adcMeanWindowSamples := by
    rw [h.win.cnt_eq, List.length_map]
    omega
  have hload := h.win.oldest hcnt
  rw [List.getElem?_map, List.getElem?_eq_getElem hlt] at hload
  refine ⟨_, List.getElem?_eq_getElem hlt, hload, ?_⟩
  rw [h.sum, recentSum]
  refine List.le_sum_of_mem (List.mem_map_of_mem (List.mem_take_iff_getElem.mpr ⟨_, ?_, rfl⟩))
  exact lt_min (by decide) hlt

theorem Sums.noWrap (h : Sums raws p) (raw : BitVec 16) : NoWrap raw p := by
  have hraw := raw.isLt
  have hsum := recentSum_le raws
  refine ⟨fun _ => by rw [h.sum]; omega, fun hfull oldest hload => ?_⟩
  obtain ⟨o, -, hload', hle⟩ := h.oldest (mt h.full_iff.mpr hfull)
  obtain rfl : o.setWidth 32 = oldest := Option.some.inj (hload'.symm.trans hload)
  have holdest : o.setWidth 32 ≤ p.meanSum := by
    rw [BitVec.le_def, BitVec.toNat_setWidth, Nat.mod_eq_of_lt (by omega)]
    exact hle
  refine ⟨holdest, ?_⟩
  rw [BitVec.toNat_sub_of_le holdest, h.sum]
  omega

theorem toNat_setWidth32 (raw : BitVec 16) : (raw.setWidth 32).toNat = raw.toNat := by
  have hlt := raw.isLt
  rw [BitVec.toNat_setWidth]
  exact Nat.mod_eq_of_lt (by omega)

/-- The window takes the raw value, and its sum stays the sum of the newest. -/
theorem Sums.meanPush (h : Sums raws p) (raw : BitVec 16) : ∃ p', p.meanPush raw = some p' ∧
    p'.ch = p.ch ∧ p'.ring = p.ring ∧ p'.writeIdx = p.writeIdx ∧ p'.count = p.count ∧
    Sums (raw :: raws) p' := by
  obtain ⟨win, hstore, hring⟩ := h.win.push (raw.setWidth 32)
  have hnext := toNat_nextIdx adcMeanWindowSamples (by decide) p.meanIdx
  have hcount := toNat_count adcMeanWindowSamples (by decide) p.meanCnt
  have hnowrap := h.noWrap raw
  have hcons := recentSum_cons raw raws
  unfold AdcDrvInst.meanPush
  rw [hstore]
  by_cases hfilling : p.meanCnt < BitVec.ofNat 16 adcMeanWindowSamples
  · rw [if_pos hfilling] at hcount ⊢
    refine ⟨_, rfl, rfl, rfl, rfl, rfl, ?_, ?_⟩
    · rw [List.map_cons, hnext, hcount]
      exact hring
    · have hnone : raws[adcMeanWindowSamples - 1]? = none := by
        have hlen := h.full_iff.mp hfilling
        exact List.getElem?_eq_none (Nat.le_sub_one_of_lt hlen)
      have hfits := hnowrap.filling hfilling
      rw [hnone] at hcons
      rw [BitVec.toNat_add, toNat_setWidth32, Nat.mod_eq_of_lt hfits, h.sum]
      simp only [Option.map_none, Option.getD_none] at hcons
      omega
  · obtain ⟨oldest, hsome, hload, -⟩ := h.oldest (mt h.full_iff.mpr hfilling)
    obtain ⟨hle, hfits⟩ := hnowrap.full hfilling _ hload
    rw [if_neg hfilling] at hcount ⊢
    rw [hload]
    refine ⟨_, rfl, rfl, rfl, rfl, rfl, ?_, ?_⟩
    · rw [List.map_cons, hnext, hcount]
      exact hring
    · rw [hsome] at hcons
      rw [BitVec.toNat_add, toNat_setWidth32, Nat.mod_eq_of_lt hfits, BitVec.toNat_sub_of_le hle, toNat_setWidth32, h.sum]
      rw [BitVec.le_def, toNat_setWidth32, h.sum] at hle
      simp only [Option.map_some, Option.getD_some] at hcons
      omega

theorem Tracks.sample (h : Tracks F raws p) (raw : BitVec 16) :
    ∃ p', p.sample F raw = some p' ∧ p'.ch = p.ch ∧ Tracks F (raw :: raws) p' := by
  obtain ⟨ring, hstore, hring⟩ := h.ring.push (toValue F p.ch raw)
  have hnext := toNat_nextIdx adcDrvRingSize (by decide) p.writeIdx
  have hcount := toNat_count adcDrvRingSize (by decide) p.count
  rw [← hnext, ← hcount] at hring
  have hmean : Sums raws { p with
      latestRaw := raw
      sampleCount := p.sampleCount + 1
      latest := toValue F p.ch raw
      ring := ring
      writeIdx := nextIdx adcDrvRingSize p.writeIdx
      count := if p.count < BitVec.ofNat 16 adcDrvRingSize then p.count + 1 else p.count } := ⟨h.mean.win, h.mean.sum⟩
  obtain ⟨p', hpush, hch, hring', hwrite, hcnt, hsums⟩ := hmean.meanPush raw
  refine ⟨p', ?_, hch, ?_, hsums⟩
  · unfold AdcDrvInst.sample
    dsimp only
    rw [hstore, Option.bind_some]
    exact hpush
  · rw [hch, hring', hwrite, hcnt, List.map_cons]
    exact hring

/-! ### What is read -/

/-- The place that a read of the ring computes, in 32 bits. -/
theorem toNat_ringIdx {idx : BitVec 16} {i : Nat} (hidx : idx.toNat < adcDrvRingSize) (hi : i < adcDrvRingSize) :
    (((idx.setWidth 32 + BitVec.ofNat 32 adcDrvRingSize - 1 - BitVec.ofNat 32 i) %
      BitVec.ofNat 32 adcDrvRingSize).setWidth 16).toNat = Ring.place adcDrvRingSize idx.toNat i := by
  have hone : (1 : BitVec 32).toNat = 1 := rfl
  simp only [Ring.place, adcDrvRingSize, BitVec.toNat_setWidth, BitVec.toNat_umod, BitVec.toNat_sub, BitVec.toNat_add,
    BitVec.toNat_ofNat, hone, Nat.reducePow, Nat.reduceMod] at hidx hi ⊢
  omega

/-- A copy out of the ring gives the newest values in order, and leaves the rest of the buffer. -/
theorem copyRing_spec {h : List Single} (hring : Ring.Holds h p.ring p.writeIdx.toNat p.count.toNat) {n : BitVec 16}
    (hn : n.toNat ≤ p.count.toNat) (buf : Nat → Single) :
    ∃ buf', p.copyRing n buf = some buf' ∧ (∀ i < n.toNat, h[i]? = some (buf' i)) ∧
      ∀ i, n.toNat ≤ i → buf' i = buf i := by
  unfold copyRing
  have hcount := hring.cnt_eq
  generalize n.toNat = k at hn
  induction k with
  | zero => exact ⟨buf, rfl, fun i hi => absurd hi (Nat.not_lt_zero i), fun _ _ => rfl⟩
  | succ k ih =>
    obtain ⟨buf', hrun, hfilled, hrest⟩ := ih (by omega)
    have hload := hring.cell k (by omega)
    have hlen : k < h.length := by omega
    rw [List.getElem?_eq_getElem hlen, ← toNat_ringIdx hring.idx_lt (by omega)] at hload
    refine ⟨Function.update buf' k h[k], ?_, fun i hi => ?_, fun i hi => ?_⟩
    · rw [List.range_succ, List.foldlM_append, hrun, Option.bind_eq_bind, Option.bind_some, List.foldlM_cons]
      simp only [hload, Option.map_some, Option.bind_eq_bind, Option.bind_some, List.foldlM_nil, Option.pure_def]
    · rcases Nat.lt_or_eq_of_le (Nat.le_of_lt_succ hi) with hlt | rfl
      · rw [Function.update_of_ne (Nat.ne_of_lt hlt)]
        exact hfilled i hlt
      · rw [Function.update_self]
        exact List.getElem?_eq_getElem hlen
    · rw [Function.update_of_ne (by omega)]
      exact hrest i (by omega)

theorem Tracks.count_eq (h : Tracks F raws p) : p.count.toNat = min raws.length adcDrvRingSize := by
  rw [h.ring.cnt_eq, List.length_map]

/-- The integer mean is the sum divided by the number of samples, rounded down. -/
theorem Sums.average_eq (h : Sums raws p) :
    p.average.toNat = recentSum raws / min raws.length adcMeanWindowSamples := by
  have hcnt : p.meanCnt.toNat = min raws.length adcMeanWindowSamples := by rw [h.win.cnt_eq, List.length_map]
  have hle : recentSum raws ≤ p.meanCnt.toNat * 65535 := by
    have hbound := recentSum_le_length raws
    rwa [hcnt]
  have hdiv : p.meanSum.toNat / p.meanCnt.toNat ≤ 65535 := by
    rw [h.sum]
    exact Nat.div_le_of_le_mul hle
  rw [average, BitVec.toNat_setWidth, BitVec.toNat_udiv, toNat_setWidth32, Nat.mod_eq_of_lt (by omega), h.sum, hcnt]

end

end AdcDrvInst

open AdcDrvInst

/-- The instances after conversions, the oldest first. -/
def adcHandle (F : Binary32) (insts : List AdcDrvInst) (conversions : List Conversion) : Option (List AdcDrvInst) :=
  conversions.foldlM (fun insts value => adcIrqHandler F value insts) insts

/-- The raw values of a channel, the newest first. -/
def samples (ch : AdcDrvCh) (conversions : List Conversion) : List (BitVec 16) :=
  conversions.reverse.map fun value => value ch.channel

/-- The mean and the ring of instance `id` show the newest of the raw values `raws`, and are ready for the next. -/
structure Exact (F : Binary32) (insts : List AdcDrvInst) (id : BitVec 8) (raws : List (BitVec 16))
    (p : AdcDrvInst) : Prop where
  sum : p.meanSum.toNat = recentSum raws
  noWrap : ∀ raw, NoWrap raw p
  average : p.average.toNat = recentSum raws / min raws.length adcMeanWindowSamples
  mean : adcGetMean F insts id = if raws = [] then zero else toValue F p.ch p.average
  ring : ∀ buf max, ∃ n buf', adcReadRing insts id buf max = some (n, buf') ∧
    n.toNat = min (min raws.length adcDrvRingSize) max.toNat ∧
    (∀ i < n.toNat, (raws.map (toValue F p.ch))[i]? = some (buf' i)) ∧ ∀ i, n.toNat ≤ i → buf' i = buf i

section
variable {F : Binary32} {insts insts' : List AdcDrvInst} {p : AdcDrvInst} {raws : List (BitVec 16)}

theorem AdcDrvInst.Tracks.exact (h : Tracks F raws p) {id : BitVec 8} (hid : insts[id.toNat]? = some p) :
    Exact F insts id raws p where
  sum := h.mean.sum
  noWrap := h.mean.noWrap
  average := h.mean.average_eq
  mean := by
    have hcnt := h.mean.win.cnt_eq
    rw [List.length_map] at hcnt
    have hempty : p.meanCnt = 0 ↔ raws = [] := by
      have hzero : (0 : BitVec 16).toNat = 0 := rfl
      rw [← List.length_eq_zero_iff, ← BitVec.toNat_inj, hcnt, hzero, adcMeanWindowSamples]
      omega
    rw [adcGetMean, hid]
    exact if_congr hempty rfl rfl
  ring buf max := by
    rw [adcReadRing, hid]
    have hcount := h.count_eq
    by_cases hmax : max = 0
    · refine ⟨0, buf, if_pos hmax, ?_, fun i hi => absurd hi (Nat.not_lt_zero i), fun _ _ => rfl⟩
      rw [hmax]
      exact (Nat.min_zero _).symm
    · have hn : (if p.count < max then p.count else max).toNat = min p.count.toNat max.toNat := by
        split <;> rename_i hlt <;> rw [BitVec.lt_def] at hlt <;> omega
      obtain ⟨buf', hrun, hfilled, hrest⟩ := copyRing_spec h.ring (hn.le.trans (Nat.min_le_left _ _)) buf
      refine ⟨_, buf', ?_, hcount ▸ hn, hfilled, hrest⟩
      dsimp only
      rw [if_neg hmax, hrun]
      rfl

/-- What the conversions have made of an instance. -/
def Handled (F : Binary32) (conversions : List Conversion) (p₀ p : AdcDrvInst) : Prop :=
  p.ch = p₀.ch ∧ Tracks F (samples p₀.ch conversions) p

theorem handled_irq {conversions : List Conversion} (value : Conversion)
    (hall : List.Forall₂ (Handled F conversions) insts insts') :
    ∃ insts'', adcIrqHandler F value insts' = some insts'' ∧
      List.Forall₂ (Handled F (conversions ++ [value])) insts insts'' := by
  induction hall with
  | nil => exact ⟨[], rfl, .nil⟩
  | cons hp hrest ih =>
    obtain ⟨insts'', hrun, hall⟩ := ih
    obtain ⟨hch, htracks⟩ := hp
    obtain ⟨p', hsample, hch', htracks'⟩ := htracks.sample (value (AdcDrvInst.ch _).channel)
    refine ⟨p' :: insts'', ?_, .cons ⟨hch'.trans hch, ?_⟩ hall⟩
    · rw [adcIrqHandler, hch, hsample, Option.bind_some, hrun]
      rfl
    · rw [samples, List.reverse_append]
      exact htracks'

theorem handled_all (hfresh : ∀ p ∈ insts, ∃ ch, p = init ch) (conversions : List Conversion) :
    ∃ insts', adcHandle F insts conversions = some insts' ∧ List.Forall₂ (Handled F conversions) insts insts' := by
  induction conversions using List.reverseRecOn with
  | nil =>
    refine ⟨insts, rfl, List.forall₂_same.mpr fun p hp => ?_⟩
    obtain ⟨ch, rfl⟩ := hfresh p hp
    exact ⟨rfl, tracks_init F ch⟩
  | append_singleton conversions value ih =>
    obtain ⟨insts', hrun, hall⟩ := ih
    obtain ⟨insts'', hirq, hall'⟩ := handled_irq value hall
    refine ⟨insts'', ?_, hall'⟩
    rw [adcHandle, List.foldlM_append]
    rw [adcHandle] at hrun
    rw [hrun]
    simp only [Option.bind_eq_bind, Option.bind_some, List.foldlM_cons, hirq, List.foldlM_nil, Option.pure_def]

/-- The instances after their initialisation are fresh. -/
theorem init_fresh {table : List AdcDrvCh} (hinit : hc32AdcInit table = .ok insts) :
    ∀ p ∈ insts, ∃ ch, p = init ch := by
  unfold hc32AdcInit at hinit
  split at hinit
  · cases hinit
  · clear * - hinit
    induction table generalizing insts with
    | nil =>
      cases hinit
      simp
    | cons cfg table ih =>
      rw [List.mapM_cons] at hinit
      cases hmap : hc32AdcChMap.find? fun map => map.1 == cfg.channel with
      | none =>
        rw [hmap] at hinit
        cases hinit
      | some map =>
        rw [hmap] at hinit
        dsimp only [Bind.bind, Except.bind] at hinit
        split at hinit
        · cases hinit
        · rename_i rest hrest
          cases hinit
          rintro p (_ | ⟨_, hp⟩)
          · exact ⟨_, rfl⟩
          · exact ih hrest p hp

/-- After any conversions the sum of each channel is that of its newest samples, its mean is rounded down, its ring
    gives back its newest values, and no access is out of bounds. -/
theorem sliding_mean_exact (F : Binary32) {table : List AdcDrvCh} (hinit : hc32AdcInit table = .ok insts)
    (conversions : List Conversion) : ∃ insts', adcHandle F insts conversions = some insts' ∧
      ∀ (id : BitVec 8) (p₀ : AdcDrvInst), insts[id.toNat]? = some p₀ →
        ∃ p, insts'[id.toNat]? = some p ∧ p.ch = p₀.ch ∧ Exact F insts' id (samples p₀.ch conversions) p := by
  obtain ⟨insts', hrun, hall⟩ := handled_all (init_fresh hinit) conversions
  refine ⟨insts', hrun, fun id p₀ hp₀ => ?_⟩
  obtain ⟨p, hp, hch, htracks⟩ : ∃ p, insts'[id.toNat]? = some p ∧ Handled F conversions p₀ p := by
    obtain ⟨hlt, hget⟩ := List.getElem?_eq_some_iff.mp hp₀
    have hlen := hall.length_eq
    refine ⟨insts'.get ⟨id.toNat, hlen ▸ hlt⟩, List.getElem?_eq_getElem _, ?_⟩
    rw [← hget]
    exact hall.get hlt (hlen ▸ hlt)
  exact ⟨p, hp, hch, htracks.exact hp⟩

/-- Raw values from 100 on, five more than the window has room for. -/
def rising : List Conversion := (List.range 25).map fun i _ => BitVec.ofNat 16 (100 + i)

/-- On the channels of the board the window has gone round, and 114.5 is rounded down. -/
theorem sliding_mean_exact_board : ∃ insts', adcHandle ieee (adcChTable.map init) rising = some insts' ∧
    ∃ p, insts'[0]? = some p ∧ p.average.toNat = 114 ∧ ∃ ch, Exact ieee insts' 0 (samples ch rising) p := by
  obtain ⟨insts', hrun, hall⟩ := @sliding_mean_exact (adcChTable.map init) ieee adcChTable rfl rising
  obtain ⟨p, hp, -, hexact⟩ := hall 0 _ rfl
  exact ⟨insts', hrun, p, hp, hexact.average, _, hexact⟩

end

end RodActuator.Adp
