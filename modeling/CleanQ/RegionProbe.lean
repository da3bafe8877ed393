import Mathlib.Data.List.Nodup
import CleanQ.RegionLifetime

/-!
# The slot search of `region_pool_add_region` ends

`region_pool_add_region` searches for a free slot with `while (true)`, probing
`(region_offset + num_regions + offset) & (size - 1)` for `offset = last_offset,
last_offset + 1, ...`, a `uint16_t` that wraps past `65535`. The size divides `2^16`, so
consecutive offsets probe consecutive slots modulo the size, across the wrap
(`probeIndex_toNat`): the search visits every slot within `size` probes.

Proved here: from any pool whose size is a power of two up to `2^15`, whose slots hold the
regions their ids hash to, and which counts at least as many regions as it has occupied
slots, the growth check leaves a free slot (`growIfFull_free_slot`), so the search stops
within `size` probes at that slot, and the id it assigns hashes to it
(`addRegion_probe_terminates`). Every reachable pool counts so (`reachable_counted`), so
from a reachable pool `region_pool_add_region` can fault only inside `region_pool_grow`
(`reachable_addRegion_faults_only_in_grow`). Removing a region just added and adding it
again gives back the same id and the same pool (`addRegion_remove_readd`). The id it assigns
is fresh: no region registered before has it, every lookup of it finds the new region, and
every region registered before is still found (`addRegion_assigns_fresh_id`).
-/

namespace CleanQ

/-- The number of occupied slots below `size`. -/
def RegionPool.occupied (p : RegionPool) : Nat :=
  ((List.range p.size.toNat).filter fun i => (p.pool i).isSome).length

/-- Fewer occupied slots than slots: one of them is free. -/
theorem RegionPool.exists_free_of_occupied_lt {p : RegionPool} (h : p.occupied < p.size.toNat) :
    ∃ e < p.size.toNat, p.pool e = none := by
  by_contra hall
  push_neg at hall
  have hfull : (List.range p.size.toNat).filter (fun i => (p.pool i).isSome) = List.range p.size.toNat :=
    List.filter_eq_self.mpr fun i hi => Option.isSome_iff_ne_none.mpr (hall i (List.mem_range.mp hi))
  rw [RegionPool.occupied, hfull, List.length_range] at h
  exact Nat.lt_irrefl _ h

/-! ## Consecutive offsets probe consecutive slots -/

section Probe

variable {p : RegionPool} {k : Nat}

/-- A residue modulo `n` of a residue modulo a multiple of `n`. -/
theorem mod_add_mod_of_dvd {n m : Nat} (h : n ∣ m) (x c : Nat) : (x % m + c) % n = (x + c) % n := by
  rw [Nat.add_mod, Nat.mod_mod_of_dvd _ h, ← Nat.add_mod]

/-- The probed slot is the 64-bit sum modulo the size, wrap of the offset included. -/
theorem probeIndex_toNat (hk : p.size.toNat = 2 ^ k) (hk15 : k ≤ 15) (offset : UInt16) :
    (probeIndex p offset).toNat =
      (p.regionOffset.toNat + p.numRegions.toNat + offset.toNat) % p.size.toNat := by
  have hdvd : p.size.toNat ∣ 2 ^ 64 := hk ▸ Nat.pow_dvd_pow 2 (by omega)
  have hle : p.size.toNat ≤ 2 ^ 15 := hk ▸ Nat.pow_le_pow_right (by omega) hk15
  have hpos : 0 < p.size.toNat := hk ▸ Nat.two_pow_pos k
  have hmask : (p.size.toUInt64 - 1).toNat = p.size.toNat - 1 := by
    rw [u64_toNat_sub, u16_toNat_toUInt64, show (1 : UInt64).toNat = 1 from rfl]; omega
  rw [probeIndex, u64_toNat_toUInt16, u64_toNat_land, hmask, land_pred_eq_mod ⟨k, hk⟩,
    u64_toNat_add, u64_toNat_add, Nat.mod_mod_of_dvd _ hdvd, mod_add_mod_of_dvd hdvd]
  simp only [u16_toNat_toUInt64]
  exact Nat.mod_eq_of_lt (lt_of_lt_of_le (Nat.mod_lt _ hpos) (by omega))

/-- The id the search's offset gives hashes to the slot probed at that offset. -/
theorem slotOf_probe_id (hk : p.size.toNat = 2 ^ k) (hk15 : k ≤ 15) (offset : UInt16) :
    slotOf p (p.regionOffset + p.numRegions.toUInt64 + offset.toUInt64).toUInt32 =
      (probeIndex p offset).toNat := by
  have hdvd : p.size.toNat ∣ 2 ^ 32 := hk ▸ Nat.pow_dvd_pow 2 (by omega)
  have hdvd64 : p.size.toNat ∣ 2 ^ 64 := hk ▸ Nat.pow_dvd_pow 2 (by omega)
  rw [slotOf, mask_toNat _ ⟨k, hk⟩, probeIndex_toNat hk hk15, u64_toNat_toUInt32,
    Nat.mod_mod_of_dvd _ hdvd, u64_toNat_add, u64_toNat_add, Nat.mod_mod_of_dvd _ hdvd64,
    mod_add_mod_of_dvd hdvd64]
  simp only [u16_toNat_toUInt64]

/-- The probe `i` offsets past `offset` reads slot `(base + i) mod size`. -/
theorem probeIndex_add (hk : p.size.toNat = 2 ^ k) (hk15 : k ≤ 15) (offset : UInt16) (i : Nat) :
    (probeIndex p (offset + i.toUInt16)).toNat =
      (p.regionOffset.toNat + p.numRegions.toNat + offset.toNat + i) % p.size.toNat := by
  have hdvd : p.size.toNat ∣ 2 ^ 16 := hk ▸ Nat.pow_dvd_pow 2 (by omega)
  rw [probeIndex_toNat hk hk15, u16_toNat_add, nat_toNat_toUInt16, Nat.add_mod_mod,
    Nat.add_comm _ ((offset.toNat + i) % _), mod_add_mod_of_dvd hdvd]
  congr 1
  omega

end Probe

/-- Every residue is reached by adding fewer than `n` to `b`. -/
theorem exists_add_mod_eq {n e : Nat} (b : Nat) (he : e < n) : ∃ j < n, (b + j) % n = e := by
  have hb := Nat.mod_lt b (lt_of_le_of_lt (Nat.zero_le e) he)
  have hdiv := Nat.div_add_mod b n
  rcases Nat.lt_or_ge e (b % n) with hlt | hge
  · refine ⟨e + n - b % n, by omega, ?_⟩
    rw [show b + (e + n - b % n) = e + n * (b / n + 1) by rw [Nat.mul_add]; omega,
      Nat.add_mul_mod_self_left, Nat.mod_eq_of_lt he]
  · refine ⟨e - b % n, by omega, ?_⟩
    rw [show b + (e - b % n) = e + n * (b / n) by omega, Nat.add_mul_mod_self_left,
      Nat.mod_eq_of_lt he]

theorem u16_add_toUInt16_zero (offset : UInt16) : offset + (0 : Nat).toUInt16 = offset :=
  u16_eq_iff.mpr (by simp only [u16_toNat_add, nat_toNat_toUInt16]; have := u16_toNat_lt offset; omega)

theorem u16_add_one_add_toUInt16 (offset : UInt16) (i : Nat) :
    offset + 1 + i.toUInt16 = offset + (i + 1).toUInt16 :=
  u16_eq_iff.mpr (by simp only [u16_toNat_add, nat_toNat_toUInt16, show (1 : UInt16).toNat = 1 from rfl]; omega)

/-- The search stops at the first free slot it probes, as long as one of the probes within
its fuel finds one. -/
theorem findSlot_of_free {p : RegionPool} :
    ∀ {fuel : Nat} {offset : UInt16} {j : Nat}, j < fuel →
      p.pool (probeIndex p (offset + j.toUInt16)).toNat = none →
      ∃ k ≤ j, findSlot p fuel offset = some (offset + k.toUInt16) ∧
        (∀ i < k, p.pool (probeIndex p (offset + i.toUInt16)).toNat ≠ none) ∧
        p.pool (probeIndex p (offset + k.toUInt16)).toNat = none
  | 0, _, _, hj, _ => absurd hj (Nat.not_lt_zero _)
  | fuel + 1, offset, j, hj, hfree => by
    by_cases h0 : p.pool (probeIndex p offset).toNat = none
    · refine ⟨0, Nat.zero_le _, ?_, fun i hi => absurd hi (Nat.not_lt_zero _), by
        rwa [u16_add_toUInt16_zero]⟩
      simp only [findSlot, h0, Option.isNone_none, if_true, u16_add_toUInt16_zero]
    · obtain _ | j := j
      · rw [u16_add_toUInt16_zero] at hfree; exact absurd hfree h0
      rw [← u16_add_one_add_toUInt16] at hfree
      obtain ⟨k, hk, hfind, hbefore, hk0⟩ := findSlot_of_free (by omega : j < fuel) hfree
      refine ⟨k + 1, by omega, ?_, fun i hi => ?_, by rwa [← u16_add_one_add_toUInt16]⟩
      · simp only [findSlot, Option.isNone_iff_eq_none, h0, if_false, hfind, u16_add_one_add_toUInt16]
      · rcases i with _ | i
        · rwa [u16_add_toUInt16_zero]
        · rw [← u16_add_one_add_toUInt16]; exact hbefore i (by omega)

/-! ## The growth check leaves a free slot -/

/-- Growing leaves slot `0` or slot `2^k` free: the region of old slot `0` is the only one
either can receive, and its id puts it in one of them. -/
theorem regionPoolGrow_free_slot {p q : RegionPool} {c : Bool} {k : Nat}
    (hk : p.size.toNat = 2 ^ k) (hk15 : k ≤ 15)
    (hslot : ∀ i r, p.pool i = some r → r.id.toNat % p.size.toNat = i)
    (hg : regionPoolGrow p c = some (.ok, q)) :
    (∃ k ≤ 15, q.size.toNat = 2 ^ k) ∧ ∃ e < q.size.toNat, q.pool e = none := by
  obtain ⟨hlt, hnew, hfrom⟩ := regionPoolGrow_from hk hk15 hslot hg
  refine ⟨⟨k + 1, by omega, hnew⟩, ?_⟩
  have hlt2 : p.size.toNat < q.size.toNat := by
    rw [hnew, hk, Nat.pow_succ]; have := Nat.two_pow_pos k; omega
  by_cases h0 : q.pool 0 = none
  · exact ⟨0, lt_of_le_of_lt (Nat.zero_le _) hlt2, h0⟩
  · obtain ⟨r, hr⟩ := Option.ne_none_iff_exists'.mp h0
    refine ⟨p.size.toNat, hlt2, ?_⟩
    by_contra hS0
    obtain ⟨r', hr'⟩ := Option.ne_none_iff_exists'.mp hS0
    obtain ⟨h1, h2⟩ := hfrom 0 r hr
    obtain ⟨h1', h2'⟩ := hfrom _ r' hr'
    rw [Nat.zero_mod] at h1
    rw [Nat.mod_self, h1] at h1'
    cases h1'
    omega

/-- From a pool that counts at least its occupied slots, the growth check either faults or
leaves a table of power-of-two size with a free slot. -/
theorem growIfFull_free_slot {p q : RegionPool} {c : Bool} (hsize : ∃ k ≤ 15, p.size.toNat = 2 ^ k)
    (hcount : p.occupied ≤ p.numRegions.toNat)
    (hslot : ∀ i r, p.pool i = some r → r.id.toNat % p.size.toNat = i)
    (hg : growIfFull p c = some (.ok, q)) :
    (∃ k ≤ 15, q.size.toNat = 2 ^ k) ∧ ∃ e < q.size.toNat, q.pool e = none := by
  obtain ⟨k, hk15, hk⟩ := hsize
  unfold growIfFull at hg
  split at hg
  · cases hg
    exact ⟨⟨k, hk15, hk⟩, RegionPool.exists_free_of_occupied_lt (by rw [u16_lt_iff] at *; omega)⟩
  · exact regionPoolGrow_free_slot hk hk15 hslot hg

/-! ## Reachable pools count at least their occupied slots

`num_regions` grows with every insertion and shrinks with every removal, but
`region_pool_add_region` counts a region whose allocation then fails. So it need not equal
the number of occupied slots, but it never falls below it, and never exceeds the size. -/

/-- Changing one slot of a table changes the count of occupied slots by what that slot held
and what it now holds. -/
theorem filter_update_length {f : Nat → Option Region} {j : Nat} {v : Option Region} :
    ∀ {l : List Nat}, l.Nodup → j ∈ l →
      (l.filter fun i => (Function.update f j v i).isSome).length + (f j).isSome.toNat =
        (l.filter fun i => (f i).isSome).length + v.isSome.toNat
  | [], _, hj => absurd hj (List.not_mem_nil _)
  | a :: l, hnd, hj => by
    rw [List.nodup_cons] at hnd
    by_cases ha : a = j
    · subst ha
      have hl : l.filter (fun i => (Function.update f a v i).isSome) = l.filter (fun i => (f i).isSome) :=
        List.filter_congr fun i hi => by rw [Function.update_noteq (fun (h : i = a) => hnd.1 (h ▸ hi))]
      simp only [List.filter_cons, Function.update_same, hl]
      cases v.isSome <;> cases (f a).isSome <;> simp
    · have ih := filter_update_length (f := f) (v := v) hnd.2 ((List.mem_cons.mp hj).resolve_left (Ne.symm ha))
      simp only [List.filter_cons, Function.update_noteq ha]
      rcases Bool.eq_false_or_eq_true (f a).isSome with hfa | hfa <;>
        simp only [hfa, Bool.false_eq_true, ↓reduceIte, List.length_cons] <;> omega

theorem RegionPool.occupied_update {p q : RegionPool} {j : Nat} {v : Option Region}
    (hs : q.size = p.size) (hq : q.pool = Function.update p.pool j v) (hj : j < p.size.toNat) :
    q.occupied + (p.pool j).isSome.toNat = p.occupied + v.isSome.toNat := by
  unfold RegionPool.occupied
  rw [hs, hq]
  exact filter_update_length (List.nodup_range _) (List.mem_range.mpr hj)

theorem RegionPool.occupied_le_size (p : RegionPool) : p.occupied ≤ p.size.toNat :=
  (List.length_filter_le _ _).trans (List.length_range _).le

/-- A table grown from one of size `S` has at most `S` occupied slots: its entry at `j` is
the old entry at `j mod S`, and two slots with the same old entry are the same slot. -/
theorem regionPoolGrow_occupied {p q : RegionPool} {c : Bool} {k : Nat}
    (hk : p.size.toNat = 2 ^ k) (hk15 : k ≤ 15)
    (hslot : ∀ i r, p.pool i = some r → r.id.toNat % p.size.toNat = i)
    (hg : regionPoolGrow p c = some (.ok, q)) : q.occupied ≤ p.size.toNat := by
  obtain ⟨-, -, hfrom⟩ := regionPoolGrow_from hk hk15 hslot hg
  have hpos : 0 < p.size.toNat := hk ▸ Nat.two_pow_pos k
  have hsome : ∀ j ∈ (List.range q.size.toNat).filter (fun i => (q.pool i).isSome),
      ∃ r, q.pool j = some r := fun j hj => Option.isSome_iff_exists.mp (List.mem_filter.mp hj).2
  have hinj : List.Nodup (((List.range q.size.toNat).filter (fun i => (q.pool i).isSome)).map
      (· % p.size.toNat)) := by
    refine List.Nodup.map_on (fun x hx y hy hxy => ?_) ((List.nodup_range _).filter _)
    obtain ⟨r, hr⟩ := hsome x hx
    obtain ⟨r', hr'⟩ := hsome y hy
    obtain ⟨h1, h2⟩ := hfrom x r hr
    obtain ⟨h1', h2'⟩ := hfrom y r' hr'
    rw [hxy, h1'] at h1
    cases h1
    rw [← h2, h2']
  have hsub := (List.subperm_of_subset hinj fun j hj => by
    obtain ⟨i, -, rfl⟩ := List.mem_map.mp hj
    exact List.mem_range.mpr (Nat.mod_lt _ hpos)).length_le
  rw [List.length_map, List.length_range] at hsub
  exact hsub

/-- What every reachable pool keeps: `num_regions` counts at least the occupied slots and at
most the size. -/
structure Counted (p : RegionPool) : Prop where
  occupied_le : p.occupied ≤ p.numRegions.toNat
  numRegions_le : p.numRegions.toNat ≤ p.size.toNat

/-- The growth check keeps the count, and when it lets the insertion go on there is room for
one more region. -/
theorem Counted.grow {p q : RegionPool} {c : Bool} {e : Errval} (h : Hashed p) (hc : Counted p)
    (hg : growIfFull p c = some (e, q)) : Counted q ∧ (e = .ok → q.numRegions.toNat < q.size.toNat) := by
  unfold growIfFull at hg
  split at hg
  · cases hg; exact ⟨hc, fun _ => by rwa [u16_lt_iff] at *⟩
  rename_i hfull
  rcases regionPoolGrow_cases hg with ⟨rfl, rfl⟩ | ⟨rfl, hq⟩
  · exact ⟨hc, fun h => by cases h⟩
  obtain ⟨k, hk, -, hk15⟩ := h.size_pow
  obtain ⟨-, hnew, -⟩ := regionPoolGrow_from hk hk15 h.slot_id hg
  have hocc := regionPoolGrow_occupied hk hk15 h.slot_id hg
  have hnr : p.numRegions.toNat = p.size.toNat := by
    rw [u16_lt_iff] at hfull; have := hc.numRegions_le; omega
  have : p.size.toNat < q.size.toNat := by rw [hnew, Nat.pow_succ, ← hk]; have := h.size_pos; omega
  exact ⟨⟨by rw [hq]; omega, by rw [hq]; omega⟩, fun _ => by rw [hq]; omega⟩

theorem Hashed.slotOf_lt {p : RegionPool} (h : Hashed p) (rid : RegionId) :
    slotOf p rid < p.size.toNat :=
  h.slotOf_eq rid ▸ Nat.mod_lt _ h.size_pos

theorem regionPoolInit_counted (rnd : UInt64) : Counted (regionPoolInit rnd) :=
  ⟨by simp [RegionPool.occupied, regionPoolInit], by simp [regionPoolInit, initPoolSize]⟩

/-- One more counted region, with at most one more occupied slot, keeps the count of a table
that had room for it. -/
theorem Counted.succ {p q : RegionPool} (hc : Counted p) (hlt : p.numRegions.toNat < p.size.toNat)
    (hs : q.size = p.size) (hocc : q.occupied ≤ p.occupied + 1)
    (hn : q.numRegions = p.numRegions + 1) : Counted q := by
  have hnr : q.numRegions.toNat = p.numRegions.toNat + 1 := by
    rw [hn, u16_toNat_add, show (1 : UInt16).toNat = 1 from rfl]
    exact Nat.mod_eq_of_lt (by have := u16_toNat_lt p.size; omega)
  have := hc.occupied_le
  exact ⟨by omega, by rw [hs]; omega⟩

/-- Writing a region into a slot below `size` adds at most one occupied slot. -/
theorem RegionPool.occupied_write {p q : RegionPool} {j : Nat} {r : Region} (hs : q.size = p.size)
    (hq : q.pool = Function.update p.pool j (some r)) (hj : j < p.size.toNat) :
    q.occupied ≤ p.occupied + 1 := by
  have := RegionPool.occupied_update hs hq hj
  simp only [Option.isSome_some, Bool.toNat_true] at this
  omega

/-- The insertion after `num_regions++` writes at most one slot. -/
theorem addRegionInsert_counted {p q : RegionPool} {cap : Capref} {s : Bool}
    {res : Except Errval RegionId} (h : Hashed p) (hc : Counted p)
    (hlt : p.numRegions.toNat < p.size.toNat)
    (ha : addRegionInsert { p with numRegions := p.numRegions + 1 } cap s = some (res, q)) :
    Counted q := by
  obtain ⟨offset, -, hq⟩ := Option.map_eq_some'.mp ha
  split at hq <;> cases hq
  · exact hc.succ hlt rfl (RegionPool.occupied_write rfl rfl (h.slotOf_lt _)) rfl
  · exact hc.succ hlt rfl (Nat.le_succ _) rfl

theorem addRegion_counted {p q : RegionPool} {cap : Capref} {c s : Bool}
    {res : Except Errval RegionId} (h : Hashed p) (hc : Counted p)
    (ha : regionPoolAddRegion p cap c s = some (res, q)) : Counted q := by
  unfold regionPoolAddRegion at ha
  split at ha
  · cases ha; exact hc
  · obtain ⟨⟨e, p1⟩, hg, ha⟩ := Option.bind_eq_some.mp ha
    obtain ⟨hc1, hroom⟩ := hc.grow h hg
    simp only at ha
    split at ha
    · exact addRegionInsert_counted (growIfFull_hashed h hg) hc1 (hroom ‹_›) ha
    · cases ha; exact hc1

theorem addRegionWithId_counted {p q : RegionPool} {cap : Capref} {rid : RegionId} {c s : Bool}
    {e : Errval} (h : Hashed p) (hc : Counted p)
    (ha : regionPoolAddRegionWithId p cap rid c s = some (e, q)) : Counted q := by
  obtain ⟨⟨e1, p1⟩, hg, ha⟩ := Option.map_eq_some'.mp ha
  obtain ⟨hc1, hroom⟩ := hc.grow h hg
  simp only at ha
  split at ha
  · have hlt := hroom ‹_›
    unfold addRegionWithIdInsert at ha
    split at ha
    · cases ha; exact hc1
    · split at ha <;> cases ha
      · exact hc1.succ hlt rfl
          (RegionPool.occupied_write rfl rfl ((growIfFull_hashed h hg).slotOf_lt rid)) rfl
      · exact hc1
  · cases ha; exact hc1

/-- Removal empties an occupied slot and counts one region less; `num_regions` is then at
least one, so it does not wrap. -/
theorem removeRegion_counted {p : RegionPool} (h : Hashed p) (hc : Counted p) (rid : RegionId) :
    Counted (regionPoolRemoveRegion p rid).2 := by
  rcases hr : p.pool (slotOf p rid) with _ | r
  · simpa only [regionPoolRemoveRegion, hr] using hc
  · have hocc := RegionPool.occupied_update (regionPoolRemoveRegion_size rid)
      (regionPoolRemoveRegion_pool p rid) (h.slotOf_lt rid)
    have hn : (regionPoolRemoveRegion p rid).2.numRegions = p.numRegions - 1 := by
      simp only [regionPoolRemoveRegion, hr]
    simp only [hr, Option.isSome_some, Option.isSome_none, Bool.toNat_true, Bool.toNat_false] at hocc
    have := hc.occupied_le
    have := hc.numRegions_le
    have hsub : (p.numRegions - 1).toNat = p.numRegions.toNat - 1 := by
      rw [u16_toNat_sub, show (1 : UInt16).toNat = 1 from rfl]
      have := u16_toNat_lt p.numRegions
      rw [show 2 ^ 16 - 1 + p.numRegions.toNat = p.numRegions.toNat - 1 + 2 ^ 16 by omega,
        Nat.add_mod_right]
      exact Nat.mod_eq_of_lt (by omega)
    exact ⟨by rw [hn, hsub]; omega, by rw [hn, hsub, regionPoolRemoveRegion_size]; omega⟩

theorem PoolOp.apply_counted {p q : RegionPool} {op : PoolOp} (h : Hashed p) (hc : Counted p)
    (hop : op.apply p = some q) : Counted q := by
  cases op with
  | addRegion cap c s =>
    obtain ⟨⟨res, q⟩, ha, rfl⟩ := Option.map_eq_some'.mp hop
    exact addRegion_counted h hc ha
  | addRegionWithId cap rid c s =>
    obtain ⟨⟨e, q⟩, ha, rfl⟩ := Option.map_eq_some'.mp hop
    exact addRegionWithId_counted h hc ha
  | removeRegion rid => cases hop; exact removeRegion_counted h hc rid

/-- Every reachable pool counts at least its occupied slots and at most its size. -/
theorem reachable_counted {p : RegionPool} (h : Reachable p) : Counted p := by
  induction h with
  | init rnd => exact regionPoolInit_counted rnd
  | step op hp hs ih => exact PoolOp.apply_counted (reachable_hashed hp) ih hs

/-! ## The search ends within `size` probes -/

/-- After a growth check that lets the insertion go on, the search at any pool with the
grown table (the pool after `num_regions++`) stops within `size` probes at a free slot. -/
theorem growIfFull_findSlot {p q : RegionPool} {c : Bool} (hsize : ∃ k ≤ 15, p.size.toNat = 2 ^ k)
    (hcount : p.occupied ≤ p.numRegions.toNat)
    (hmod : ∀ i reg, p.pool i = some reg → reg.id.toNat % p.size.toNat = i)
    (hg : growIfFull p c = some (.ok, q)) {r : RegionPool} (hrs : r.size = q.size)
    (hrp : r.pool = q.pool) :
    (∃ k ≤ 15, r.size.toNat = 2 ^ k) ∧
      ∃ k < r.size.toNat, findSlot r 65536 r.lastOffset = some (r.lastOffset + k.toUInt16) ∧
        (∀ i < k, r.pool (probeIndex r (r.lastOffset + i.toUInt16)).toNat ≠ none) ∧
        r.pool (probeIndex r (r.lastOffset + k.toUInt16)).toNat = none := by
  obtain ⟨⟨k, hk15, hk⟩, e, he, hfree⟩ := growIfFull_free_slot hsize hcount hmod hg
  rw [← hrs] at hk he
  rw [← hrp] at hfree
  have hle : r.size.toNat ≤ 2 ^ 15 := hk ▸ Nat.pow_le_pow_right (by omega) hk15
  obtain ⟨j, hj, hje⟩ := exists_add_mod_eq
    (r.regionOffset.toNat + r.numRegions.toNat + r.lastOffset.toNat) he
  obtain ⟨k', hk', hfind, hbefore, hk0⟩ := findSlot_of_free (by omega : j < 65536)
    (show r.pool (probeIndex r (r.lastOffset + j.toUInt16)).toNat = none by
      rw [probeIndex_add hk hk15, hje]; exact hfree)
  exact ⟨⟨k, hk15, hk⟩, k', by omega, hfind, hbefore, hk0⟩

/-- Take a pool whose size is a power of two up to `2^15`, whose occupied slots hold regions
that hash to them, and that counts at least its occupied slots. Whenever
`region_pool_add_region` passes the growth check and reaches the search (at the pool `r`,
after `num_regions++`), the search stops after `k < size` occupied probes at a free slot,
even across the wrap of the `uint16_t` offset, and the id it assigns hashes to that slot. -/
theorem addRegion_probe_terminates {p q r : RegionPool} {c : Bool}
    (hsize : ∃ k ≤ 15, p.size.toNat = 2 ^ k) (hcount : p.occupied ≤ p.numRegions.toNat)
    (hslot : ∀ i reg, p.pool i = some reg → (reg.id &&& (p.size.toUInt32 - 1)).toNat = i)
    (hg : growIfFull p c = some (.ok, q)) (hr : r = { q with numRegions := q.numRegions + 1 }) :
    ∃ k < r.size.toNat, findSlot r 65536 r.lastOffset = some (r.lastOffset + k.toUInt16) ∧
      (∀ i < k, r.pool (probeIndex r (r.lastOffset + i.toUInt16)).toNat ≠ none) ∧
      r.pool (probeIndex r (r.lastOffset + k.toUInt16)).toNat = none ∧
      slotOf r (r.regionOffset + r.numRegions.toUInt64 + (r.lastOffset + k.toUInt16).toUInt64).toUInt32 =
        (probeIndex r (r.lastOffset + k.toUInt16)).toNat := by
  have hmod : ∀ i reg, p.pool i = some reg → reg.id.toNat % p.size.toNat = i := by
    obtain ⟨k, -, hk⟩ := hsize
    exact fun i reg h => (mask_toNat reg.id ⟨k, hk⟩).symm.trans (hslot i reg h)
  obtain ⟨⟨k, hk15, hk⟩, k', hk', hfind, hbefore, hk0⟩ :=
    growIfFull_findSlot hsize hcount hmod hg (r := r) (by rw [hr]) (by rw [hr])
  exact ⟨k', hk', hfind, hbefore, hk0, slotOf_probe_id hk hk15 _⟩

/-- The pool of one region with the last search stopped at offset `65535`: the first probe
lands on region `1`, and the offset wraps to `0` for the second, which finds slot `2`. -/
theorem addRegion_probe_terminates_after_wrap :
    ∃ r : RegionPool, r = { { poolOfOneRegion with lastOffset := 65535 } with
        numRegions := poolOfOneRegion.numRegions + 1 } ∧
      r.pool (probeIndex r 65535).toNat ≠ none ∧ findSlot r 65536 65535 = some 0 ∧
    ∃ k < r.size.toNat, findSlot r 65536 r.lastOffset = some (r.lastOffset + k.toUInt16) ∧
      (∀ i < k, r.pool (probeIndex r (r.lastOffset + i.toUInt16)).toNat ≠ none) ∧
      r.pool (probeIndex r (r.lastOffset + k.toUInt16)).toNat = none ∧
      slotOf r (r.regionOffset + r.numRegions.toUInt64 + (r.lastOffset + k.toUInt16).toUInt64).toUInt32 =
        (probeIndex r (r.lastOffset + k.toUInt16)).toNat := by
  have hslot : ∀ i reg, poolOfOneRegion.pool i = some reg →
      (reg.id &&& (poolOfOneRegion.size.toUInt32 - 1)).toNat = i := by
    intro i reg h
    simp only [poolOfOneRegion, Function.update_apply] at h
    split at h
    · cases h; subst_vars; rfl
    · cases h
  exact ⟨_, rfl, by decide, rfl,
    addRegion_probe_terminates (p := { poolOfOneRegion with lastOffset := 65535 })
      (q := { poolOfOneRegion with lastOffset := 65535 }) ⟨4, by decide, rfl⟩ (by decide) hslot
      (c := true) rfl rfl⟩

/-- From every reachable pool, `region_pool_add_region` returns unless it faults inside
`region_pool_grow`: its slot search always ends. -/
theorem reachable_addRegion_faults_only_in_grow {p : RegionPool} (h : Reachable p) (cap : Capref)
    (c s : Bool) : regionPoolAddRegion p cap c s ≠ none ∨ growIfFull p c = none := by
  refine or_iff_not_imp_left.mpr fun hnone => ?_
  rw [not_not] at hnone
  obtain ⟨⟨k, hk, -, hk15⟩, -, hslot⟩ := reachable_hashed h
  unfold regionPoolAddRegion at hnone
  split at hnone
  · cases hnone
  rcases hg : growIfFull p c with _ | ⟨e, q⟩
  · rfl
  rw [hg, Option.some_bind] at hnone
  simp only at hnone
  split at hnone
  · subst e
    obtain ⟨-, k', -, hfind, -⟩ := growIfFull_findSlot ⟨k, hk15, hk⟩
      (reachable_counted h).occupied_le hslot hg (r := { q with numRegions := q.numRegions + 1 }) rfl rfl
    simp [addRegionInsert, hfind] at hnone
  · cases hnone

/-- The pool after regions `1` and `2` were added to a fresh pool with `rand() = 0` and
region `1` was removed: `num_regions` is back to `1`, so the next search of
`region_pool_add_region` starts at slot `2`, which region `2` holds. -/
def poolAfterRemoval : RegionPool :=
  { size := 16, numRegions := 1, regionOffset := 0, lastOffset := 0,
    pool := Function.update (Function.update (Function.update (fun _ => none) 1
      (some ⟨1, 0x10000, 4096⟩)) 2 (some ⟨2, 0x20000, 4096⟩)) 1 none }

theorem poolAfterRemoval_reachable : Reachable poolAfterRemoval :=
  .step (.removeRegion 1)
    (.step (.addRegion ⟨0, 0x20000, 4096⟩ true true) poolOfOneRegion_reachable rfl) rfl

/-- The third registration: its first probe collides with region `2`. -/
theorem addRegion_faults_only_in_grow_after_collision :
    Reachable poolAfterRemoval ∧
      poolAfterRemoval.pool (probeIndex { poolAfterRemoval with numRegions := 2 } 0).toNat ≠
        none ∧
      (regionPoolAddRegion poolAfterRemoval ⟨0, 0x30000, 4096⟩ true true ≠ none ∨
        growIfFull poolAfterRemoval true = none) :=
  ⟨poolAfterRemoval_reachable, by decide,
    reachable_addRegion_faults_only_in_grow poolAfterRemoval_reachable _ _ _⟩

/-! ## Removing a region just added

`region_pool_remove_region` empties exactly the slot the insertion filled and counts one
region less, and the next search resumes at the offset the last one stopped at. So a
region removed right after it was added is added again under the same id, into the same
pool. -/

theorem u16_add_one_sub_one (a : UInt16) : a + 1 - 1 = a :=
  u16_eq_iff.mpr (by
    rw [u16_toNat_sub, u16_toNat_add, show (1 : UInt16).toNat = 1 from rfl]
    have := u16_toNat_lt a
    omega)

/-- A table whose regions all come from another one overlaps no capability the other does
not. -/
theorem overlapsRegistered_eq_false_of_sub {p q : RegionPool} {cap : Capref}
    (hsub : ∀ j r, q.pool j = some r → ∃ i < p.size.toNat, p.pool i = some r)
    (hov : overlapsRegistered p cap = false) : overlapsRegistered q cap = false := by
  simp only [overlapsRegistered, List.any_eq_false, List.mem_range] at hov ⊢
  intro j _
  rcases hj : q.pool j with _ | r
  · simp
  · obtain ⟨i, hi, hpi⟩ := hsub j r hj
    simpa only [hpi] using hov i hi

/-- Growing moves regions and adds none, so the growth check keeps a capability clear of
every region. -/
theorem growIfFull_overlaps {p q : RegionPool} {c : Bool} {cap : Capref} (h : Hashed p)
    (hg : growIfFull p c = some (.ok, q)) (hov : overlapsRegistered p cap = false) :
    overlapsRegistered q cap = false := by
  unfold growIfFull at hg
  split at hg
  · cases hg; exact hov
  · obtain ⟨k, hk, -, hk15⟩ := h.size_pow
    obtain ⟨-, -, hfrom⟩ := regionPoolGrow_from hk hk15 h.slot_id hg
    exact overlapsRegistered_eq_false_of_sub
      (fun j r hj => ⟨_, Nat.mod_lt _ h.size_pos, (hfrom j r hj).1⟩) hov

/-- What a `region_pool_add_region` that returned an id did: it found no overlap, passed the
growth check at `q`, found a free slot at `offset` and put the region under the id the
offset gives. -/
theorem addRegion_ok_cases {p p1 : RegionPool} {cap : Capref} {c s : Bool} {rid : RegionId}
    (ha : regionPoolAddRegion p cap c s = some (.ok rid, p1)) :
    overlapsRegistered p cap = false ∧ s = true ∧ ∃ q offset, growIfFull p c = some (.ok, q) ∧
      findSlot { q with numRegions := q.numRegions + 1 } 65536 q.lastOffset = some offset ∧
      rid = (q.regionOffset + (q.numRegions + 1).toUInt64 + offset.toUInt64).toUInt32 ∧
      p1 = { q with numRegions := q.numRegions + 1, lastOffset := offset,
                    pool := Function.update q.pool (slotOf q rid) (some ⟨rid, cap.paddr, cap.len⟩) } := by
  unfold regionPoolAddRegion at ha
  split at ha
  · cases ha
  rename_i hov
  obtain ⟨⟨e, q⟩, hg, ha⟩ := Option.bind_eq_some.mp ha
  simp only at ha
  split at ha
  · subst e
    obtain ⟨offset, hf, hq⟩ := Option.map_eq_some'.mp ha
    split at hq
    · cases hq
      exact ⟨by simpa using hov, ‹_›, q, offset, hg, hf, rfl, rfl⟩
    · cases hq
  · cases ha

/-- The slot a successful `region_pool_add_region` writes was free after the growth check:
the probe found it free, and it is the slot of the id the probe's offset gives. -/
theorem addRegion_slot_free {p q : RegionPool} {c : Bool} {offset : UInt16} {rid : RegionId}
    (h : Hashed p) (hg : growIfFull p c = some (.ok, q))
    (hf : findSlot { q with numRegions := q.numRegions + 1 } 65536 q.lastOffset = some offset)
    (hrid : rid = (q.regionOffset + (q.numRegions + 1).toUInt64 + offset.toUInt64).toUInt32) :
    q.pool (slotOf q rid) = none := by
  have hH : Hashed q := growIfFull_hashed h hg
  have hslot : (probeIndex { q with numRegions := q.numRegions + 1 } offset).toNat = slotOf q rid := by
    rw [hrid]
    exact Hashed.probeIndex_eq (p := { q with numRegions := q.numRegions + 1 })
      ⟨hH.size_pow, hH.slot_lt, hH.slot_id⟩ offset
  have hprobe := findSlot_free hf
  rwa [← hslot]

/-- From a reachable pool, removing the region an insertion just added, then adding the same
capability again, gives back the same id and the same pool, whatever the allocation of the
second call would do. -/
theorem addRegion_remove_readd {p p1 : RegionPool} {cap : Capref} {c : Bool} {rid : RegionId}
    (h : Reachable p) (ha : regionPoolAddRegion p cap c true = some (.ok rid, p1)) (c' : Bool) :
    (regionPoolRemoveRegion p1 rid).1 = .ok ∧
      regionPoolAddRegion (regionPoolRemoveRegion p1 rid).2 cap c' true = some (.ok rid, p1) := by
  obtain ⟨hov, -, q, offset, hg, hf, hrid, hp1⟩ := addRegion_ok_cases ha
  have hroom := ((reachable_counted h).grow (reachable_hashed h) hg).2 rfl
  have hprobe := findSlot_free hf
  have hfree := addRegion_slot_free (reachable_hashed h) hg hf hrid
  have hback : Function.update q.pool (slotOf q rid) none = q.pool :=
    Function.update_eq_self_iff.mpr hfree.symm
  have hs1 : slotOf p1 rid = slotOf q rid := by rw [hp1]; rfl
  have hrem : regionPoolRemoveRegion p1 rid = (.ok, { q with lastOffset := offset }) := by
    rw [regionPoolRemoveRegion, hs1, hp1]
    simp only [Function.update_same, Function.update_idem, hback, u16_add_one_sub_one]
  obtain ⟨k, hk0, hfind, -⟩ :=
    @findSlot_of_free { q with numRegions := q.numRegions + 1, lastOffset := offset } 65536 offset 0
      (by decide) (by rw [u16_add_toUInt16_zero]; exact hprobe)
  obtain rfl : k = 0 := Nat.le_zero.mp hk0
  rw [u16_add_toUInt16_zero] at hfind
  refine ⟨by rw [hrem], ?_⟩
  have hov' : overlapsRegistered { q with lastOffset := offset } cap = false :=
    growIfFull_overlaps (q := q) (reachable_hashed h) hg hov
  rw [hrem, hp1, hrid]
  simp only [regionPoolAddRegion, hov', growIfFull, u16_lt_iff, hroom, if_true, Option.some_bind,
    addRegionInsert, hfind, Option.map_some', Bool.false_eq_true, ↓reduceIte]
  rfl

/-- Region `3`, added past the collision with region `2`, removed, and added again with
`calloc` failing: no growth is needed, so the same id and pool come back. -/
theorem addRegion_remove_readd_after_collision :
    ∃ p1, regionPoolAddRegion poolAfterRemoval ⟨0, 0x30000, 4096⟩ true true = some (.ok 3, p1) ∧
      Reachable poolAfterRemoval ∧ (regionPoolRemoveRegion p1 3).1 = .ok ∧
      regionPoolAddRegion (regionPoolRemoveRegion p1 3).2 ⟨0, 0x30000, 4096⟩ false true =
        some (.ok 3, p1) := by
  refine ⟨_, rfl, poolAfterRemoval_reachable, ?_⟩
  exact @addRegion_remove_readd poolAfterRemoval _ ⟨0, 0x30000, 4096⟩ true 3
    poolAfterRemoval_reachable (by rfl) false

/-! ## The id `region_pool_add_region` assigns is fresh -/

/-- On a reachable pool, when `region_pool_add_region` returns an id, no region registered
before has that id, every lookup of the id finds the new region, and every region registered
before is still found under its own id. -/
theorem addRegion_assigns_fresh_id {p p1 : RegionPool} {cap : Capref} {c s : Bool}
    {rid : RegionId} (h : Reachable p) (ha : regionPoolAddRegion p cap c s = some (.ok rid, p1)) :
    p1.Resolves ⟨rid, cap.paddr, cap.len⟩ ∧
      ∀ i reg, p.pool i = some reg → reg.id ≠ rid ∧ p1.Resolves reg := by
  obtain ⟨-, -, q, offset, hg, hf, hrid, hp1⟩ := addRegion_ok_cases ha
  have hH := reachable_hashed h
  have hfree := addRegion_slot_free hH hg hf hrid
  have hs : slotOf p1 rid = slotOf q rid := by rw [hp1]; rfl
  refine ⟨by rw [RegionPool.Resolves, hs, hp1]; exact Function.update_same _ _ _,
    fun i reg hi => ?_⟩
  have hr : p.Resolves reg := by rwa [RegionPool.Resolves, hH.slotOf_eq, hH.slot_id i reg hi]
  refine ⟨fun heq => ?_, PoolOp.apply_resolves hH hr
    (show PoolOp.apply (.addRegion cap c s) p = some p1 by rw [PoolOp.apply, ha]; rfl) nofun⟩
  -- the slot of `rid` was free after the growth check, the slot of `reg.id` was not
  have hrq := growIfFull_resolves hH hr hg
  rw [RegionPool.Resolves, heq, hfree] at hrq
  cases hrq

/-- Region `3`, added past the collision with region `2`: region `2` keeps its id and its
slot. -/
theorem addRegion_assigns_fresh_id_after_collision :
    ∃ p1, regionPoolAddRegion poolAfterRemoval ⟨0, 0x30000, 4096⟩ true true = some (.ok 3, p1) ∧
      Reachable poolAfterRemoval ∧ p1.Resolves ⟨3, 0x30000, 4096⟩ ∧
      ∀ i reg, poolAfterRemoval.pool i = some reg → reg.id ≠ 3 ∧ p1.Resolves reg := by
  refine ⟨_, rfl, poolAfterRemoval_reachable, ?_⟩
  exact @addRegion_assigns_fresh_id poolAfterRemoval _ ⟨0, 0x30000, 4096⟩ true true 3
    poolAfterRemoval_reachable (by rfl)

end CleanQ
