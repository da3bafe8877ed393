import CleanQ.RegionPool

/-!
# A registered region stays until its slot is cleared

In a pool of the shape `Hashed`, a region that sits in the slot of its own id is still found
there after any call but the removal of an id in the same slot: growing rehashes it into
the slot of its id in the bigger table, `region_pool_add_region` fills only a slot its probe
found empty, and `region_pool_add_region_with_id` refuses an occupied slot.

Proved here:

* `PoolOp.apply_resolves`: the step lemma for every call on the pool;
* `regionPoolAddRegionWithId_resolves`: a mirror insert that returns `OK` leaves the pool
  resolving the id to the new region;
* `regionPoolGrow_rehashes_all`: growing a full table below `2^15` slots does not fault, and
  the doubled table holds exactly the regions of the old one.
-/

namespace CleanQ

/-- Every lookup of `r.id` finds `r`. -/
def RegionPool.Resolves (p : RegionPool) (r : Region) : Prop :=
  p.pool (slotOf p r.id) = some r

variable {p q : RegionPool} {reg : Region}

theorem Hashed.size_pos (h : Hashed p) : 0 < p.size.toNat :=
  let ⟨k, hk, _⟩ := h.size_pow; hk ▸ Nat.two_pow_pos k

theorem slotOf_of_size_eq (hs : q.size = p.size) (rid : RegionId) : slotOf q rid = slotOf p rid := by
  unfold slotOf; rw [hs]

/-- A pool that resolves `reg` resolves it after any change of other slots. -/
theorem RegionPool.Resolves.update (hr : p.Resolves reg) {j : Nat} {v : Option Region}
    (hj : j ≠ slotOf p reg.id) (hs : q.size = p.size) (hq : q.pool = Function.update p.pool j v) :
    q.Resolves reg := by
  unfold RegionPool.Resolves; rw [slotOf_of_size_eq hs, hq, Function.update_noteq hj.symm]; exact hr

/-! ## Removal -/

theorem regionPoolRemoveRegion_size (rid : RegionId) : (regionPoolRemoveRegion p rid).2.size = p.size := by
  unfold regionPoolRemoveRegion; split <;> rfl

theorem removeRegion_resolves (hr : p.Resolves reg) {rid : RegionId}
    (hne : slotOf p rid ≠ slotOf p reg.id) : (regionPoolRemoveRegion p rid).2.Resolves reg :=
  hr.update hne (regionPoolRemoveRegion_size rid) (regionPoolRemoveRegion_pool p rid)

/-! ## Growth -/

/-- With a power-of-two size, the rehash index of an id, cut to `uint16_t`, is its slot. -/
theorem Hashed.rehash_index (h : Hashed q) (rid : RegionId) :
    (rid &&& (q.size.toUInt32 - 1)).toUInt16.toNat = slotOf q rid := by
  obtain ⟨k, hk, -, hk15⟩ := h.size_pow
  rw [u32_toNat_toUInt16]
  apply Nat.mod_eq_of_lt
  show slotOf q rid < _
  rw [h.slotOf_eq, hk]
  exact lt_of_lt_of_le (Nat.mod_lt _ (Nat.two_pow_pos k))
    (Nat.pow_le_pow_right (by omega) (by omega))

/-- The rehash loop leaves `reg` at index `x` if it was there or is still to be moved
there, and no other region of the old table is moved to `x`. -/
theorem growRehash_keeps {old : Nat → Option Region} {n : UInt16} {x : Nat} :
    ∀ {is : List Nat} {tmp t : Nat → Option Region}, growRehash old n is tmp = some t →
      (∀ i ∈ is, ∀ r, old i = some r → (r.id &&& (n.toUInt32 - 1)).toUInt16.toNat = x →
        r = reg) →
      (tmp x = some reg ∨
        ∃ i ∈ is, old i = some reg ∧ (reg.id &&& (n.toUInt32 - 1)).toUInt16.toNat = x) →
      t x = some reg
  | [], tmp, t, h, _, hx => by cases h; simpa using hx
  | i :: is, tmp, t, h, huniq, hx => by
    simp only [growRehash] at h
    split at h
    · cases h
    · rename_i r hi
      split at h
      · refine growRehash_keeps h (fun j hj => huniq j (.tail _ hj)) ?_
        rw [Function.update_apply]
        split
        · rename_i hxi; exact .inl (by rw [huniq i (.head _) r hi hxi.symm])
        · rename_i hxi
          rcases hx with hx | ⟨j, hj, hoj, hidx⟩
          · exact .inl hx
          · rcases List.mem_cons.mp hj with rfl | hj
            · rw [hi] at hoj; cases hoj; exact absurd hidx.symm hxi
            · exact .inr ⟨j, hj, hoj, hidx⟩
      · cases h

/-- A growth that does not fault doubles the size. -/
theorem regionPoolGrow_size {e : Errval} (h : Hashed p) (hg : regionPoolGrow p true = some (e, q)) :
    q.size.toNat = 2 * p.size.toNat := by
  obtain ⟨t, -, ht⟩ := Option.map_eq_some'.mp hg
  cases ht
  obtain ⟨k, hk, -, hk15⟩ := h.size_pow
  obtain ⟨-, hnew, -⟩ := regionPoolGrow_from hk hk15 h.slot_id hg
  rw [hnew, hk, Nat.pow_succ, Nat.mul_comm]

theorem regionPoolGrow_resolves {c : Bool} {e : Errval} (h : Hashed p) (hr : p.Resolves reg)
    (hg : regionPoolGrow p c = some (e, q)) : q.Resolves reg := by
  cases c
  · cases hg; exact hr
  have hq := regionPoolGrow_hashed h hg
  have hsize := regionPoolGrow_size h hg
  obtain ⟨t, ht, hqt⟩ := Option.map_eq_some'.mp hg
  cases hqt
  have hidx := hq.rehash_index
  have hdvd : p.size.toNat ∣ (p.size * 2).toNat := ⟨2, by rw [hsize.trans (Nat.mul_comm _ _)]⟩
  refine growRehash_keeps ht (fun i _ r hi hx => ?_) (.inr ⟨_, List.mem_range.mpr
    (h.slot_lt _ _ hr), hr, hidx reg.id⟩)
  have hsl : slotOf p r.id = slotOf p reg.id := by
    rw [h.slotOf_eq, h.slotOf_eq, ← Nat.mod_mod_of_dvd r.id.toNat hdvd,
      ← Nat.mod_mod_of_dvd reg.id.toNat hdvd]
    have := (hidx r.id).symm.trans hx
    rw [hq.slotOf_eq, hq.slotOf_eq] at this
    exact congrArg (· % p.size.toNat) this
  rw [← h.slot_id i r hi, ← h.slotOf_eq, hsl] at hi
  exact Option.some.inj (hi.symm.trans hr)

theorem growIfFull_resolves {c : Bool} {e : Errval} (h : Hashed p) (hr : p.Resolves reg)
    (hg : growIfFull p c = some (e, q)) : q.Resolves reg := by
  unfold growIfFull at hg
  split at hg
  · cases hg; exact hr
  · exact regionPoolGrow_resolves h hr hg

/-- The rehash loop does not fault when every slot it moves is occupied and every index it
computes lies inside the new table. -/
theorem growRehash_isSome {old : Nat → Option Region} {n : UInt16} :
    ∀ {is : List Nat} (tmp : Nat → Option Region),
      (∀ i ∈ is, ∃ r, old i = some r ∧ (r.id &&& (n.toUInt32 - 1)).toUInt16.toNat < n.toNat) →
      (growRehash old n is tmp).isSome
  | [], _, _ => rfl
  | i :: is, tmp, h => by
    obtain ⟨r, hr, hlt⟩ := h i (.head _)
    simp only [growRehash, hr, if_pos hlt]
    exact growRehash_isSome _ fun j hj => h j (.tail _ hj)

/-- `region_pool_grow` on a pool of the shape `Hashed` whose slots are all occupied and whose
size is below `2^15`, with `calloc` succeeding, does not fault: it returns `OK`, doubles the
size, and the new table holds exactly the regions of the old one. -/
theorem regionPoolGrow_rehashes_all (h : Hashed p) (hfull : ∀ i < p.size.toNat, (p.pool i).isSome)
    (hsmall : p.size.toNat < 2 ^ 15) :
    ∃ q, regionPoolGrow p true = some (.ok, q) ∧ q.size.toNat = 2 * p.size.toNat ∧
      ∀ r, (∃ i, p.pool i = some r) ↔ ∃ j, q.pool j = some r := by
  obtain ⟨k, hk, -, hk15⟩ := h.size_pow
  have hk' : k < 15 := by
    by_contra hge
    have := Nat.pow_le_pow_right (show 0 < 2 by decide) (Nat.le_of_not_lt hge)
    omega
  have hnew : (p.size * 2).toNat = 2 ^ (k + 1) := by
    rw [u16_toNat_mul, hk, show (2 : UInt16).toNat = 2 from rfl, ← Nat.pow_succ]
    exact Nat.mod_eq_of_lt (Nat.pow_lt_pow_right (by decide) (by omega))
  -- every old slot holds a region, and its new index is its id modulo the new size
  have hsome : (growRehash p.pool (p.size * 2) (List.range p.size.toNat) fun _ => none).isSome :=
    growRehash_isSome _ fun i hi => by
      obtain ⟨r, hr⟩ := Option.isSome_iff_exists.mp (hfull i (List.mem_range.mp hi))
      refine ⟨r, hr, ?_⟩
      rw [u32_toNat_toUInt16, mask_toNat _ ⟨k + 1, hnew⟩, hnew]
      exact lt_of_le_of_lt (Nat.mod_le _ _) (Nat.mod_lt _ (Nat.two_pow_pos _))
  obtain ⟨t, ht⟩ := Option.isSome_iff_exists.mp hsome
  have hg : regionPoolGrow p true =
      some (.ok, { p with pool := t, size := p.size * 2, lastOffset := 0 }) := by
    simp only [regionPoolGrow, if_true, ht, Option.map_some']
  refine ⟨_, hg, regionPoolGrow_size h hg, fun r => ⟨fun ⟨i, hi⟩ => ?_, fun ⟨j, hj⟩ => ?_⟩⟩
  · have hr : p.Resolves r := by rwa [RegionPool.Resolves, h.slotOf_eq, h.slot_id i r hi]
    exact ⟨_, regionPoolGrow_resolves h hr hg⟩
  · exact ⟨_, ((regionPoolGrow_from hk hk15 h.slot_id hg).2.2 j r hj).1⟩

/-- A full table of `16` slots, region `i` of `4096` bytes in slot `i`: the pool
`region_pool_add_region` grows next. -/
def poolOfSixteen : RegionPool :=
  { size := 16, numRegions := 16, regionOffset := 0, lastOffset := 15,
    pool := fun i => if i < 16 then some ⟨i.toUInt32, 4096 * i.toUInt64, 4096⟩ else none }

theorem poolOfSixteen_hashed : Hashed poolOfSixteen where
  size_pow := ⟨4, rfl, le_rfl, by decide⟩
  slot_lt i r h := by
    simp only [poolOfSixteen] at h
    split at h
    · exact ‹i < 16›
    · cases h
  slot_id i r h := by
    simp only [poolOfSixteen] at h
    split at h
    · cases h
      show i % 2 ^ 32 % 16 = i
      omega
    · cases h

/-- The full table of `16` slots grows to `32` and keeps its sixteen regions. -/
theorem regionPoolGrow_rehashes_sixteen :
    Hashed poolOfSixteen ∧ (∀ i < poolOfSixteen.size.toNat, (poolOfSixteen.pool i).isSome) ∧
      poolOfSixteen.size.toNat < 2 ^ 15 ∧
      ∃ q, regionPoolGrow poolOfSixteen true = some (.ok, q) ∧
        q.size.toNat = 2 * poolOfSixteen.size.toNat ∧
        ∀ r, (∃ i, poolOfSixteen.pool i = some r) ↔ ∃ j, q.pool j = some r :=
  have hfull : ∀ i < poolOfSixteen.size.toNat, (poolOfSixteen.pool i).isSome := fun i hi => by
    simp only [poolOfSixteen, if_pos (show i < 16 from hi), Option.isSome_some]
  ⟨poolOfSixteen_hashed, hfull, by decide,
    regionPoolGrow_rehashes_all poolOfSixteen_hashed hfull (by decide)⟩

/-! ## Insertion -/

theorem findSlot_free : ∀ {fuel : Nat} {off o : UInt16}, findSlot p fuel off = some o →
    p.pool (probeIndex p o).toNat = none
  | 0, _, _, h => by cases h
  | _ + 1, _, _, h => by
    simp only [findSlot] at h
    split at h
    · cases h; exact Option.isNone_iff_eq_none.mp ‹_›
    · exact findSlot_free h

/-- The probed slot is the slot of the id the probe's offset gives. -/
theorem Hashed.probeIndex_eq (h : Hashed p) (offset : UInt16) :
    (probeIndex p offset).toNat =
      slotOf p (p.regionOffset + p.numRegions.toUInt64 + offset.toUInt64).toUInt32 := by
  obtain ⟨k, hk, -, hk15⟩ := h.size_pow
  have hpos := h.size_pos
  have hle : p.size.toNat ≤ 2 ^ 15 := hk ▸ Nat.pow_le_pow_right (by omega) hk15
  have hmask : (p.size.toUInt64 - 1).toNat = p.size.toNat - 1 := by
    rw [u64_toNat_sub, u16_toNat_toUInt64, show (1 : UInt64).toNat = 1 from rfl]; omega
  have hdvd : p.size.toNat ∣ 2 ^ 32 := by rw [hk]; exact Nat.pow_dvd_pow 2 (by omega)
  have hlt := Nat.mod_lt (p.regionOffset + p.numRegions.toUInt64 + offset.toUInt64).toNat hpos
  rw [h.slotOf_eq, u64_toNat_toUInt32, Nat.mod_mod_of_dvd _ hdvd, probeIndex, u64_toNat_toUInt16,
    u64_toNat_land, hmask, land_pred_eq_mod ⟨k, hk⟩]
  exact Nat.mod_eq_of_lt (by omega)

theorem addRegionInsert_resolves {cap : Capref} {s : Bool} {res : Except Errval RegionId}
    (h : Hashed p) (hr : p.Resolves reg) (ha : addRegionInsert p cap s = some (res, q)) :
    q.Resolves reg := by
  obtain ⟨offset, hf, hq⟩ := Option.map_eq_some'.mp ha
  split at hq <;> cases hq
  · refine hr.update (fun heq => ?_) rfl rfl
    have hfree := findSlot_free hf
    rw [h.probeIndex_eq, heq, hr] at hfree
    cases hfree
  · exact hr

theorem addRegionWithIdInsert_resolves {cap : Capref} {rid : RegionId} {s : Bool}
    (hr : p.Resolves reg) : (addRegionWithIdInsert p cap rid s).2.Resolves reg := by
  unfold addRegionWithIdInsert
  split
  · exact hr
  · rename_i hfree
    split
    · exact hr.update (fun heq => by rw [heq, hr] at hfree; cases hfree) rfl rfl
    · exact hr

/-- Any call on the pool keeps a resolved region unless it removes an id in its slot. -/
theorem PoolOp.apply_resolves {op : PoolOp} (h : Hashed p) (hr : p.Resolves reg)
    (hop : op.apply p = some q)
    (hspare : ∀ rid, op = .removeRegion rid → slotOf p rid ≠ slotOf p reg.id) :
    q.Resolves reg := by
  cases op with
  | addRegion cap c s =>
    obtain ⟨⟨res, q⟩, ha, rfl⟩ := Option.map_eq_some'.mp hop
    unfold regionPoolAddRegion at ha
    split at ha
    · cases ha; exact hr
    · obtain ⟨⟨e, p1⟩, hg, ha⟩ := Option.bind_eq_some.mp ha
      have h1 := growIfFull_resolves h hr hg
      simp only at ha
      split at ha
      · have h2 : Hashed { p1 with numRegions := p1.numRegions + 1 } :=
          let hH := growIfFull_hashed h hg; ⟨hH.size_pow, hH.slot_lt, hH.slot_id⟩
        have h1' : RegionPool.Resolves { p1 with numRegions := p1.numRegions + 1 } reg := h1
        exact addRegionInsert_resolves h2 h1' ha
      · cases ha; exact h1
  | addRegionWithId cap rid c s =>
    obtain ⟨⟨res, q⟩, ha, rfl⟩ := Option.map_eq_some'.mp hop
    obtain ⟨⟨e, p1⟩, hg, ha⟩ := Option.map_eq_some'.mp ha
    have h1 := growIfFull_resolves h hr hg
    simp only at ha
    split at ha
    · rw [show q = (addRegionWithIdInsert p1 cap rid s).2 by rw [ha]]
      exact addRegionWithIdInsert_resolves h1
    · cases ha; exact h1
  | removeRegion rid => cases hop; exact removeRegion_resolves hr (hspare rid rfl)

theorem PoolOp.apply_hashed {op : PoolOp} (h : Hashed p) (hop : op.apply p = some q) :
    Hashed q := by
  cases op with
  | addRegion cap c s =>
    obtain ⟨⟨e, q⟩, ha, rfl⟩ := Option.map_eq_some'.mp hop
    exact addRegion_hashed h ha
  | addRegionWithId cap rid c s =>
    obtain ⟨⟨e, q⟩, ha, rfl⟩ := Option.map_eq_some'.mp hop
    exact addRegionWithId_hashed h ha
  | removeRegion rid => cases hop; exact removeRegion_hashed h rid

/-- A mirror insert that returns `OK` has put the region under the peer's id. -/
theorem regionPoolAddRegionWithId_resolves {cap : Capref} {rid : RegionId} {c s : Bool}
    (ha : regionPoolAddRegionWithId p cap rid c s = some (.ok, q)) :
    q.Resolves ⟨rid, cap.paddr, cap.len⟩ := by
  obtain ⟨⟨e, p1⟩, -, ha⟩ := Option.map_eq_some'.mp ha
  simp only at ha
  split at ha
  · unfold addRegionWithIdInsert at ha
    split at ha
    · cases ha
    · split at ha <;> cases ha
      exact Function.update_same _ _ _
  · cases ha; contradiction

end CleanQ
