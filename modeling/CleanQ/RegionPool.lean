import CleanQ.Basic

/-!
# The region pool (`region_pool.c`)

A pool maps region ids to regions through a direct-mapped table: region `rid` lives in
slot `rid & (size - 1)`. `region_pool_add_region` first rejects a capref that meets a
registered range, grows the table when it is full, then probes from
`region_offset + num_regions + last_offset` for an empty slot and takes the probe value
as the new id.

Proved here, for every pool reachable from `region_pool_init` by any sequence of
insertions and removals, each allocation succeeding or failing (`Reachable`):

* `reachable_hashed`: the size stays a power of two from 16 to `2^15`, and every occupied
  slot `i` holds a region whose id is `i` modulo the size;
* `lookup_finds_congruent_region`: a lookup of `rid` (a bounds check or a removal) finds
  the region whose id agrees with `rid` below the table mask, and a removal clears that
  slot and no other. No lookup compares the stored id, so an id that differs from a
  registered one only in its high bits is taken for that region (`lookup_accepts_alias`).

The overlap test sums `paddr + len` in `uint64_t`: a range that wraps past `2^64` passes
it (`addRegion_accepts_wrapping_overlap`). `num_regions` is counted before the slab
allocation, which may fail (`addRegion_slab_failure_counts_missing_region`).
-/

namespace CleanQ

/-- `struct region`. Its `cap` field holds the address of `region_pool_add_region`'s
by-value parameter; no function reads it back, so it is left out. -/
structure Region where
  id : RegionId
  baseAddr : UInt64
  len : UInt64
  deriving DecidableEq, Repr

/-- `struct region_pool`; the slot array `pool` is a function of the slot index. -/
structure RegionPool where
  size : UInt16
  numRegions : UInt16
  regionOffset : UInt64
  lastOffset : UInt16
  pool : Nat → Option Region

/-- `INIT_POOL_SIZE`. -/
def initPoolSize : UInt16 := 16

/-- `region_pool_init`; `rnd` is the value `rand()` returned. -/
def regionPoolInit (rnd : UInt64) : RegionPool :=
  { size := initPoolSize, numRegions := 0, regionOffset := rnd >>> 12, lastOffset := 0,
    pool := fun _ => none }

/-- The slot every lookup of `rid` reads: `rid & (pool->size - 1)`, in `unsigned int`. -/
def slotOf (p : RegionPool) (rid : RegionId) : Nat :=
  (rid &&& (p.size.toUInt32 - 1)).toNat

/-! ## Growing the table -/

/-- The rehash loop of `region_pool_grow` over the old slots `is`: each region moves to
`id & (new_size - 1)`. An empty slot is dereferenced and an index outside the new table is
written out of bounds: no next state. -/
def growRehash (old : Nat → Option Region) (newSize : UInt16) :
    List Nat → (Nat → Option Region) → Option (Nat → Option Region)
  | [], tmp => some tmp
  | i :: is, tmp =>
    match old i with
    | none => none
    | some region =>
      let index := (region.id &&& (newSize.toUInt32 - 1)).toUInt16.toNat
      if index < newSize.toNat then growRehash old newSize is (Function.update tmp index (some region))
      else none

/-- `region_pool_grow`; `callocOk` says whether `calloc` returned memory. `new_size` is a
`uint16_t`, so doubling `2^15` gives `0`. -/
def regionPoolGrow (p : RegionPool) (callocOk : Bool) : Option (Errval × RegionPool) :=
  let newSize := p.size * 2
  if callocOk then
    (growRehash p.pool newSize (List.range p.size.toNat) fun _ => none).map fun tmp =>
      (.ok, { p with pool := tmp, size := newSize, lastOffset := 0 })
  else some (.mallocFail, p)

/-- The check both insertions start with: grow once `num_regions` has reached `size`. -/
def growIfFull (p : RegionPool) (callocOk : Bool) : Option (Errval × RegionPool) :=
  if p.numRegions < p.size then some (.ok, p) else regionPoolGrow p callocOk

/-! ## Insertion, removal and lookup -/

/-- One slot of the overlap loop of `region_pool_add_region`: the same base, or neither
range ends before the other starts (sums in `uint64_t`). -/
def regionConflicts (cap : Capref) (tmp : Region) : Bool :=
  tmp.baseAddr == cap.paddr ||
    !(decide (cap.paddr + cap.len ≤ tmp.baseAddr) || decide (tmp.baseAddr + tmp.len ≤ cap.paddr))

/-- The overlap loop over slots `0 .. size - 1`; it returns at the first conflict. -/
def overlapsRegistered (p : RegionPool) (cap : Capref) : Bool :=
  (List.range p.size.toNat).any fun i => (p.pool i).any (regionConflicts cap)

/-- The slot probed at `offset`: a 64-bit sum, masked, cut to `uint16_t`. -/
def probeIndex (p : RegionPool) (offset : UInt16) : UInt16 :=
  ((p.regionOffset + p.numRegions.toUInt64 + offset.toUInt64) &&& (p.size.toUInt64 - 1)).toUInt16

/-- The `while (true)` slot search of `region_pool_add_region`. Its only changing variable
is the `uint16_t offset`, so a search that finds nothing in `2^16` probes repeats itself
for ever: `none`. -/
def findSlot (p : RegionPool) : Nat → UInt16 → Option UInt16
  | 0, _ => none
  | fuel + 1, offset =>
    if (p.pool (probeIndex p offset).toNat).isNone then some offset
    else findSlot p fuel (offset + 1)

/-- The part of `region_pool_add_region` after `pool->num_regions++`: search a slot, then
allocate the region. `slabOk` says whether `slab_alloc` returned a node. -/
def addRegionInsert (p : RegionPool) (cap : Capref) (slabOk : Bool) :
    Option (Except Errval RegionId × RegionPool) :=
  (findSlot p 65536 p.lastOffset).map fun offset =>
    if slabOk then
      let id : RegionId := (p.regionOffset + p.numRegions.toUInt64 + offset.toUInt64).toUInt32
      (.ok id, { p with lastOffset := offset,
                        pool := Function.update p.pool (slotOf p id) (some ⟨id, cap.paddr, cap.len⟩) })
    else (.error .mallocFail, { p with lastOffset := offset })

/-- `region_pool_add_region`: the assigned id, or the error, and the pool after the call. -/
def regionPoolAddRegion (p : RegionPool) (cap : Capref) (callocOk slabOk : Bool) :
    Option (Except Errval RegionId × RegionPool) :=
  if overlapsRegistered p cap then some (.error .invalidRegionArgs, p) else
  (growIfFull p callocOk).bind fun (err, p) =>
    if err = .ok then addRegionInsert { p with numRegions := p.numRegions + 1 } cap slabOk
    else some (.error err, p)

/-- The part of `region_pool_add_region_with_id` after the growth check. -/
def addRegionWithIdInsert (p : RegionPool) (cap : Capref) (rid : RegionId) (slabOk : Bool) :
    Errval × RegionPool :=
  match p.pool (slotOf p rid) with
  | some _ => (.invalidRegionId, p)
  | none =>
    if slabOk then
      (.ok, { p with pool := Function.update p.pool (slotOf p rid) (some ⟨rid, cap.paddr, cap.len⟩),
                     numRegions := p.numRegions + 1 })
    else (.mallocFail, p)

/-- `region_pool_add_region_with_id`, which mirrors a region the peer registered. -/
def regionPoolAddRegionWithId (p : RegionPool) (cap : Capref) (rid : RegionId)
    (callocOk slabOk : Bool) : Option (Errval × RegionPool) :=
  (growIfFull p callocOk).map fun (err, p) =>
    if err = .ok then addRegionWithIdInsert p cap rid slabOk else (err, p)

/-- `region_pool_remove_region`. It never writes its `cap` out-parameter. -/
def regionPoolRemoveRegion (p : RegionPool) (rid : RegionId) : Errval × RegionPool :=
  match p.pool (slotOf p rid) with
  | none => (.invalidRegionId, p)
  | some _ => (.ok, { p with pool := Function.update p.pool (slotOf p rid) none,
                             numRegions := p.numRegions - 1 })

/-- `region_pool_remove_region` with its out-parameter: the result, the pool, and `*cap` after
the call, given `*cap` before it. The body's `cap = region->cap` assigns the pointer `cap`
itself, so `*cap` keeps the caller's value. -/
def regionPoolRemoveRegionOut (p : RegionPool) (rid : RegionId) (cap : Capref) :
    Errval × RegionPool × Capref :=
  ((regionPoolRemoveRegion p rid).1, (regionPoolRemoveRegion p rid).2, cap)

/-- `region_pool_buffer_check_bounds`; both sums are `uint64_t`. -/
def regionPoolBufferCheckBounds (p : RegionPool) (rid : RegionId)
    (offset length validData validLength : Genoffset) : Bool :=
  match p.pool (slotOf p rid) with
  | none => false
  | some region => !(decide (length + offset > region.len) || decide (validData + validLength > length))

/-! ## Reachable pools -/

/-- A call on the pool, with the outcome of each allocation it makes. -/
inductive PoolOp
  | addRegion (cap : Capref) (callocOk slabOk : Bool)
  | addRegionWithId (cap : Capref) (rid : RegionId) (callocOk slabOk : Bool)
  | removeRegion (rid : RegionId)

/-- The pool after the call, whatever the call returned; `none` for a faulting call. -/
def PoolOp.apply : PoolOp → RegionPool → Option RegionPool
  | .addRegion cap c s, p => (regionPoolAddRegion p cap c s).map Prod.snd
  | .addRegionWithId cap rid c s, p => (regionPoolAddRegionWithId p cap rid c s).map Prod.snd
  | .removeRegion rid, p => some (regionPoolRemoveRegion p rid).2

/-- The pools `region_pool_init` and the three calls reach. -/
inductive Reachable : RegionPool → Prop
  | init (rnd : UInt64) : Reachable (regionPoolInit rnd)
  | step {p p' : RegionPool} (op : PoolOp) : Reachable p → op.apply p = some p' → Reachable p'

/-! ## Every occupied slot holds the region its id hashes to -/

/-- The shape of every reachable pool: `size` is `2^k` with `4 ≤ k ≤ 15`, and a region sits
below `size`, in the slot its id leaves modulo `size`. -/
structure Hashed (p : RegionPool) : Prop where
  size_pow : ∃ k, p.size.toNat = 2 ^ k ∧ 4 ≤ k ∧ k ≤ 15
  slot_lt : ∀ i r, p.pool i = some r → i < p.size.toNat
  slot_id : ∀ i r, p.pool i = some r → r.id.toNat % p.size.toNat = i

theorem mask_toNat (x : RegionId) {n : UInt16} (hn : ∃ k, n.toNat = 2 ^ k) :
    (x &&& (n.toUInt32 - 1)).toNat = x.toNat % n.toNat := by
  obtain ⟨k, hk⟩ := hn
  have hsub : (n.toUInt32 - 1).toNat = 2 ^ k - 1 := by
    have := u16_toNat_lt n; have := Nat.two_pow_pos k
    rw [u32_toNat_sub, u16_toNat_toUInt32, show (1 : UInt32).toNat = 1 from rfl]; omega
  rw [u32_toNat_land, hsub, hk, Nat.and_pow_two_sub_one_eq_mod]

theorem Hashed.slotOf_eq {p : RegionPool} (h : Hashed p) (rid : RegionId) :
    slotOf p rid = rid.toNat % p.size.toNat :=
  let ⟨k, hk, _⟩ := h.size_pow; mask_toNat rid ⟨k, hk⟩

theorem Hashed.insert {p q : RegionPool} (h : Hashed p) (rid : RegionId) (b l : UInt64)
    (hs : q.size = p.size)
    (hq : q.pool = Function.update p.pool (slotOf p rid) (some ⟨rid, b, l⟩)) : Hashed q := by
  have hpos : 0 < p.size.toNat := by
    obtain ⟨k, hk, -⟩ := h.size_pow; exact hk ▸ Nat.two_pow_pos k
  refine ⟨hs ▸ h.size_pow, fun i r hi => ?_, fun i r hi => ?_⟩ <;>
    rw [hq, Function.update_apply] at hi <;> rw [hs] <;> split at hi
  · subst_vars; rw [h.slotOf_eq]; exact Nat.mod_lt _ hpos
  · exact h.slot_lt i r hi
  · cases hi; subst_vars; exact (h.slotOf_eq rid).symm
  · exact h.slot_id i r hi

theorem Hashed.erase {p q : RegionPool} (h : Hashed p) (j : Nat)
    (hs : q.size = p.size) (hq : q.pool = Function.update p.pool j none) : Hashed q := by
  refine ⟨hs ▸ h.size_pow, fun i r hi => ?_, fun i r hi => ?_⟩ <;>
    rw [hq, Function.update_apply] at hi <;> rw [hs] <;> split at hi
  · cases hi
  · exact h.slot_lt i r hi
  · cases hi
  · exact h.slot_id i r hi

/-- Every entry of the rehashed table was an entry of the old one, moved to the index of its
id. -/
theorem growRehash_source {old : Nat → Option Region} {n : UInt16} :
    ∀ {is : List Nat} {tmp t : Nat → Option Region}, growRehash old n is tmp = some t →
      ∀ j r, t j = some r → tmp j = some r ∨
        ∃ i ∈ is, old i = some r ∧ j = (r.id &&& (n.toUInt32 - 1)).toUInt16.toNat
  | [], tmp, t, h => by cases h; exact fun j r hj => .inl hj
  | i :: is, tmp, t, h => by
    simp only [growRehash] at h
    split at h
    · cases h
    · rename_i r0 hi
      split at h
      · intro j r hj
        rcases growRehash_source h j r hj with hj | ⟨i', hi', hold, hidx⟩
        · rw [Function.update_apply] at hj
          split at hj
          · cases hj; exact .inr ⟨i, .head _, hi, ‹_›⟩
          · exact .inl hj
        · exact .inr ⟨i', .tail _ hi', hold, hidx⟩
      · cases h

/-- A table of size `0` has no slot to write: the first region faults. -/
theorem growRehash_zero_size {old : Nat → Option Region} {n : UInt16} (hn : n.toNat = 0)
    (i : Nat) (is : List Nat) (tmp : Nat → Option Region) :
    growRehash old n (i :: is) tmp = none := by
  simp only [growRehash]
  split
  · rfl
  · simp [hn]

/-- A growth either fails with `MALLOC_FAIL` and leaves the pool as it was, or succeeds and
keeps `num_regions`. -/
theorem regionPoolGrow_cases {p q : RegionPool} {c : Bool} {e : Errval}
    (hg : regionPoolGrow p c = some (e, q)) :
    (e = .mallocFail ∧ q = p) ∨ (e = .ok ∧ q.numRegions = p.numRegions) := by
  unfold regionPoolGrow at hg
  split at hg
  · obtain ⟨t, -, hq⟩ := Option.map_eq_some'.mp hg; cases hq; exact .inr ⟨rfl, rfl⟩
  · cases hg; exact .inl ⟨rfl, rfl⟩

/-- A growth that succeeds doubles a size `2^k < 2^15`, and every entry of the new table at
`j` is the region of old slot `j mod 2^k`, whose id leaves `j` modulo the new size. -/
theorem regionPoolGrow_from {p q : RegionPool} {c : Bool} {k : Nat}
    (hk : p.size.toNat = 2 ^ k) (hk15 : k ≤ 15)
    (hslot : ∀ i r, p.pool i = some r → r.id.toNat % p.size.toNat = i)
    (hg : regionPoolGrow p c = some (.ok, q)) :
    k < 15 ∧ q.size.toNat = 2 ^ (k + 1) ∧
      ∀ j r, q.pool j = some r → p.pool (j % p.size.toNat) = some r ∧ r.id.toNat % q.size.toNat = j := by
  unfold regionPoolGrow at hg
  split at hg
  · obtain ⟨t, ht, hq⟩ := Option.map_eq_some'.mp hg
    cases hq
    have hmul : (p.size * 2).toNat = 2 ^ k * 2 % 2 ^ 16 := by rw [u16_toNat_mul, hk]; rfl
    rcases Nat.lt_or_ge k 15 with hlt | hge
    · have hnew : (p.size * 2).toNat = 2 ^ (k + 1) := by
        rw [hmul, ← Nat.pow_succ]
        exact Nat.mod_eq_of_lt (Nat.pow_lt_pow_right (by omega) (by omega))
      have hS : p.size.toNat ∣ (p.size * 2).toNat := ⟨2, by rw [hnew, hk, Nat.pow_succ]⟩
      have hidx (r : Region) :
          (r.id &&& ((p.size * 2).toUInt32 - 1)).toUInt16.toNat = r.id.toNat % (p.size * 2).toNat := by
        rw [u32_toNat_toUInt16, mask_toNat _ ⟨k + 1, hnew⟩, hnew]
        exact Nat.mod_eq_of_lt (lt_of_lt_of_le (Nat.mod_lt _ (Nat.two_pow_pos _))
          (Nat.pow_le_pow_right (by omega) (by omega)))
      refine ⟨hlt, hnew, fun j r hj => ?_⟩
      rcases growRehash_source ht j r hj with hj | ⟨i, -, hold, rfl⟩
      · cases hj
      · rw [hidx, Nat.mod_mod_of_dvd _ hS, hslot i r hold]
        exact ⟨hold, rfl⟩
    · obtain rfl : k = 15 := by omega
      have hz : (p.size * 2).toNat = 0 := by rw [hmul]; rfl
      have hr : List.range p.size.toNat = 0 :: List.map Nat.succ (List.range 32767) := by
        rw [hk]; exact List.range_succ_eq_map 32767
      rw [hr, growRehash_zero_size hz] at ht
      cases ht
  · cases hg

/-- Growing doubles a size below `2^15`; doubling `2^15` wraps to `0` and faults. -/
theorem regionPoolGrow_hashed {p q : RegionPool} {c : Bool} {e : Errval} (h : Hashed p)
    (hg : regionPoolGrow p c = some (e, q)) : Hashed q := by
  rcases regionPoolGrow_cases hg with ⟨-, rfl⟩ | ⟨rfl, -⟩
  · exact h
  obtain ⟨k, hk, hk4, hk15⟩ := h.size_pow
  obtain ⟨hlt, hnew, hfrom⟩ := regionPoolGrow_from hk hk15 h.slot_id hg
  refine ⟨⟨k + 1, hnew, by omega, by omega⟩, fun j r hj => ?_, fun j r hj => (hfrom j r hj).2⟩
  rw [← (hfrom j r hj).2]
  exact Nat.mod_lt _ (hnew ▸ Nat.two_pow_pos _)

theorem growIfFull_hashed {p q : RegionPool} {c : Bool} {e : Errval} (h : Hashed p)
    (hg : growIfFull p c = some (e, q)) : Hashed q := by
  unfold growIfFull at hg
  split at hg
  · cases hg; exact h
  · exact regionPoolGrow_hashed h hg

theorem addRegionInsert_hashed {p q : RegionPool} {cap : Capref} {s : Bool}
    {res : Except Errval RegionId} (h : Hashed p) (ha : addRegionInsert p cap s = some (res, q)) :
    Hashed q := by
  obtain ⟨offset, -, hq⟩ := Option.map_eq_some'.mp ha
  split at hq <;> cases hq
  · exact h.insert _ _ _ rfl rfl
  · exact ⟨h.size_pow, h.slot_lt, h.slot_id⟩

theorem addRegion_hashed {p q : RegionPool} {cap : Capref} {c s : Bool}
    {res : Except Errval RegionId} (h : Hashed p)
    (ha : regionPoolAddRegion p cap c s = some (res, q)) : Hashed q := by
  unfold regionPoolAddRegion at ha
  split at ha
  · cases ha; exact h
  · obtain ⟨⟨e, p1⟩, hg, ha⟩ := Option.bind_eq_some.mp ha
    have h1 := growIfFull_hashed h hg
    simp only at ha
    split at ha
    · exact addRegionInsert_hashed (p := { p1 with numRegions := p1.numRegions + 1 })
        ⟨h1.size_pow, h1.slot_lt, h1.slot_id⟩ ha
    · cases ha; exact h1

theorem addRegionWithId_hashed {p q : RegionPool} {cap : Capref} {rid : RegionId} {c s : Bool}
    {e : Errval} (h : Hashed p) (ha : regionPoolAddRegionWithId p cap rid c s = some (e, q)) :
    Hashed q := by
  obtain ⟨⟨e1, p1⟩, hg, ha⟩ := Option.map_eq_some'.mp ha
  have h1 := growIfFull_hashed h hg
  simp only at ha
  split at ha
  · unfold addRegionWithIdInsert at ha
    split at ha
    · cases ha; exact h1
    · split at ha <;> cases ha
      · exact h1.insert _ _ _ rfl rfl
      · exact h1
  · cases ha; exact h1

theorem removeRegion_hashed {p : RegionPool} (h : Hashed p) (rid : RegionId) :
    Hashed (regionPoolRemoveRegion p rid).2 := by
  unfold regionPoolRemoveRegion
  split
  · exact h
  · exact h.erase _ rfl rfl

theorem reachable_hashed {p : RegionPool} (h : Reachable p) : Hashed p := by
  induction h with
  | init rnd =>
    exact ⟨⟨4, rfl, le_refl _, by omega⟩, by simp [regionPoolInit], by simp [regionPoolInit]⟩
  | step op _ hs ih =>
    cases op with
    | addRegion cap c s =>
      obtain ⟨⟨res, q⟩, ha, rfl⟩ := Option.map_eq_some'.mp hs
      exact addRegion_hashed ih ha
    | addRegionWithId cap rid c s =>
      obtain ⟨⟨e, q⟩, ha, rfl⟩ := Option.map_eq_some'.mp hs
      exact addRegionWithId_hashed ih ha
    | removeRegion rid => cases hs; exact removeRegion_hashed ih rid

/-! ## Lookups -/

theorem regionPoolBufferCheckBounds_eq_true {p : RegionPool} {rid : RegionId}
    {offset length validData validLength : Genoffset} :
    regionPoolBufferCheckBounds p rid offset length validData validLength = true ↔
      ∃ r, p.pool (slotOf p rid) = some r ∧ length + offset ≤ r.len ∧
        validData + validLength ≤ length := by
  unfold regionPoolBufferCheckBounds
  cases p.pool (slotOf p rid) <;> simp

theorem regionPoolRemoveRegion_fst_eq_ok {p : RegionPool} {rid : RegionId} :
    (regionPoolRemoveRegion p rid).1 = .ok ↔ ∃ r, p.pool (slotOf p rid) = some r := by
  unfold regionPoolRemoveRegion
  cases p.pool (slotOf p rid) <;> simp

theorem regionPoolRemoveRegion_pool (p : RegionPool) (rid : RegionId) :
    (regionPoolRemoveRegion p rid).2.pool = Function.update p.pool (slotOf p rid) none := by
  unfold regionPoolRemoveRegion
  cases h : p.pool (slotOf p rid)
  · exact (Function.update_eq_self_iff.mpr h.symm :
      Function.update p.pool (slotOf p rid) none = p.pool).symm
  · rfl

/-- The slot of `rid` holds `r` exactly when `r` is registered with an id congruent to
`rid` modulo the size. -/
theorem Hashed.slot_iff {p : RegionPool} (h : Hashed p) (rid : RegionId) (r : Region) :
    p.pool (slotOf p rid) = some r ↔
      ∃ i, p.pool i = some r ∧ r.id.toNat % p.size.toNat = rid.toNat % p.size.toNat := by
  constructor
  · intro hr; exact ⟨_, hr, (h.slot_id _ _ hr).trans (h.slotOf_eq rid)⟩
  · rintro ⟨i, hi, hid⟩
    rwa [h.slotOf_eq, ← hid, h.slot_id i r hi]

theorem lookup_finds_congruent_region {p : RegionPool} (h : Reachable p) (rid : RegionId)
    (offset length validData validLength : Genoffset) :
    (regionPoolBufferCheckBounds p rid offset length validData validLength = true ↔
      ∃ i r, p.pool i = some r ∧ r.id.toNat % p.size.toNat = rid.toNat % p.size.toNat ∧
        length + offset ≤ r.len ∧ validData + validLength ≤ length) ∧
    ((regionPoolRemoveRegion p rid).1 = .ok ↔
      ∃ i r, p.pool i = some r ∧ r.id.toNat % p.size.toNat = rid.toNat % p.size.toNat) ∧
    (regionPoolRemoveRegion p rid).2.pool =
      Function.update p.pool (rid.toNat % p.size.toNat) none := by
  have hh := reachable_hashed h
  refine ⟨regionPoolBufferCheckBounds_eq_true.trans ?_, regionPoolRemoveRegion_fst_eq_ok.trans ?_,
    hh.slotOf_eq rid ▸ regionPoolRemoveRegion_pool p rid⟩
  · simp only [hh.slot_iff]
    exact ⟨fun ⟨r, ⟨i, hi⟩, hb⟩ => ⟨i, r, hi.1, hi.2, hb⟩,
      fun ⟨i, r, hi, hid, hb⟩ => ⟨r, ⟨i, hi, hid⟩, hb⟩⟩
  · simp only [hh.slot_iff]
    exact ⟨fun ⟨r, i, hi⟩ => ⟨i, r, hi⟩, fun ⟨i, r, hi⟩ => ⟨r, i, hi⟩⟩

/-- The pool after `region_pool_init` with `rand() = 0` and one registration, of id `1`. -/
def poolOfOneRegion : RegionPool :=
  { size := 16, numRegions := 1, regionOffset := 0, lastOffset := 0,
    pool := Function.update (fun _ => none) 1 (some ⟨1, 0x10000, 4096⟩) }

theorem poolOfOneRegion_reachable : Reachable poolOfOneRegion :=
  .step (.addRegion ⟨0, 0x10000, 4096⟩ true true) (.init 0) rfl

theorem lookup_finds_congruent_region_alias :
    Reachable poolOfOneRegion ∧
    ((regionPoolBufferCheckBounds poolOfOneRegion 17 0 1 0 1 = true ↔
      ∃ i r, poolOfOneRegion.pool i = some r ∧
        r.id.toNat % poolOfOneRegion.size.toNat = (17 : RegionId).toNat % poolOfOneRegion.size.toNat ∧
        1 + 0 ≤ r.len ∧ 0 + 1 ≤ (1 : Genoffset)) ∧
    ((regionPoolRemoveRegion poolOfOneRegion 17).1 = .ok ↔
      ∃ i r, poolOfOneRegion.pool i = some r ∧
        r.id.toNat % poolOfOneRegion.size.toNat = (17 : RegionId).toNat % poolOfOneRegion.size.toNat) ∧
    (regionPoolRemoveRegion poolOfOneRegion 17).2.pool =
      Function.update poolOfOneRegion.pool ((17 : RegionId).toNat % poolOfOneRegion.size.toNat) none) :=
  ⟨poolOfOneRegion_reachable, lookup_finds_congruent_region poolOfOneRegion_reachable 17 0 1 0 1⟩

/-- Region `1` is registered; id `17 = 1 + 16` is accepted by both lookups as region `1`. -/
theorem lookup_accepts_alias :
    ∃ p, Reachable p ∧ regionPoolBufferCheckBounds p 17 0 1 0 1 = true ∧
      (regionPoolRemoveRegion p 17).1 = .ok ∧ ∀ i r, p.pool i = some r → r.id ≠ 17 := by
  refine ⟨poolOfOneRegion, poolOfOneRegion_reachable, by decide, by decide, ?_⟩
  intro i r hi
  simp only [poolOfOneRegion, Function.update_apply, ite_eq_iff] at hi
  rcases hi with ⟨-, hi⟩ | ⟨-, hi⟩
  · rw [← Option.some.inj hi]; decide
  · cases hi

/-! ## Two defects of `region_pool_add_region` -/

/-- Region `1` covers `[2^64 - 4096, 2^64 + 4096)`; its end wraps to `4096`, below the
second base, so `[2^64 - 2048, 2^64 - 1024)` is accepted inside it. -/
theorem addRegion_accepts_wrapping_overlap :
    ∃ p q, regionPoolAddRegion (regionPoolInit 0) ⟨0, 0xFFFFFFFFFFFFF000, 8192⟩ true true =
        some (.ok 1, p) ∧
      regionPoolAddRegion p ⟨0, 0xFFFFFFFFFFFFF800, 1024⟩ true true = some (.ok 2, q) ∧
      q.pool 1 = some ⟨1, 0xFFFFFFFFFFFFF000, 8192⟩ ∧ q.pool 2 = some ⟨2, 0xFFFFFFFFFFFFF800, 1024⟩ :=
  ⟨_, _, rfl, rfl, by decide, by decide⟩

/-- A failed slab allocation leaves `num_regions` counting a region no slot holds. -/
theorem addRegion_slab_failure_counts_missing_region :
    ∃ q, regionPoolAddRegion (regionPoolInit 0) ⟨0, 0x10000, 4096⟩ true false =
        some (.error .mallocFail, q) ∧ q.numRegions = 1 ∧ ∀ i, q.pool i = none :=
  ⟨_, rfl, by decide, fun _ => rfl⟩

/-! ## A defect of `region_pool_remove_region` -/

/-- Register `c` (id `1`), then remove it with the caller's capref zeroed: the removal
succeeds and leaves no region, and adding `c` again gives id `1` once more, but the
caller's capref is still zero: `c` is not handed back. -/
theorem removeRegion_leaves_cap_unwritten :
    regionPoolAddRegion (regionPoolInit 0) ⟨0, 0x10000, 4096⟩ true true = some (.ok 1, poolOfOneRegion) ∧
    regionPoolRemoveRegionOut poolOfOneRegion 1 ⟨0, 0, 0⟩ =
      (.ok, (regionPoolRemoveRegion poolOfOneRegion 1).2, ⟨0, 0, 0⟩) ∧
    (⟨0, 0, 0⟩ : Capref) ≠ ⟨0, 0x10000, 4096⟩ ∧
    (∀ i, (regionPoolRemoveRegion poolOfOneRegion 1).2.pool i = none) ∧
    (regionPoolAddRegion (regionPoolRemoveRegion poolOfOneRegion 1).2 ⟨0, 0x10000, 4096⟩ true true).map
      Prod.fst = some (.ok 1) := by
  refine ⟨rfl, rfl, by decide, fun i => ?_, rfl⟩
  rw [regionPoolRemoveRegion_pool, show slotOf poolOfOneRegion 1 = 1 by decide]
  simp [poolOfOneRegion, Function.update_idem, Function.update_apply]

end CleanQ
