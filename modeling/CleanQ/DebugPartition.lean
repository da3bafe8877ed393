import CleanQ.DebugOwnership

/-!
# The debug queue over the loopback queue partitions a region

A client that registered one region hands out blocks of one size at multiples of that size
and takes them back. `Partitioned` is what the debug queue over the loopback queue then
keeps: every byte of the region is owned by the debug list or held by exactly one
descriptor in the ring, never both. `debug_loopback_partitions_region` proves it after every
run of such a client, together with the absence of `BUFFER_NOT_IN_USE` replies. Each call is
one step lemma, citing the spec lemmas of `remove_split_buffer` and `insert_merge_buffer`;
with the blocks aligned, the lower-boundary test of `insert_merge_buffer` only meets ranges
that start at the end of the last node. On a partitioned stack, `debug_deregister` drops the
region exactly when no block is in flight (`debug_loopback_deregister_waits_for_blocks`), and
`debug_enqueue` refuses every range that shares a byte with a block in flight
(`debug_loopback_refuses_in_flight_bytes`).
-/

namespace CleanQ

/-- A descriptor is a block of region `rid` of `len` bytes: `sz > 0` bytes at a multiple of
`sz`, inside the region. -/
def IsBlock (rid : RegionId) (len : Genoffset) (sz : Nat) (b : CleanqBuf) : Prop :=
  b.rid = rid ∧ b.length.toNat = sz ∧ 0 < sz ∧ sz ∣ b.offset.toNat ∧
    b.offset.toNat + sz ≤ len.toNat

instance (rid : RegionId) (len : Genoffset) (sz : Nat) : DecidablePred (IsBlock rid len sz) :=
  fun _ => inferInstanceAs (Decidable (_ ∧ _ ∧ _ ∧ _ ∧ _))

/-- A call of a client that hands out blocks of `sz` bytes of region `rid`: a nonempty
enqueue, which for `rid` is `sz` bytes at a multiple of `sz` not wrapping past `2^64`, or a
dequeue. -/
def BlockClient (rid : RegionId) (sz : Nat) : Call → Prop
  | .enqueue buf => buf.length ≠ 0 ∧ (buf.rid = rid →
      buf.length.toNat = sz ∧ sz ∣ buf.offset.toNat ∧ buf.offset.toNat + sz < 2 ^ 64)
  | .dequeue => True
  | _ => False

instance (rid : RegionId) (sz : Nat) : DecidablePred (BlockClient rid sz)
  | .enqueue buf => inferInstanceAs (Decidable (buf.length ≠ 0 ∧ (buf.rid = rid →
      buf.length.toNat = sz ∧ sz ∣ buf.offset.toNat ∧ buf.offset.toNat + sz < 2 ^ 64)))
  | .dequeue => isTrue trivial
  | .register .. => isFalse id
  | .deregister _ => isFalse id

/-- What the debug queue over the loopback queue keeps for region `rid` of `len` bytes, with
owned list `bs` and ring `lq`: the list is well formed, the ring keeps its indices, every
descriptor in flight is a block of the region, and each byte of the region is owned by the
list or held by one descriptor, never both, while no byte outside is either. -/
structure Partitioned (rid : RegionId) (len : Genoffset) (sz : Nat) (bs : List MemoryEle)
    (lq : LoopbackQ) : Prop where
  wf : freeListOrdered len.toNat 0 bs = true
  ring : lq.Inv
  blocks : ∀ b ∈ lq.held, IsBlock rid len sz b
  count : ∀ x, (ownsByte bs x).toNat + heldCount lq.held x = if x < len.toNat then 1 else 0

/-- The debug queue tracking only region `rid`, with owned list `bs`, over the ring `lq`. -/
def trackedQ (rid : RegionId) (len : Genoffset) (bs : List MemoryEle) (lq : LoopbackQ) :
    DebugQ LoopbackQ :=
  ⟨[⟨rid, len, false, bs⟩], lq⟩

@[simp] theorem trackedQ_inner (rid : RegionId) (len : Genoffset) (bs : List MemoryEle)
    (lq : LoopbackQ) : (trackedQ rid len bs lq).inner = lq := rfl

@[simp] theorem heldCount_nil (x : Nat) : heldCount [] x = 0 := rfl

@[simp] theorem heldCount_cons (b : CleanqBuf) (held : List CleanqBuf) (x : Nat) :
    heldCount (b :: held) x = heldCount held x + (inRange b.offset b.length x).toNat := by
  simp only [heldCount, List.countP_cons]
  cases inRange b.offset b.length x <;> rfl

@[simp] theorem heldCount_append (held held' : List CleanqBuf) (x : Nat) :
    heldCount (held ++ held') x = heldCount held x + heldCount held' x :=
  List.countP_append _ _ _

/-- Two blocks of size `sz` at multiples of `sz` that share a byte are the same block. -/
theorem aligned_eq_of_mem {sz p q y : Nat} (hp : sz ∣ p) (hq : sz ∣ q) (h1 : p ≤ y)
    (h2 : y < p + sz) (h3 : q ≤ y) (h4 : y < q + sz) : p = q := by
  obtain ⟨i, rfl⟩ := hp
  obtain ⟨j, rfl⟩ := hq
  have hij : i < j + 1 := Nat.lt_of_mul_lt_mul_left (a := sz) (by rw [Nat.mul_succ]; omega)
  have hji : j < i + 1 := Nat.lt_of_mul_lt_mul_left (a := sz) (by rw [Nat.mul_succ]; omega)
  rw [show i = j by omega]

section Partition

variable {rid : RegionId} {len : Genoffset} {sz : Nat} {bs : List MemoryEle} {lq : LoopbackQ}

@[simp] theorem findRegion_trackedQ (bs : List MemoryEle) (lq : LoopbackQ) :
    findRegion rid (trackedQ rid len bs lq).regions = some ⟨rid, len, false, bs⟩ := by
  simp [findRegion, trackedQ]

theorem findRegion_trackedQ_of_ne {rid' : RegionId} (h : rid' ≠ rid) (bs : List MemoryEle)
    (lq : LoopbackQ) : findRegion rid' (trackedQ rid len bs lq).regions = none := by
  simp [findRegion, trackedQ, Ne.symm h]

@[simp] theorem setRegion_trackedQ (bs bs' : List MemoryEle) (lq lq' : LoopbackQ) :
    (⟨setRegion rid ⟨rid, len, false, bs'⟩ (trackedQ rid len bs lq).regions, lq'⟩ :
      DebugQ LoopbackQ) = trackedQ rid len bs' lq' := by
  simp [setRegion, trackedQ]

/-- A byte is owned exactly when it is in the region and no descriptor in flight holds it. -/
theorem Partitioned.owned_iff (hp : Partitioned rid len sz bs lq) (x : Nat) :
    ownsByte bs x = true ↔ x < len.toNat ∧ heldCount lq.held x = 0 := by
  have h := hp.count x
  cases ho : ownsByte bs x <;> rw [ho] at h <;> split at h <;>
    simp only [Bool.toNat_true, Bool.toNat_false, Bool.false_eq_true, false_iff, true_iff,
      not_and] at h ⊢ <;> omega

/-- No byte of a descriptor in flight is owned. -/
theorem Partitioned.not_owned_of_held (hp : Partitioned rid len sz bs lq) {b : CleanqBuf}
    (hb : b ∈ lq.held) {x : Nat} (hx : inRange b.offset b.length x = true) :
    ownsByte bs x = false := by
  rw [Bool.eq_false_iff, Ne, hp.owned_iff]
  have : 0 < heldCount lq.held x := List.countP_pos_iff.mpr ⟨b, hb, hx⟩
  omega

/-- Ownership is a union of blocks: from an owned multiple `a` of `sz`, the next `sz` bytes
of the region are owned. -/
theorem Partitioned.owned_block (hp : Partitioned rid len sz bs lq) {a y : Nat} (ha : sz ∣ a)
    (hown : ownsByte bs a = true) (h1 : a ≤ y) (h2 : y < a + sz) (hy : y < len.toNat) :
    ownsByte bs y = true := by
  have hsame : heldCount lq.held y = heldCount lq.held a := by
    refine List.countP_congr fun b hb => ?_
    obtain ⟨-, hlen, -, hdvd, -⟩ := hp.blocks b hb
    simp only [inRange_eq_true, hlen, decide_eq_true_eq]
    constructor
    · rintro ⟨h3, h4⟩
      have := aligned_eq_of_mem ha hdvd h1 h2 h3 h4
      omega
    · rintro ⟨h3, h4⟩
      have := aligned_eq_of_mem ha hdvd le_rfl (by omega) h3 h4
      omega
  rw [hp.owned_iff] at hown ⊢
  exact ⟨hy, hsame ▸ hown.2⟩

/-- With blocks aligned, a node starting one block below a descriptor in flight ends where
the descriptor starts: the lower-boundary test of `insert_merge_buffer` never fires on a
range apart from the node. -/
theorem Partitioned.node_end (hp : Partitioned rid len sz bs lq) {b : CleanqBuf}
    (hb : b ∈ lq.held) {c : MemoryEle} (hc : c ∈ bs) (hle : c.offset.toNat ≤ b.offset.toNat)
    (hsz : c.offset.toNat + b.length.toNat = b.offset.toNat) :
    c.offset.toNat + c.length.toNat = b.offset.toNat := by
  obtain ⟨-, hlen, hpos, hdvd, hin⟩ := hp.blocks b hb
  obtain ⟨-, hcl, -⟩ := freeListOrdered_mem hp.wf hc
  have hcd : sz ∣ c.offset.toNat := by
    have := Nat.dvd_sub' hdvd (Nat.dvd_refl sz)
    rwa [show b.offset.toNat - sz = c.offset.toNat by omega] at this
  have hcown : ownsByte bs c.offset.toNat = true :=
    List.any_eq_true.mpr ⟨c, hc, inRange_eq_true.mpr ⟨le_rfl, by omega⟩⟩
  -- the block below `b` is owned, so `c` reaches `b`
  have hreach := freeListOrdered_contig hp.wf hc (inRange_eq_true.mpr ⟨le_rfl, by omega⟩)
    (z := b.offset.toNat) fun y h1 h2 =>
      hp.owned_block hcd hcown h1 (by omega) (by omega)
  -- `b`'s first byte is held, so `c` stops there
  have hfree := hp.not_owned_of_held hb (inRange_eq_true.mpr ⟨le_rfl, by omega⟩)
  by_contra hne
  have hown : ownsByte bs b.offset.toNat = true :=
    List.any_eq_true.mpr ⟨c, hc, inRange_eq_true.mpr ⟨hle, by omega⟩⟩
  rw [hfree] at hown
  cases hown

/-- The enqueue step: a block client's enqueue keeps the partition; its reply is never
`BUFFER_NOT_IN_USE`. -/
theorem Partitioned.enqueue (hp : Partitioned rid len sz bs lq) {buf : CleanqBuf}
    (hc : BlockClient rid sz (.enqueue buf)) :
    ∃ err bs' lq', err ≠ .bufferNotInUse ∧
      debugEnqueue loopbackBackend (trackedQ rid len bs lq) buf =
        some (err, trackedQ rid len bs' lq') ∧ Partitioned rid len sz bs' lq' := by
  obtain ⟨hl, hblk⟩ := hc
  by_cases hr : buf.rid = rid
  swap
  · -- another region: refused, nothing changes
    exact ⟨.invalidRegionId, bs, lq, by decide, by
      simp only [debugEnqueue, hl, if_false, findRegion_trackedQ_of_ne hr], hp⟩
  subst hr
  obtain ⟨hsz, hdvd, hwrap⟩ := hblk rfl
  have hpos : 0 < sz := by rw [Ne, u64_eq_iff, UInt64.toNat_zero] at hl; omega
  have hwrap' : buf.offset.toNat + buf.length.toNat < 2 ^ 64 := by omega
  by_cases hown : ∀ x, inRange buf.offset buf.length x = true → ownsByte bs x = true
  · obtain ⟨bs', hwf, hown', heq⟩ := debugEnqueue_carve loopbackBackend (trackedQ buf.rid len bs lq)
      (findRegion_trackedQ bs lq) hp.wf hl hwrap' hown
    obtain ⟨h1, h2, h3⟩ := hp.ring.enqueue buf
    rw [heq]
    by_cases hfull : lq.held.length = loopbackQueueSize
    · -- the ring is full: the call fails and the ring holds what it held
      rw [fifoEnqueue, if_pos hfull] at h1 h2
      refine ⟨.queueFull, bs, (loopbackEnqueue lq buf).2, by decide, ?_,
        ⟨hp.wf, h3, h2 ▸ hp.blocks, h2 ▸ hp.count⟩⟩
      simp only [loopbackBackend, trackedQ_inner, Option.map_some', h1]
      rfl
    · -- the ring takes the block: it moves from the list to the ring
      rw [fifoEnqueue, if_neg hfull] at h1 h2
      refine ⟨.ok, bs', (loopbackEnqueue lq buf).2, by decide, ?_, ⟨hwf, h3, ?_, fun x => ?_⟩⟩
      · simp only [loopbackBackend, trackedQ_inner, Option.map_some', h1, if_true]
        exact congrArg some (Prod.ext rfl (setRegion_trackedQ bs bs' lq _))
      · have hend : buf.offset.toNat + sz ≤ len.toNat := by
          have := ((hp.owned_iff _).mp (hown (buf.offset.toNat + sz - 1)
            (inRange_eq_true.mpr ⟨by omega, by omega⟩))).1
          omega
        rw [h2]
        intro b hb
        rcases List.mem_append.mp hb with hb | hb
        · exact hp.blocks b hb
        · rw [List.mem_singleton.mp hb]
          exact ⟨rfl, hsz, hpos, hdvd, hend⟩
      · rw [hown' x, h2, heldCount_append, heldCount_cons, heldCount_nil]
        cases hx : inRange buf.offset buf.length x
        · simpa using hp.count x
        · obtain ⟨hxl, hx0⟩ := (hp.owned_iff x).mp (hown x hx)
          simp [hxl, hx0]
  · -- a byte of the block is not owned: refused, nothing changes
    push_neg at hown
    obtain ⟨x, hx, hnx⟩ := hown
    obtain ⟨err, herr, heq⟩ := debugEnqueue_refuse loopbackBackend (trackedQ buf.rid len bs lq)
      (findRegion_trackedQ bs lq) hp.wf hl hwrap' hx (Bool.eq_false_iff.mpr hnx)
    exact ⟨err, bs, lq, by rcases herr with rfl | rfl <;> decide, heq, hp⟩

/-- The dequeue step: a dequeue keeps the partition; it returns the oldest block or
`QUEUE_EMPTY`, never `BUFFER_NOT_IN_USE`. -/
theorem Partitioned.dequeue (hp : Partitioned rid len sz bs lq) :
    ∃ res bs' lq', res ≠ .error .bufferNotInUse ∧
      debugDequeue loopbackBackend (trackedQ rid len bs lq) = some (res, trackedQ rid len bs' lq') ∧
      Partitioned rid len sz bs' lq' := by
  obtain ⟨h1, h2, h3⟩ := hp.ring.dequeue
  cases hh : lq.held with
  | nil =>
    rw [hh] at h1 h2
    simp only [fifoDequeue] at h1 h2
    refine ⟨.error .queueEmpty, bs, (loopbackDequeue lq).2, by decide, ?_,
      ⟨hp.wf, h3, by simp [h2], fun x => by simpa [h2, hh] using hp.count x⟩⟩
    simp only [debugDequeue, loopbackBackend, trackedQ_inner, Option.some_bind, h1]
    rfl
  | cons b rest =>
    rw [hh] at h1 h2
    simp only [fifoDequeue] at h1 h2
    have hb : b ∈ lq.held := hh ▸ .head _
    obtain ⟨hrid, hlen, hpos, hdvd, hin⟩ := hp.blocks b hb
    subst hrid
    have hdeq : loopbackBackend.deq (trackedQ b.rid len bs lq).inner =
        some (.ok b, (loopbackDequeue lq).2) := by
      simp only [loopbackBackend, trackedQ_inner, ← h1]
    -- the block is held, so none of its bytes is owned
    have hfree : ∀ x, inRange b.offset b.length x = true → ownsByte bs x = false :=
      fun _ => hp.not_owned_of_held hb
    obtain ⟨bs', hwf, hown, htrack⟩ := dequeueTrack_merge (findRegion_trackedQ bs lq) hp.wf
      (by rw [Ne, u64_eq_iff, UInt64.toNat_zero]; omega)
      (show b.offset.toNat + b.length.toNat ≤ len.toNat by omega) hfree
      fun c hc => hp.node_end hb (List.mem_of_mem_getLast? hc)
    refine ⟨.ok b, bs', (loopbackDequeue lq).2, nofun, ?_, ⟨hwf, h3, ?_, fun x => ?_⟩⟩
    · rw [debugDequeue_of_deq hdeq, htrack]
      exact congrArg some (Prod.ext rfl (setRegion_trackedQ bs bs' lq _))
    · rw [h2]
      exact fun c hc => hp.blocks c (hh ▸ .tail _ hc)
    · have hc := hp.count x
      rw [hown x, h2]
      rw [hh, heldCount_cons] at hc
      cases hx : inRange b.offset b.length x
      · simpa [hx] using hc
      · rw [hfree x hx, hx] at hc
        simp only [Bool.or_true, Bool.toNat_true, Bool.toNat_false] at hc ⊢
        split_ifs at hc ⊢ <;> omega

/-- One call of a block client on the whole stack keeps the partition; its reply is never
`BUFFER_NOT_IN_USE`. -/
theorem Partitioned.call (hp : Partitioned rid len sz bs lq) (pool : RegionPool) {c : Call}
    (hc : BlockClient rid sz c) :
    ∃ r bs' lq', r ≠ .done .bufferNotInUse ∧
      cleanqCall (debugBackend loopbackBackend) ⟨pool, trackedQ rid len bs lq⟩ c =
        some (r, ⟨pool, trackedQ rid len bs' lq'⟩) ∧ Partitioned rid len sz bs' lq' := by
  cases c with
  | register => exact hc.elim
  | deregister => exact hc.elim
  | enqueue buf =>
    obtain ⟨err, bs', lq', herr, heq, hp'⟩ := hp.enqueue hc
    simp only [cleanqCall, cleanqEnqueue]
    split
    · refine ⟨.done err, bs', lq', fun h => herr (Reply.done.inj h), ?_, hp'⟩
      simp only [debugBackend, heq, Option.map_some']
    · exact ⟨.done .invalidBufferArgs, bs, lq, nofun, rfl, hp⟩
  | dequeue =>
    obtain ⟨res, bs', lq', hres, heq, hp'⟩ := hp.dequeue
    simp only [cleanqCall, cleanqDequeue, debugBackend, heq, Option.map_some']
    rcases res with err | buf
    · exact ⟨.done err, bs', lq', fun h => hres (congrArg Except.error (Reply.done.inj h)), rfl, hp'⟩
    · by_cases hchk : regionPoolBufferCheckBounds pool buf.rid buf.offset buf.length buf.validData
          buf.validLength = true
      · exact ⟨.dequeued buf, bs', lq', nofun, by simp only [hchk, if_true], hp'⟩
      · exact ⟨.done .invalidBufferArgs, bs', lq', nofun, by simp only [hchk, Bool.false_eq_true, if_false], hp'⟩

/-- The run lemma: every run of a block client from a partitioned stack completes, never
replies `BUFFER_NOT_IN_USE`, and ends partitioned. -/
theorem Partitioned.run (pool : RegionPool) : ∀ {calls : List Call} {bs : List MemoryEle}
    {lq : LoopbackQ}, Partitioned rid len sz bs lq → (∀ c ∈ calls, BlockClient rid sz c) →
    ∃ rs bs' lq', .done .bufferNotInUse ∉ rs ∧
      runCalls (debugBackend loopbackBackend) ⟨pool, trackedQ rid len bs lq⟩ calls =
        some (rs, ⟨pool, trackedQ rid len bs' lq'⟩) ∧ Partitioned rid len sz bs' lq'
  | [], bs, lq, hp, _ => ⟨[], bs, lq, List.not_mem_nil _, rfl, hp⟩
  | c :: calls, _, _, hp, hc => by
    obtain ⟨r, bs1, lq1, hr, h1, hp1⟩ := hp.call pool (hc c (.head _))
    obtain ⟨rs, bs2, lq2, hrs, h2, hp2⟩ := Partitioned.run pool hp1 fun c' hc' => hc c' (.tail _ hc')
    refine ⟨r :: rs, bs2, lq2, ?_, by simp only [runCalls, h1, h2, Option.some_bind, Option.map_some'],
      hp2⟩
    simp only [List.mem_cons, not_or]
    exact ⟨Ne.symm hr, hrs⟩

/-- The stack `debug_register` leaves for a region of `len > 0` bytes is partitioned: the
list owns the whole region and the ring is empty. -/
theorem partitioned_init (hlen : 0 < len.toNat) :
    Partitioned rid len sz [⟨0, len⟩] loopbackQueueCreate where
  wf := by simpa [freeListOrdered] using hlen
  ring := loopbackQueueCreate_inv
  blocks := by simp [LoopbackQ.held, loopbackQueueCreate]
  count x := by
    simp [LoopbackQ.held, loopbackQueueCreate, inRange]
    split <;> simp_all

end Partition

/-- Over the loopback queue, after the debug queue tracks a region `rid` of `len > 0` bytes
as `debug_register` leaves it, every run of a client that hands out blocks of `sz` bytes of
`rid` at multiples of `sz` completes without a `BUFFER_NOT_IN_USE` reply, and ends with the
region partitioned: the list is well formed and each byte of the region is owned by it or
held by exactly one descriptor in the ring, never both. -/
theorem debug_loopback_partitions_region (pool : RegionPool) (rid : RegionId) (len : Genoffset)
    (sz : Nat) (hlen : 0 < len.toNat) (calls : List Call)
    (hcalls : ∀ c ∈ calls, BlockClient rid sz c) :
    ∃ rs bs lq, .done .bufferNotInUse ∉ rs ∧
      runCalls (debugBackend loopbackBackend)
          ⟨pool, ⟨[wholeRegion rid len false], loopbackQueueCreate⟩⟩ calls =
        some (rs, ⟨pool, trackedQ rid len bs lq⟩) ∧ Partitioned rid len sz bs lq :=
  Partitioned.run pool (partitioned_init hlen) hcalls

/-- Blocks of `1024` bytes of a region of `4096` bytes, out of order, one refused for
another region, over a fresh pool. -/
theorem debug_loopback_partitions_blocks :
    0 < (4096 : Genoffset).toNat ∧
      (∀ c ∈ [Call.enqueue ⟨0, 1024, 0, 1024, 0, 1⟩, .enqueue ⟨2048, 1024, 0, 1024, 0, 1⟩,
          .enqueue ⟨0, 1024, 0, 1024, 0, 2⟩, .dequeue, .enqueue ⟨1024, 1024, 0, 1024, 0, 1⟩,
          .dequeue, .dequeue], BlockClient 1 1024 c) ∧
      ∃ rs bs lq, .done .bufferNotInUse ∉ rs ∧
        runCalls (debugBackend loopbackBackend)
            ⟨regionPoolInit 0, ⟨[wholeRegion 1 4096 false], loopbackQueueCreate⟩⟩
            [.enqueue ⟨0, 1024, 0, 1024, 0, 1⟩, .enqueue ⟨2048, 1024, 0, 1024, 0, 1⟩,
              .enqueue ⟨0, 1024, 0, 1024, 0, 2⟩, .dequeue, .enqueue ⟨1024, 1024, 0, 1024, 0, 1⟩,
              .dequeue, .dequeue] =
          some (rs, ⟨regionPoolInit 0, trackedQ 1 4096 bs lq⟩) ∧ Partitioned 1 4096 1024 bs lq :=
  ⟨by decide, by decide, debug_loopback_partitions_region (regionPoolInit 0) 1 4096 1024 (by decide)
    _ (by decide)⟩

/-- The stack after the first block of a fresh region went out, reached by the enqueue step
from the stack `debug_register` leaves. -/
theorem partitioned_first_block_out :
    Partitioned 1 4096 1024 [⟨1024, 3072⟩] (staleLoopback ⟨0, 1024, 0, 1024, 0, 1⟩) := by
  obtain ⟨err, bs', lq', -, heq, hp'⟩ := (@partitioned_init 1 4096 1024 (by decide)).enqueue
    (show BlockClient 1 1024 (.enqueue ⟨0, 1024, 0, 1024, 0, 1⟩) by decide)
  have hc : debugEnqueue loopbackBackend (trackedQ 1 4096 [⟨0, 4096⟩] loopbackQueueCreate)
      ⟨0, 1024, 0, 1024, 0, 1⟩ =
        some (.ok, trackedQ 1 4096 [⟨1024, 3072⟩] (staleLoopback ⟨0, 1024, 0, 1024, 0, 1⟩)) := rfl
  rw [hc] at heq
  simp only [trackedQ, Option.some.injEq, Prod.mk.injEq, DebugQ.mk.injEq, List.cons.injEq,
    MemoryList.mk.injEq] at heq
  obtain ⟨-, ⟨⟨-, -, -, rfl⟩, -⟩, rfl⟩ := heq
  exact hp'

/-- On the stack of the debug queue over the loopback queue, partitioned as
`debug_loopback_partitions_region` leaves it, `debug_deregister` of the region drops it once
every block is back, answers `REGION_DESTROY` and changes nothing while a block is in flight
and some byte is still owned, and faults (reading an empty list) when every byte is out. -/
theorem debug_loopback_deregister_waits_for_blocks {rid : RegionId} {len : Genoffset} {sz : Nat}
    {bs : List MemoryEle} {lq : LoopbackQ} (hp : Partitioned rid len sz bs lq)
    (hlen : 0 < len.toNat) :
    (lq.held = [] →
      debugDeregister loopbackBackend (trackedQ rid len bs lq) rid = some (.ok, ⟨[], lq⟩)) ∧
    (lq.held ≠ [] → bs ≠ [] →
      debugDeregister loopbackBackend (trackedQ rid len bs lq) rid =
        some (.regionDestroy, trackedQ rid len bs lq)) ∧
    (bs = [] → debugDeregister loopbackBackend (trackedQ rid len bs lq) rid = none) := by
  have hdr := debugDeregister_of_tracked loopbackBackend (trackedQ rid len bs lq)
    (findRegion_trackedQ bs lq) hp.wf
  refine ⟨fun hh => ?_, fun hh hne => ?_, fun hbs => ?_⟩
  · -- every block is back: the list owns the whole region
    have hall : ∀ x, x < len.toNat → ownsByte bs x = true := fun x hx =>
      (hp.owned_iff x).mpr ⟨hx, by rw [hh]; rfl⟩
    have hne : bs ≠ [] := by rintro rfl; cases hall 0 hlen
    rw [(hdr hne).1 hall]
    simp [trackedQ, loopbackBackend]
  · -- the first byte of a block in flight is not owned
    obtain ⟨b, hb⟩ := List.exists_mem_of_ne_nil _ hh
    obtain ⟨-, hbl, hpos, -, hin⟩ := hp.blocks b hb
    exact (hdr hne).2 ⟨b.offset.toNat, show b.offset.toNat < len.toNat by omega,
      hp.not_owned_of_held hb (inRange_eq_true.mpr ⟨le_rfl, by omega⟩)⟩
  · subst hbs
    simp [debugDeregister, deregisterFind, trackedQ]

/-- With the first block of a region out, `debug_deregister` refuses the region. -/
theorem debug_loopback_deregister_first_block_out :
    Partitioned 1 4096 1024 [⟨1024, 3072⟩] (staleLoopback ⟨0, 1024, 0, 1024, 0, 1⟩) ∧
      0 < (4096 : Genoffset).toNat ∧ (staleLoopback ⟨0, 1024, 0, 1024, 0, 1⟩).held ≠ [] ∧
      ((staleLoopback ⟨0, 1024, 0, 1024, 0, 1⟩).held = [] →
        debugDeregister loopbackBackend
            (trackedQ 1 4096 [⟨1024, 3072⟩] (staleLoopback ⟨0, 1024, 0, 1024, 0, 1⟩)) 1 =
          some (.ok, ⟨[], staleLoopback ⟨0, 1024, 0, 1024, 0, 1⟩⟩)) ∧
      ((staleLoopback ⟨0, 1024, 0, 1024, 0, 1⟩).held ≠ [] →
        ([⟨1024, 3072⟩] : List MemoryEle) ≠ [] →
        debugDeregister loopbackBackend
            (trackedQ 1 4096 [⟨1024, 3072⟩] (staleLoopback ⟨0, 1024, 0, 1024, 0, 1⟩)) 1 =
          some (.regionDestroy,
            trackedQ 1 4096 [⟨1024, 3072⟩] (staleLoopback ⟨0, 1024, 0, 1024, 0, 1⟩))) ∧
      (([⟨1024, 3072⟩] : List MemoryEle) = [] →
        debugDeregister loopbackBackend
            (trackedQ 1 4096 [⟨1024, 3072⟩] (staleLoopback ⟨0, 1024, 0, 1024, 0, 1⟩)) 1 = none) :=
  ⟨partitioned_first_block_out, by decide, by decide,
    debug_loopback_deregister_waits_for_blocks partitioned_first_block_out (by decide)⟩

/-- On a partitioned stack of the debug queue over the loopback queue, an enqueue of any
nonempty range of the region that shares a byte with a descriptor in flight is refused
with `BUFFER_ALREADY_IN_USE` or `INVALID_BUFFER_ARGS` and changes nothing: a double
enqueue never reaches the loopback queue. -/
theorem debug_loopback_refuses_in_flight_bytes {rid : RegionId} {len : Genoffset} {sz : Nat}
    {bs : List MemoryEle} {lq : LoopbackQ} (hp : Partitioned rid len sz bs lq) {buf b : CleanqBuf}
    (hrid : buf.rid = rid) (hl : buf.length ≠ 0)
    (hwrap : buf.offset.toNat + buf.length.toNat < 2 ^ 64) (hb : b ∈ lq.held) {x : Nat}
    (hx : inRange buf.offset buf.length x = true) (hxb : inRange b.offset b.length x = true) :
    ∃ err, (err = .bufferAlreadyInUse ∨ err = .invalidBufferArgs) ∧
      debugEnqueue loopbackBackend (trackedQ rid len bs lq) buf =
        some (err, trackedQ rid len bs lq) := by
  subst hrid
  exact debugEnqueue_refuse loopbackBackend (trackedQ buf.rid len bs lq) (findRegion_trackedQ bs lq)
    hp.wf hl hwrap hx (hp.not_owned_of_held hb hxb)

/-- With the first block of a region out, an enqueue of the range `[512, 1536)` is refused. -/
theorem debug_loopback_refuses_first_block_again :
    Partitioned 1 4096 1024 [⟨1024, 3072⟩] (staleLoopback ⟨0, 1024, 0, 1024, 0, 1⟩) ∧
      (⟨512, 1024, 0, 1024, 0, 1⟩ : CleanqBuf).rid = 1 ∧ (1024 : Genoffset) ≠ 0 ∧
      (512 : Genoffset).toNat + (1024 : Genoffset).toNat < 2 ^ 64 ∧
      (⟨0, 1024, 0, 1024, 0, 1⟩ : CleanqBuf) ∈ (staleLoopback ⟨0, 1024, 0, 1024, 0, 1⟩).held ∧
      inRange 512 1024 600 = true ∧ inRange 0 1024 600 = true ∧
      ∃ err, (err = .bufferAlreadyInUse ∨ err = .invalidBufferArgs) ∧
        debugEnqueue loopbackBackend
            (trackedQ 1 4096 [⟨1024, 3072⟩] (staleLoopback ⟨0, 1024, 0, 1024, 0, 1⟩))
            ⟨512, 1024, 0, 1024, 0, 1⟩ =
          some (err, trackedQ 1 4096 [⟨1024, 3072⟩] (staleLoopback ⟨0, 1024, 0, 1024, 0, 1⟩)) :=
  have hb : (⟨0, 1024, 0, 1024, 0, 1⟩ : CleanqBuf) ∈ (staleLoopback ⟨0, 1024, 0, 1024, 0, 1⟩).held :=
    by decide
  ⟨partitioned_first_block_out, rfl, by decide, by decide, hb, rfl, rfl,
    debug_loopback_refuses_in_flight_bytes partitioned_first_block_out rfl (by decide) (by decide)
      hb (x := 600) rfl rfl⟩

end CleanQ
