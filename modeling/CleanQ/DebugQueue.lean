import CleanQ.Loopback

/-!
# The debug wrapper (`debug_queue.c`)

The debug queue stacks on another queue and tracks, per region, the ordered list of byte
ranges this endpoint owns. An enqueue must lie inside one of them and is carved out of it
(`remove_split_buffer`); a dequeue is put back and merged with the neighbours it touches
(`insert_merge_buffer`).

The code keeps each list doubly linked. The model keeps the list in its `next` order and
passes a function the node it works on together with the nodes before and after it, so
`prev` is the last node before; the one place where the code leaves a `prev` link wrong
(see `insertMergeBuffer`) is therefore not represented. Allocation failures end the program
at an `assert`, so every `slab_alloc` here succeeds; the optional history log is not
modelled.

`insert_merge_buffer` tests the lower boundary on the insert-after path as
`buffer->offset + length == offset`, where the higher-boundary test of the same path, and
the neighbouring merge tests, compare `buffer->offset + buffer->length`. With buffers of
mixed sizes this merges a range that does not touch the node
(`debug_loopback_free_range_covers_in_flight`, `debug_loopback_false_alarm`).
-/

namespace CleanQ

/-- `struct memory_ele`: one range this endpoint owns. -/
structure MemoryEle where
  offset : Genoffset
  length : Genoffset
  deriving DecidableEq, Repr

/-- `struct memory_list`: the owned ranges of one region. -/
structure MemoryList where
  rid : RegionId
  length : Genoffset
  notConsistent : Bool
  buffers : List MemoryEle
  deriving DecidableEq, Repr

/-- `struct cleanq_debugq` without its generic part: the tracked regions and the state of
the wrapped queue. -/
structure DebugQ (σ : Type) where
  regions : List MemoryList
  inner : σ

/-! ## Carving and merging ranges -/

/-- `buffer_in_bounds`: does `[offset_b1, offset_b1 + len_b1)` lie in the second range?
Both ends are `uint64_t` sums. -/
def bufferInBounds (offsetB1 lenB1 offsetB2 lenB2 : Genoffset) : Bool :=
  decide (offsetB1 ≥ offsetB2) && decide (lenB1 ≤ lenB2) &&
    decide (offsetB1 + lenB1 ≤ offsetB2 + lenB2)

/-- `remove_split_buffer` on `buffer`, with `pre` before it and `post` after it: cut the
range off its beginning, off its end, or out of its middle. -/
def removeSplitBuffer (pre : List MemoryEle) (buffer : MemoryEle) (post : List MemoryEle)
    (offset length : Genoffset) : List MemoryEle :=
  if buffer.offset = offset then
    if buffer.length - length = 0 then pre ++ post
    else pre ++ ⟨buffer.offset + length, buffer.length - length⟩ :: post
  else if buffer.offset + buffer.length = offset + length then
    pre ++ ⟨buffer.offset, buffer.length - length⟩ :: post
  else
    pre ++ ⟨buffer.offset, offset - buffer.offset⟩ ::
      ⟨buffer.offset + (offset - buffer.offset) + length,
        buffer.length - (offset - buffer.offset) - length⟩ :: post

/-- The end cut never empties the node, for any words: so the unlink on that path
(`buffer->prev = buffer->next`, where `buffer->prev->next = buffer->next` is meant, which
would leave a freed node linked) never runs, and `removeSplitBuffer` leaves it out. -/
theorem removeSplitBuffer_end_cut_pos {buffer : MemoryEle} {offset length : Genoffset}
    (hb : buffer.offset ≠ offset) (he : buffer.offset + buffer.length = offset + length) :
    buffer.length - length ≠ 0 := by
  intro h0
  apply hb
  have hl : buffer.length = length := by
    rw [u64_eq_iff, u64_toNat_sub] at *
    have := u64_toNat_lt buffer.length; have := u64_toNat_lt length
    simp only [UInt64.toNat_zero] at h0
    omega
  rw [hl] at he
  rw [u64_eq_iff, u64_toNat_add, u64_toNat_add] at he
  rw [u64_eq_iff]
  have := u64_toNat_lt buffer.offset; have := u64_toNat_lt offset
  omega

/-- `insert_merge_buffer` with `buffer` between `rpre` (the nodes before it, nearest
first) and `post`: put `[offset, offset + length)` after `buffer` if it starts at or past
its end, before it otherwise, merging with the nodes it touches. On the double merge after
`buffer` the code reads `buffer->next->next->prev` after advancing `buffer->next`: with no
node there it dereferences `NULL`, and with no node after the merged one it leaves that
freed node linked; both give no next state. With two or more nodes after the merged one it
sets the `prev` of the second of them to `buffer` and leaves the first one's `prev` on the
freed node; the model has no `prev` links, so that wrong link is not represented. The scan
calls this function with a node after `buffer` only when `offset < buffer->offset`, so the
insert-after path with such a node needs `buffer`'s end to wrap past `2^64`. -/
def insertMergeBuffer (rpre : List MemoryEle) (buffer : MemoryEle) (post : List MemoryEle)
    (offset length : Genoffset) : Option (List MemoryEle) :=
  if offset ≥ buffer.offset + buffer.length then
    if buffer.offset + length = offset then
      let b : MemoryEle := ⟨buffer.offset, buffer.length + length⟩
      match post with
      | next :: rest =>
        if b.offset + b.length = next.offset then
          match rest with
          | _ :: _ :: _ => some (rpre.reverse ++ ⟨b.offset, b.length + next.length⟩ :: rest)
          | _ => none
        else some (rpre.reverse ++ b :: post)
      | [] => some (rpre.reverse ++ [b])
    else
      match post with
      | next :: rest =>
        if next.offset = offset + length then
          some (rpre.reverse ++ buffer :: ⟨offset, next.length + length⟩ :: rest)
        else some (rpre.reverse ++ buffer :: ⟨offset, length⟩ :: post)
      | [] =>
        if buffer.offset + buffer.length = offset then
          some (rpre.reverse ++ [⟨buffer.offset, buffer.length + length⟩])
        else some (rpre.reverse ++ [buffer, ⟨offset, length⟩])
  else
    if buffer.offset = offset + length then
      let b : MemoryEle := ⟨offset, buffer.length + length⟩
      match rpre with
      | prev :: rest =>
        if prev.offset + prev.length = b.offset then
          some (rest.reverse ++ ⟨prev.offset, prev.length + b.length⟩ :: post)
        else some (rpre.reverse ++ b :: post)
      | [] => some (b :: post)
    else
      match rpre with
      | prev :: rest =>
        if prev.offset + prev.length = offset then
          some (rest.reverse ++
            ⟨prev.offset, prev.length + (if length = 0 then 2048 else 0) + length⟩ :: buffer :: post)
        else some (rpre.reverse ++ ⟨offset, length⟩ :: buffer :: post)
      | [] => some (⟨offset, length⟩ :: buffer :: post)

/-! ## The region list -/

/-- `find_region`: the first tracked list of `rid`. -/
def findRegion (rid : RegionId) (regions : List MemoryList) : Option MemoryList :=
  regions.find? (·.rid = rid)

/-- The region list with the first list of `rid` replaced. -/
def setRegion (rid : RegionId) (ml : MemoryList) : List MemoryList → List MemoryList
  | [] => []
  | r :: rs => if r.rid = rid then ml :: rs else r :: setRegion rid ml rs

/-- A fresh list covering a whole region of `length` bytes. -/
def wholeRegion (rid : RegionId) (length : Genoffset) (notConsistent : Bool) : MemoryList :=
  ⟨rid, length, notConsistent, [⟨0, length⟩]⟩

section Wrapper

variable {σ : Type} (inner : Backend σ)

/-- The scan of `debug_enqueue`: the first node that contains the range, with the nodes
before and after it. -/
def enqueueFind (offset length : Genoffset) :
    List MemoryEle → List MemoryEle → Option (List MemoryEle × MemoryEle × List MemoryEle)
  | _, [] => none
  | pre, b :: post =>
    if bufferInBounds offset length b.offset b.length then some (pre, b, post)
    else enqueueFind offset length (pre ++ [b]) post

/-- `debug_enqueue`. -/
def debugEnqueue (que : DebugQ σ) (buf : CleanqBuf) : Option (Errval × DebugQ σ) :=
  if buf.length = 0 then none else
  match findRegion buf.rid que.regions with
  | none => some (.invalidRegionId, que)
  | some region =>
    if region.buffers = [] then some (.bufferAlreadyInUse, que) else
    match enqueueFind buf.offset buf.length [] region.buffers with
    | none => some (.invalidBufferArgs, que)
    | some (pre, b, post) =>
      (inner.enq que.inner buf).map fun (err, st) =>
        if err = .ok then
          (.ok, ⟨setRegion buf.rid
            { region with buffers := removeSplitBuffer pre b post buf.offset buf.length }
            que.regions, st⟩)
        else (err, { que with inner := st })

/-- The scan of `debug_dequeue` from `buffer`, with `rpre` before it (nearest first): pass
every node whose offset the range's offset reaches, then merge in front of the node where
the scan stops, or after the last node, unless that node contains the range. -/
def dequeueScan (offset length : Genoffset) (rpre : List MemoryEle) (buffer : MemoryEle) :
    List MemoryEle → Option (Except Errval (List MemoryEle))
  | [] =>
    if bufferInBounds offset length buffer.offset buffer.length then some (.error .bufferNotInUse)
    else (insertMergeBuffer rpre buffer [] offset length).map .ok
  | next :: post =>
    if offset ≥ buffer.offset then dequeueScan offset length (buffer :: rpre) next post
    else if bufferInBounds offset length buffer.offset buffer.length then
      some (.error .bufferNotInUse)
    else (insertMergeBuffer rpre buffer (next :: post) offset length).map .ok

/-- The tracking part of `debug_dequeue` once the wrapped queue gave up `buf`. A region
it does not track is added as not consistent; on that path with regions already tracked,
`memset(que->regions->buffers, 0, sizeof(ele->next))` zeroes the offset of the first
region's first node (and dereferences `NULL` if that list is empty). -/
def dequeueTrack (regions : List MemoryList) (buf : CleanqBuf) :
    Option (Errval × List MemoryList) :=
  let fresh := wholeRegion buf.rid (buf.offset + buf.length) true
  match findRegion buf.rid regions with
  | none =>
    match regions with
    | [] => some (.ok, [fresh])
    | first :: rest =>
      match first.buffers with
      | [] => none
      | b :: bs => some (.ok, { first with buffers := ⟨0, b.length⟩ :: bs } :: rest ++ [fresh])
  | some region =>
    let region := if region.notConsistent && decide (buf.offset + buf.length > region.length)
      then { region with length := buf.offset + buf.length } else region
    match region.buffers with
    | [] => some (.ok, setRegion buf.rid { region with buffers := [⟨buf.offset, buf.length⟩] } regions)
    | b :: post =>
      (dequeueScan buf.offset buf.length [] b post).map fun
        | .ok buffers => (.ok, setRegion buf.rid { region with buffers := buffers } regions)
        | .error err => (err, setRegion buf.rid region regions)

/-- `debug_dequeue`. -/
def debugDequeue (que : DebugQ σ) : Option (Except Errval CleanqBuf × DebugQ σ) :=
  (inner.deq que.inner).bind fun (res, st) =>
    match res with
    | .error err => some (.error err, { que with inner := st })
    | .ok buf =>
      (dequeueTrack que.regions buf).map fun (err, regions) =>
        (if err = .ok then .ok buf else .error err, ⟨regions, st⟩)

/-- `debug_register`: forward, then track the whole region as owned. -/
def debugRegister (que : DebugQ σ) (cap : Capref) (rid : RegionId) :
    Option (Errval × DebugQ σ) :=
  (inner.reg que.inner cap rid).map fun (err, st) =>
    if err = .ok then (.ok, ⟨que.regions ++ [wholeRegion rid cap.len false], st⟩)
    else (err, { que with inner := st })

/-- The search of `debug_deregister`: the region list without `rid` when its list is the
one range `(0, length)`, `regionDestroy` when it is not, `invalidRegionId` when `rid` is
not tracked; the test reads `ele->buffers->offset`, so an empty list faults. -/
def deregisterFind (rid : RegionId) : List MemoryList → Option (Except Errval (List MemoryList))
  | [] => some (.error .invalidRegionId)
  | ele :: rest =>
    if ele.rid = rid then
      match ele.buffers with
      | [] => none
      | b :: bs =>
        if b.offset = 0 && b.length = ele.length && bs.isEmpty then some (.ok rest)
        else some (.error .regionDestroy)
    else (deregisterFind rid rest).map (Except.map (ele :: ·))

/-- `debug_deregister`. -/
def debugDeregister (que : DebugQ σ) (rid : RegionId) : Option (Errval × DebugQ σ) :=
  (deregisterFind rid que.regions).bind fun
    | .error err => some (err, que)
    | .ok regions => (inner.dereg que.inner rid).map fun (err, st) =>
        if err = .ok then (.ok, ⟨regions, st⟩) else (err, { que with inner := st })

/-- The function table `cleanq_debugq_create` installs over the wrapped queue. -/
def debugBackend : Backend (DebugQ σ) where
  enq := debugEnqueue inner
  deq := debugDequeue inner
  reg := debugRegister inner
  dereg := debugDeregister inner

/-! ## One lemma per call -/

variable {inner}

theorem debugRegister_of_reg {que : DebugQ σ} {cap : Capref} {rid : RegionId} {err : Errval}
    {st : σ} (h : inner.reg que.inner cap rid = some (err, st)) :
    debugRegister inner que cap rid = some (if err = .ok
      then (.ok, ⟨que.regions ++ [wholeRegion rid cap.len false], st⟩) else (err, { que with inner := st })) := by
  simp [debugRegister, h]

/-- An enqueue whose range the scan finds in a node is handed to the wrapped queue, and the
range is carved out of that node only if the wrapped queue accepts it. -/
theorem debugEnqueue_of_find {que : DebugQ σ} {buf : CleanqBuf} {region : MemoryList}
    {pre post : List MemoryEle} {b : MemoryEle} (hl : buf.length ≠ 0)
    (hr : findRegion buf.rid que.regions = some region)
    (hf : enqueueFind buf.offset buf.length [] region.buffers = some (pre, b, post)) :
    debugEnqueue inner que buf = (inner.enq que.inner buf).map fun (err, st) =>
      if err = .ok then
        (.ok, ⟨setRegion buf.rid
          { region with buffers := removeSplitBuffer pre b post buf.offset buf.length } que.regions, st⟩)
      else (err, { que with inner := st }) := by
  have hb : region.buffers ≠ [] := by rintro h; rw [h] at hf; cases hf
  simp only [debugEnqueue, hl, hr, hb, hf, if_false]

theorem debugDequeue_of_deq {que : DebugQ σ} {buf : CleanqBuf} {st : σ}
    (h : inner.deq que.inner = some (.ok buf, st)) :
    debugDequeue inner que = (dequeueTrack que.regions buf).map fun (err, regions) =>
      (if err = .ok then .ok buf else .error err, ⟨regions, st⟩) := by
  simp only [debugDequeue, h, Option.some_bind]

/-- An enqueue that fails leaves every list as it was: its own errors return the queue
unchanged, and an error of the wrapped queue changes only the wrapped queue. -/
theorem debugEnqueue_error_regions {que que' : DebugQ σ} {buf : CleanqBuf} {err : Errval}
    (h : debugEnqueue inner que buf = some (err, que')) (he : err ≠ .ok) :
    que'.regions = que.regions ∧
      (que' = que ∨ inner.enq que.inner buf = some (err, que'.inner)) := by
  unfold debugEnqueue at h
  split at h
  · cases h
  split at h
  · cases h; exact ⟨rfl, .inl rfl⟩
  · split at h
    · cases h; exact ⟨rfl, .inl rfl⟩
    split at h
    · cases h; exact ⟨rfl, .inl rfl⟩
    · obtain ⟨⟨e, st⟩, hq, h⟩ := Option.map_eq_some'.mp h
      dsimp only at h
      split at h
      · cases h; exact absurd rfl he
      · cases h; exact ⟨rfl, .inr hq⟩

end Wrapper

/-! ## Every other region keeps its list

`findRegion` reads the first list of an id. Registration appends a list, deregistration
drops one, and an enqueue or the dequeue of a tracked region replaces the list of its own
id: no other id's list changes. -/

/-- Every region other than `rid` is found as before. -/
def FrameOutside (rid : RegionId) (regions regions' : List MemoryList) : Prop :=
  ∀ r, r ≠ rid → findRegion r regions' = findRegion r regions

theorem FrameOutside.refl (rid : RegionId) (regions : List MemoryList) :
    FrameOutside rid regions regions := fun _ _ => rfl

theorem findRegion_cons (r : RegionId) (ml : MemoryList) (regions : List MemoryList) :
    findRegion r (ml :: regions) = if ml.rid = r then some ml else findRegion r regions := by
  simp only [findRegion, List.find?_cons, decide_eq_true_eq]
  split <;> simp_all

theorem setRegion_frame {rid : RegionId} {ml : MemoryList} (hml : ml.rid = rid) :
    ∀ regions, FrameOutside rid regions (setRegion rid ml regions)
  | [], _, _ => rfl
  | x :: xs, r, hr => by
    simp only [setRegion]
    split
    · rw [findRegion_cons, findRegion_cons, hml, if_neg (Ne.symm hr), ‹x.rid = rid›, if_neg (Ne.symm hr)]
    · rw [findRegion_cons, findRegion_cons, setRegion_frame hml xs r hr]

theorem append_frame (regions : List MemoryList) {rid : RegionId} {ml : MemoryList}
    (hml : ml.rid = rid) : FrameOutside rid regions (regions ++ [ml]) := fun r hr => by
  simp only [findRegion, List.find?_append, List.find?_singleton, decide_eq_true_eq, hml,
    if_neg (Ne.symm hr), Option.or_none]

theorem deregisterFind_frame {rid : RegionId} :
    ∀ {regions regions' : List MemoryList}, deregisterFind rid regions = some (.ok regions') →
      FrameOutside rid regions regions'
  | [], _, h => by cases h
  | x :: xs, _, h => fun r hr => by
    simp only [deregisterFind] at h
    split at h
    · split at h
      · cases h
      · split at h <;> cases h
        rw [findRegion_cons, ‹x.rid = rid›, if_neg (Ne.symm hr)]
    · obtain ⟨e, he, hx⟩ := Option.map_eq_some'.mp h
      cases e with
      | error => cases hx
      | ok rest =>
        cases hx
        rw [findRegion_cons, findRegion_cons, deregisterFind_frame he r hr]

theorem findRegion_rid {rid : RegionId} {regions : List MemoryList} {ml : MemoryList}
    (h : findRegion rid regions = some ml) : ml.rid = rid := by
  simpa using List.find?_some h

section Frame

variable {σ : Type} {inner : Backend σ} {que que' : DebugQ σ}

theorem debugRegister_frame {cap : Capref} {rid : RegionId} {err : Errval}
    (h : debugRegister inner que cap rid = some (err, que')) : FrameOutside rid que.regions que'.regions := by
  obtain ⟨⟨e, st⟩, -, h⟩ := Option.map_eq_some'.mp h
  dsimp only at h
  split at h <;> cases h
  · exact append_frame _ rfl
  · exact FrameOutside.refl _ _

theorem debugEnqueue_frame {buf : CleanqBuf} {err : Errval}
    (h : debugEnqueue inner que buf = some (err, que')) : FrameOutside buf.rid que.regions que'.regions := by
  by_cases he : err = .ok
  · unfold debugEnqueue at h
    split at h
    · cases h
    split at h
    · cases h; exact FrameOutside.refl _ _
    · rename_i region hr
      have hml := findRegion_rid hr
      split at h
      · cases h; exact FrameOutside.refl _ _
      split at h
      · cases h; exact FrameOutside.refl _ _
      · obtain ⟨⟨e, st⟩, -, h⟩ := Option.map_eq_some'.mp h
        dsimp only at h
        split at h <;> cases h
        · refine setRegion_frame ?_ _; exact hml
        · exact FrameOutside.refl _ _
  · rw [(debugEnqueue_error_regions h he).1]; exact FrameOutside.refl _ _

theorem debugDeregister_frame {rid : RegionId} {err : Errval}
    (h : debugDeregister inner que rid = some (err, que')) : FrameOutside rid que.regions que'.regions := by
  obtain ⟨res, hf, h⟩ := Option.bind_eq_some.mp h
  cases res with
  | error => cases h; exact FrameOutside.refl _ _
  | ok regions =>
    obtain ⟨⟨e, st⟩, -, h⟩ := Option.map_eq_some'.mp h
    dsimp only at h
    split at h <;> cases h
    · exact deregisterFind_frame hf
    · exact FrameOutside.refl _ _

/-- A dequeue of a tracked region replaces only that region's list. -/
theorem dequeueTrack_frame_tracked {regions regions' : List MemoryList} {buf : CleanqBuf}
    {ml : MemoryList} {err : Errval} (hr : findRegion buf.rid regions = some ml)
    (h : dequeueTrack regions buf = some (err, regions')) : FrameOutside buf.rid regions regions' := by
  have hml := findRegion_rid hr
  simp only [dequeueTrack, hr] at h
  split at h
  · cases h; exact setRegion_frame (by split <;> exact hml) _
  · obtain ⟨res, -, h⟩ := Option.map_eq_some'.mp h
    split at h <;> cases h <;> exact setRegion_frame (by split <;> exact hml) _

end Frame

/-- Every call of the debug queue keeps the list of every region other than the call's own,
except a dequeue of a descriptor whose region it does not track: registration appends a
list, deregistration drops one, an enqueue and the dequeue of a tracked region replace only
the list of their own id, and a dequeue the wrapped queue refuses changes no list. -/
theorem debug_calls_keep_other_regions {σ : Type} (inner : Backend σ) (que : DebugQ σ) :
    (∀ cap rid err que', debugRegister inner que cap rid = some (err, que') →
      FrameOutside rid que.regions que'.regions) ∧
    (∀ buf err que', debugEnqueue inner que buf = some (err, que') →
      FrameOutside buf.rid que.regions que'.regions) ∧
    (∀ rid err que', debugDeregister inner que rid = some (err, que') →
      FrameOutside rid que.regions que'.regions) ∧
    (∀ buf st res que', inner.deq que.inner = some (.ok buf, st) →
      (findRegion buf.rid que.regions).isSome → debugDequeue inner que = some (res, que') →
        FrameOutside buf.rid que.regions que'.regions) ∧
    (∀ err st res que', inner.deq que.inner = some (.error err, st) →
      debugDequeue inner que = some (res, que') → que'.regions = que.regions) := by
  refine ⟨fun _ _ _ _ => debugRegister_frame, fun _ _ _ => debugEnqueue_frame,
    fun _ _ _ => debugDeregister_frame, fun buf st res que' hd hf h => ?tracked,
    fun err st res que' hd h => ?refused⟩
  case tracked =>
    obtain ⟨ml, hml⟩ := Option.isSome_iff_exists.mp hf
    rw [debugDequeue_of_deq hd] at h
    obtain ⟨⟨err, regions⟩, ht, h⟩ := Option.map_eq_some'.mp h
    cases h
    exact dequeueTrack_frame_tracked hml ht
  case refused =>
    simp only [debugDequeue, hd, Option.some_bind, Option.some.injEq] at h
    cases h; rfl

/-- A loopback queue that holds `buf`, enqueued before the debug queue was stacked on it:
the wrapped queue of a debug queue may hold descriptors the wrapper never saw. -/
def staleLoopback (buf : CleanqBuf) : LoopbackQ := (loopbackEnqueue loopbackQueueCreate buf).2

/-- Regions `1` and `2` of `4096` bytes tracked over the loopback queue, with the first
block of region `1` in flight: `debug_register` of both, then the enqueue of `(0, 1024)`. -/
def twoTrackedLoopback : DebugQ LoopbackQ :=
  ⟨[⟨1, 4096, false, [⟨1024, 3072⟩]⟩, wholeRegion 2 4096 false],
    staleLoopback ⟨0, 1024, 0, 1024, 0, 1⟩⟩

/-- From that reached stack, an enqueue into region `2` keeps region `1`'s list, the
dequeue of region `1`'s block keeps region `2`'s, and the deregistration of region `2`
keeps region `1`'s with its block still out. -/
theorem debug_calls_keep_other_regions_two_tracked :
    ((debugRegister loopbackBackend ⟨[], loopbackQueueCreate⟩ ⟨0, 0x10000, 4096⟩ 1).bind
        fun (_, q) => (debugRegister loopbackBackend q ⟨0, 0x20000, 4096⟩ 2).bind
          fun (_, q) => debugEnqueue loopbackBackend q ⟨0, 1024, 0, 1024, 0, 1⟩) =
      some (.ok, twoTrackedLoopback) ∧
    (∃ q', debugEnqueue loopbackBackend twoTrackedLoopback ⟨0, 2048, 0, 2048, 0, 2⟩ =
      some (.ok, q') ∧ FrameOutside 2 twoTrackedLoopback.regions q'.regions) ∧
    (∃ q', debugDequeue loopbackBackend twoTrackedLoopback =
      some (.ok ⟨0, 1024, 0, 1024, 0, 1⟩, q') ∧ FrameOutside 1 twoTrackedLoopback.regions q'.regions) ∧
    (∃ q', debugDeregister loopbackBackend twoTrackedLoopback 2 = some (.ok, q') ∧
      q'.regions = [⟨1, 4096, false, [⟨1024, 3072⟩]⟩] ∧
      FrameOutside 2 twoTrackedLoopback.regions q'.regions) := by
  have hframe := debug_calls_keep_other_regions loopbackBackend twoTrackedLoopback
  exact ⟨rfl, ⟨_, rfl, hframe.2.1 ⟨0, 2048, 0, 2048, 0, 2⟩ _ _ rfl⟩,
    ⟨_, rfl, hframe.2.2.2.1 _ _ _ _ rfl rfl rfl⟩, ⟨_, rfl, rfl, hframe.2.2.1 _ _ _ rfl⟩⟩

/-- A debug queue over a fresh loopback queue, its pool drawn with `rand() = rnd`. -/
def debugLoopbackCleanq (rnd : UInt64) : Cleanq (DebugQ LoopbackQ) :=
  ⟨regionPoolInit rnd, ⟨[], loopbackQueueCreate⟩⟩

/-! ## Runs of the debug stack -/

/-- Register `4000` bytes, enqueue `(2000, 2000)` then `(1000, 1000)`, dequeue. The returned
`(2000, 2000)` meets `buffer->offset + length == offset` at the node `(0, 1000)` and is
merged onto it: the free list `[(0, 3000)]` claims `[1000, 2000)`, which the loopback
queue still holds, and has lost `[3000, 4000)`. -/
theorem debug_loopback_free_range_covers_in_flight :
    ∃ q, runCalls (debugBackend loopbackBackend) (debugLoopbackCleanq 0)
        [.register ⟨0, 0x10000, 4000⟩ true true, .enqueue ⟨2000, 2000, 0, 2000, 0, 1⟩,
          .enqueue ⟨1000, 1000, 0, 1000, 0, 1⟩, .dequeue] =
      some ([.registered 1, .done .ok, .done .ok, .dequeued ⟨2000, 2000, 0, 2000, 0, 1⟩], q) ∧
      q.st.regions = [⟨1, 4000, false, [⟨0, 3000⟩]⟩] ∧
      q.st.inner.held = [⟨1000, 1000, 0, 1000, 0, 1⟩] :=
  ⟨_, rfl, by decide, by decide⟩

/-- The same client dequeues once more: the bare loopback queue returns `(1000, 1000)`, the
debug stack refuses it with `BUFFER_NOT_IN_USE`. -/
theorem debug_loopback_false_alarm :
    (runCalls (debugBackend loopbackBackend) (debugLoopbackCleanq 0)
        [.register ⟨0, 0x10000, 4000⟩ true true, .enqueue ⟨2000, 2000, 0, 2000, 0, 1⟩,
          .enqueue ⟨1000, 1000, 0, 1000, 0, 1⟩, .dequeue, .dequeue]).map Prod.fst =
      some [.registered 1, .done .ok, .done .ok, .dequeued ⟨2000, 2000, 0, 2000, 0, 1⟩,
        .done .bufferNotInUse] ∧
    (runCalls loopbackBackend (loopbackCleanq 0)
        [.register ⟨0, 0x10000, 4000⟩ true true, .enqueue ⟨2000, 2000, 0, 2000, 0, 1⟩,
          .enqueue ⟨1000, 1000, 0, 1000, 0, 1⟩, .dequeue, .dequeue]).map Prod.fst =
      some [.registered 1, .done .ok, .done .ok, .dequeued ⟨2000, 2000, 0, 2000, 0, 1⟩,
        .dequeued ⟨1000, 1000, 0, 1000, 0, 1⟩] :=
  ⟨by decide, by decide⟩

/-! ## The shape of a free list

What the lists are meant to be, over the naturals: each range nonempty and inside the
region, ranges in increasing order, none touching the next. -/

/-- The ranges from `lo` on are ordered, nonempty, end inside `length`, and are apart. -/
def freeListOrdered (length : Nat) : Nat → List MemoryEle → Bool
  | _, [] => true
  | lo, b :: bs => decide (lo ≤ b.offset.toNat) && decide (0 < b.length.toNat) &&
      decide (b.offset.toNat + b.length.toNat ≤ length) &&
      freeListOrdered length (b.offset.toNat + b.length.toNat + 1) bs

/-- A well-formed list of owned ranges. -/
def MemoryList.WellFormed (ml : MemoryList) : Bool := freeListOrdered ml.length.toNat 0 ml.buffers

/-- Does `[offset, offset + length)` share a byte with a range of the list? -/
def meetsFree (offset length : Nat) (buffers : List MemoryEle) : Bool :=
  buffers.any fun b => decide (offset < b.offset.toNat + b.length.toNat) &&
    decide (b.offset.toNat < offset + length)

/-! ## Four defects of the tracking -/

/-- `buffer_in_bounds` sums in `uint64_t`: after registering `4096` bytes, the range at
`2^64 - 1` of length `2`, which ends at `2^64 + 1`, passes it against `(0, 4096)`. Over every
wrapped queue, `debug_enqueue` forwards it, and on success splits `(0, 4096)` into
`(0, 2^64 - 1)` and `(1, 4095)`. -/
theorem debug_enqueue_forwards_wrapping_range :
    (∃ q, runCalls (debugBackend loopbackBackend) (debugLoopbackCleanq 0)
        [.register ⟨0, 0x10000, 4096⟩ true true] = some ([.registered 1], q) ∧
      q.st.regions = [wholeRegion 1 4096 false]) ∧
    4096 < wrappingBuf.offset.toNat + wrappingBuf.length.toNat ∧
    ∀ {σ : Type} (inner : Backend σ) (st : σ),
      debugEnqueue inner ⟨[wholeRegion 1 4096 false], st⟩ wrappingBuf =
        (inner.enq st wrappingBuf).map fun (err, st') =>
          if err = .ok then (.ok, ⟨[⟨1, 4096, false, [⟨0, 0xFFFFFFFFFFFFFFFF⟩, ⟨1, 4095⟩]⟩], st'⟩)
          else (err, ⟨[wholeRegion 1 4096 false], st'⟩) :=
  ⟨⟨_, rfl, rfl⟩, by decide, fun _ _ => rfl⟩

/-- Over every wrapped queue: register `4000` bytes, enqueue `(1000, 1000)` and
`(3000, 1000)`, leaving the well-formed list `[(0, 1000), (2000, 1000)]`. If the wrapped
queue then hands back `(0, 500)`, inside the free range `(0, 1000)`, the scan passes that
node, tests containment only in the last one, and inserts the range: `debug_dequeue`
returns `OK` and the list overlaps itself. -/
theorem debug_dequeue_accepts_owned_range {σ : Type} (inner : Backend σ) (st0 st1 st2 st3 st4 : σ)
    (hreg : inner.reg st0 ⟨0, 0x10000, 4000⟩ 1 = some (.ok, st1))
    (henq : inner.enq st1 ⟨1000, 1000, 0, 1000, 0, 1⟩ = some (.ok, st2))
    (henq' : inner.enq st2 ⟨3000, 1000, 0, 1000, 0, 1⟩ = some (.ok, st3))
    (hdeq : inner.deq st3 = some (.ok ⟨0, 500, 0, 500, 0, 1⟩, st4)) :
    debugRegister inner ⟨[], st0⟩ ⟨0, 0x10000, 4000⟩ 1 = some (.ok, ⟨[wholeRegion 1 4000 false], st1⟩) ∧
    debugEnqueue inner ⟨[wholeRegion 1 4000 false], st1⟩ ⟨1000, 1000, 0, 1000, 0, 1⟩ =
      some (.ok, ⟨[⟨1, 4000, false, [⟨0, 1000⟩, ⟨2000, 2000⟩]⟩], st2⟩) ∧
    debugEnqueue inner ⟨[⟨1, 4000, false, [⟨0, 1000⟩, ⟨2000, 2000⟩]⟩], st2⟩ ⟨3000, 1000, 0, 1000, 0, 1⟩ =
      some (.ok, ⟨[⟨1, 4000, false, [⟨0, 1000⟩, ⟨2000, 1000⟩]⟩], st3⟩) ∧
    MemoryList.WellFormed ⟨1, 4000, false, [⟨0, 1000⟩, ⟨2000, 1000⟩]⟩ = true ∧
    meetsFree 0 500 [⟨0, 1000⟩, ⟨2000, 1000⟩] = true ∧
    debugDequeue inner ⟨[⟨1, 4000, false, [⟨0, 1000⟩, ⟨2000, 1000⟩]⟩], st3⟩ =
      some (.ok ⟨0, 500, 0, 500, 0, 1⟩, ⟨[⟨1, 4000, false, [⟨0, 1000⟩, ⟨0, 500⟩, ⟨2000, 1000⟩]⟩], st4⟩) ∧
    MemoryList.WellFormed ⟨1, 4000, false, [⟨0, 1000⟩, ⟨0, 500⟩, ⟨2000, 1000⟩]⟩ = false := by
  refine ⟨by rw [debugRegister_of_reg hreg]; rfl, ?_, ?_, by decide, by decide,
    by rw [debugDequeue_of_deq hdeq]; rfl, by decide⟩
  · rw [debugEnqueue_of_find (by decide) (by rfl) (by rfl), henq]; rfl
  · rw [debugEnqueue_of_find (by decide) (by rfl) (by rfl), henq']; rfl

theorem debug_dequeue_accepts_owned_range_on_loopback :
    debugDequeue loopbackBackend ⟨[⟨1, 4000, false, [⟨0, 1000⟩, ⟨2000, 1000⟩]⟩],
        (loopbackEnqueue (loopbackEnqueue (staleLoopback ⟨0, 500, 0, 500, 0, 1⟩)
          ⟨1000, 1000, 0, 1000, 0, 1⟩).2 ⟨3000, 1000, 0, 1000, 0, 1⟩).2⟩ =
      some (.ok ⟨0, 500, 0, 500, 0, 1⟩, ⟨[⟨1, 4000, false, [⟨0, 1000⟩, ⟨0, 500⟩, ⟨2000, 1000⟩]⟩],
        (loopbackDequeue (loopbackEnqueue (loopbackEnqueue (staleLoopback ⟨0, 500, 0, 500, 0, 1⟩)
          ⟨1000, 1000, 0, 1000, 0, 1⟩).2 ⟨3000, 1000, 0, 1000, 0, 1⟩).2).2⟩) :=
  (debug_dequeue_accepts_owned_range loopbackBackend (staleLoopback ⟨0, 500, 0, 500, 0, 1⟩) _
    (loopbackEnqueue (staleLoopback ⟨0, 500, 0, 500, 0, 1⟩) ⟨1000, 1000, 0, 1000, 0, 1⟩).2
    (loopbackEnqueue (loopbackEnqueue (staleLoopback ⟨0, 500, 0, 500, 0, 1⟩)
      ⟨1000, 1000, 0, 1000, 0, 1⟩).2 ⟨3000, 1000, 0, 1000, 0, 1⟩).2 _ rfl rfl rfl rfl).2.2.2.2.2.1

/-- Register `4096` bytes and enqueue them as one buffer: `remove_split_buffer` unlinks the
only node. `debug_deregister` then reads the offset of the missing first node, over every
wrapped queue, and the deregistration faults. -/
theorem debug_deregister_reads_empty_list :
    (∃ q, runCalls (debugBackend loopbackBackend) (debugLoopbackCleanq 0)
        [.register ⟨0, 0x10000, 4096⟩ true true, .enqueue ⟨0, 4096, 0, 4096, 0, 1⟩] =
        some ([.registered 1, .done .ok], q) ∧ q.st.regions = [⟨1, 4096, false, []⟩]) ∧
    runCalls (debugBackend loopbackBackend) (debugLoopbackCleanq 0)
        [.register ⟨0, 0x10000, 4096⟩ true true, .enqueue ⟨0, 4096, 0, 4096, 0, 1⟩, .deregister 1] = none ∧
    ∀ {σ : Type} (inner : Backend σ) (st : σ),
      debugDeregister inner ⟨[⟨1, 4096, false, []⟩], st⟩ 1 = none :=
  ⟨⟨_, rfl, rfl⟩, rfl, fun _ _ => rfl⟩

/-- Over every wrapped queue: register `4000` bytes as region `1` and enqueue `(0, 1000)`,
leaving region `1` the list `[(1000, 3000)]`. A descriptor of any other region then comes
back: the wrapper adds that region, and its `memset` zeroes the offset of region `1`'s first
node, which now claims the in-flight `[0, 1000)`. -/
theorem debug_dequeue_untracked_clears_other_offset {σ : Type} (inner : Backend σ)
    (st0 st1 st2 st3 : σ) (buf : CleanqBuf)
    (hreg : inner.reg st0 ⟨0, 0x10000, 4000⟩ 1 = some (.ok, st1))
    (henq : inner.enq st1 ⟨0, 1000, 0, 1000, 0, 1⟩ = some (.ok, st2))
    (hdeq : inner.deq st2 = some (.ok buf, st3)) (hrid : buf.rid ≠ 1) :
    debugRegister inner ⟨[], st0⟩ ⟨0, 0x10000, 4000⟩ 1 = some (.ok, ⟨[wholeRegion 1 4000 false], st1⟩) ∧
    debugEnqueue inner ⟨[wholeRegion 1 4000 false], st1⟩ ⟨0, 1000, 0, 1000, 0, 1⟩ =
      some (.ok, ⟨[⟨1, 4000, false, [⟨1000, 3000⟩]⟩], st2⟩) ∧
    debugDequeue inner ⟨[⟨1, 4000, false, [⟨1000, 3000⟩]⟩], st2⟩ =
      some (.ok buf, ⟨[⟨1, 4000, false, [⟨0, 3000⟩]⟩,
        wholeRegion buf.rid (buf.offset + buf.length) true], st3⟩) := by
  have hfind : findRegion buf.rid [⟨1, 4000, false, [⟨1000, 3000⟩]⟩] = none := by
    simp only [findRegion_cons, if_neg (Ne.symm hrid)]; rfl
  refine ⟨by rw [debugRegister_of_reg hreg]; rfl, ?_, ?_⟩
  · rw [debugEnqueue_of_find (by decide) (by rfl) (by rfl), henq]; rfl
  · rw [debugDequeue_of_deq hdeq]
    simp only [dequeueTrack, hfind]
    rfl

theorem debug_dequeue_untracked_on_loopback :
    debugDequeue loopbackBackend ⟨[⟨1, 4000, false, [⟨1000, 3000⟩]⟩],
        (loopbackEnqueue (staleLoopback ⟨0, 500, 0, 500, 0, 2⟩) ⟨0, 1000, 0, 1000, 0, 1⟩).2⟩ =
      some (.ok ⟨0, 500, 0, 500, 0, 2⟩, ⟨[⟨1, 4000, false, [⟨0, 3000⟩]⟩, ⟨2, 500, true, [⟨0, 500⟩]⟩],
        (loopbackDequeue (loopbackEnqueue (staleLoopback ⟨0, 500, 0, 500, 0, 2⟩)
          ⟨0, 1000, 0, 1000, 0, 1⟩).2).2⟩) :=
  (debug_dequeue_untracked_clears_other_offset loopbackBackend (staleLoopback ⟨0, 500, 0, 500, 0, 2⟩) _
    (loopbackEnqueue (staleLoopback ⟨0, 500, 0, 500, 0, 2⟩) ⟨0, 1000, 0, 1000, 0, 1⟩).2 _ _
    rfl rfl rfl (by decide)).2.2

/-- With `(2048, 2048)` in flight, `cleanq_deregister` is refused with `REGION_DESTROY`
after the pool has already dropped region `1`. The dequeue that returns the buffer is then
refused by the front end, and so is the second deregister. -/
theorem debug_deregister_refused_drops_region :
    ∃ q, runCalls (debugBackend loopbackBackend) (debugLoopbackCleanq 0)
        [.register ⟨0, 0x10000, 8192⟩ true true, .enqueue ⟨2048, 2048, 0, 2048, 0, 1⟩,
          .deregister 1] =
      some ([.registered 1, .done .ok, .done .regionDestroy], q) ∧
      q.pool.pool 1 = none ∧
      (runCalls (debugBackend loopbackBackend) q [.dequeue, .deregister 1]).map Prod.fst =
        some [.done .invalidBufferArgs, .done .invalidRegionId] :=
  ⟨_, rfl, by decide, by decide⟩

end CleanQ
