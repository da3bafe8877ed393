import CleanQ.Interface

/-!
# The loopback backend (`loopback_queue.c`)

A ring of `LOOPBACK_QUEUE_SIZE = 64` descriptors with `head`, `tail` and the count
`num_ele`; what is enqueued is dequeued again by the same endpoint. Registration and
deregistration do nothing. `head`, `tail` and `num_ele` are `size_t`; they stay below
`65`, so they are naturals here.

The ring refines a FIFO queue of capacity `64` (`fifoEnqueue`, `fifoDequeue`): under the
index invariant `LoopbackQ.Inv`, each call returns what the FIFO returns on the held
descriptors and leaves the ring holding the FIFO's new contents (`LoopbackQ.Inv.call`), so
every run from `loopback_queue_create` gives the FIFO's replies (`loopback_refines_fifo`).
-/

namespace CleanQ

/-- `LOOPBACK_QUEUE_SIZE`. -/
def loopbackQueueSize : Nat := 64

/-- `struct cleanq_loopbackq` without its generic part. -/
structure LoopbackQ where
  queue : Nat → CleanqBuf
  head : Nat
  tail : Nat
  numEle : Nat

/-- The descriptor `calloc` leaves in every slot. -/
def zeroBuf : CleanqBuf := ⟨0, 0, 0, 0, 0, 0⟩

/-- The backend part of `loopback_queue_create`. -/
def loopbackQueueCreate : LoopbackQ := ⟨fun _ => zeroBuf, 0, 0, 0⟩

/-- `loopback_enqueue`. -/
def loopbackEnqueue (lq : LoopbackQ) (buf : CleanqBuf) : Errval × LoopbackQ :=
  if lq.numEle = loopbackQueueSize then (.queueFull, lq)
  else (.ok, { queue := Function.update lq.queue lq.head buf,
               head := (lq.head + 1) % loopbackQueueSize, tail := lq.tail,
               numEle := lq.numEle + 1 })

/-- `loopback_dequeue`. -/
def loopbackDequeue (lq : LoopbackQ) : Except Errval CleanqBuf × LoopbackQ :=
  if lq.numEle = 0 then (.error .queueEmpty, lq)
  else (.ok (lq.queue lq.tail), { lq with tail := (lq.tail + 1) % loopbackQueueSize,
                                          numEle := lq.numEle - 1 })

/-- The function table `loopback_queue_create` installs. -/
def loopbackBackend : Backend LoopbackQ where
  enq lq buf := some (loopbackEnqueue lq buf)
  deq lq := some (loopbackDequeue lq)
  reg lq _ _ := some (.ok, lq)
  dereg lq _ := some (.ok, lq)

/-- The descriptors the ring holds, oldest first. -/
def LoopbackQ.held (lq : LoopbackQ) : List CleanqBuf :=
  (List.range lq.numEle).map fun i => lq.queue ((lq.tail + i) % loopbackQueueSize)

/-- A loopback queue fresh from `loopback_queue_create`, its pool drawn with `rand() = rnd`. -/
def loopbackCleanq (rnd : UInt64) : Cleanq LoopbackQ := ⟨regionPoolInit rnd, loopbackQueueCreate⟩

/-- On a loopback queue, the wrapping descriptor of `enqueue_forwards_wrapping_buffer` is
enqueued and dequeued as a success: region `1` of `4096` bytes, then the buffer at
`2^64 - 1` of length `2`. -/
theorem loopback_round_trips_wrapping_buffer :
    ∃ q, runCalls loopbackBackend (loopbackCleanq 0)
        [.register ⟨0, 0x10000, 4096⟩ true true, .enqueue wrappingBuf, .dequeue] =
      some ([.registered 1, .done .ok, .dequeued wrappingBuf], q) :=
  ⟨_, rfl⟩

/-! ## The ring is a bounded FIFO -/

/-- A FIFO queue of capacity `LOOPBACK_QUEUE_SIZE`, over the held descriptors oldest first:
full exactly when it holds `64`. -/
def fifoEnqueue (xs : List CleanqBuf) (buf : CleanqBuf) : Errval × List CleanqBuf :=
  if xs.length = loopbackQueueSize then (.queueFull, xs) else (.ok, xs ++ [buf])

/-- The FIFO's dequeue: empty exactly when it holds nothing, else the oldest descriptor. -/
def fifoDequeue : List CleanqBuf → Except Errval CleanqBuf × List CleanqBuf
  | [] => (.error .queueEmpty, [])
  | buf :: xs => (.ok buf, xs)

/-- A call on the backend alone: `loopback_enqueue` of a descriptor, or `loopback_dequeue`. -/
inductive RingCall
  | enqueue (buf : CleanqBuf)
  | dequeue

/-- What a call returns: the error of an enqueue, or the result of a dequeue. -/
inductive RingReply
  | enqueued (err : Errval)
  | dequeued (res : Except Errval CleanqBuf)
  deriving DecidableEq

/-- One call on the ring. -/
def loopbackCall (lq : LoopbackQ) : RingCall → RingReply × LoopbackQ
  | .enqueue buf => (.enqueued (loopbackEnqueue lq buf).1, (loopbackEnqueue lq buf).2)
  | .dequeue => (.dequeued (loopbackDequeue lq).1, (loopbackDequeue lq).2)

/-- One call on the FIFO. -/
def fifoCall (xs : List CleanqBuf) : RingCall → RingReply × List CleanqBuf
  | .enqueue buf => (.enqueued (fifoEnqueue xs buf).1, (fifoEnqueue xs buf).2)
  | .dequeue => (.dequeued (fifoDequeue xs).1, (fifoDequeue xs).2)

/-- The replies of a sequence of calls, and the state after them. -/
def runRing {σ : Type} (call : σ → RingCall → RingReply × σ) : σ → List RingCall → List RingReply × σ
  | s, [] => ([], s)
  | s, c :: cs => ((call s c).1 :: (runRing call (call s c).2 cs).1, (runRing call (call s c).2 cs).2)

/-- The indices of the ring: `tail` is a slot, at most `64` descriptors are held, and
`head` is `num_ele` slots after `tail`. -/
structure LoopbackQ.Inv (lq : LoopbackQ) : Prop where
  tail_lt : lq.tail < loopbackQueueSize
  numEle_le : lq.numEle ≤ loopbackQueueSize
  head_eq : lq.head = (lq.tail + lq.numEle) % loopbackQueueSize

@[simp] theorem LoopbackQ.held_length (lq : LoopbackQ) : lq.held.length = lq.numEle := by
  simp [LoopbackQ.held]

theorem loopbackQueueCreate_inv : loopbackQueueCreate.Inv := ⟨by decide, by decide, rfl⟩

theorem LoopbackQ.Inv.enqueue {lq : LoopbackQ} (h : lq.Inv) (buf : CleanqBuf) :
    (loopbackEnqueue lq buf).1 = (fifoEnqueue lq.held buf).1 ∧
      (loopbackEnqueue lq buf).2.held = (fifoEnqueue lq.held buf).2 ∧
      (loopbackEnqueue lq buf).2.Inv := by
  obtain ⟨ht, hn, hh⟩ := h
  unfold loopbackEnqueue fifoEnqueue
  rw [LoopbackQ.held_length]
  split
  · exact ⟨rfl, rfl, ht, hn, hh⟩
  · unfold loopbackQueueSize at *
    refine ⟨rfl, ?_, ht, by dsimp only [loopbackQueueSize]; omega,
      by dsimp only [loopbackQueueSize]; omega⟩
    simp only [LoopbackQ.held, loopbackQueueSize, List.range_succ, List.map_append,
      List.map_singleton]
    congr 1
    · refine List.map_congr_left fun i hi => Function.update_noteq ?_ _ _
      rw [List.mem_range] at hi
      omega
    · rw [← hh, Function.update_same]

theorem LoopbackQ.Inv.dequeue {lq : LoopbackQ} (h : lq.Inv) :
    (loopbackDequeue lq).1 = (fifoDequeue lq.held).1 ∧
      (loopbackDequeue lq).2.held = (fifoDequeue lq.held).2 ∧ (loopbackDequeue lq).2.Inv := by
  obtain ⟨q, head, tail, _ | n⟩ := lq
  · exact ⟨rfl, rfl, h⟩
  · obtain ⟨ht, hn, hh⟩ := h
    dsimp only [loopbackQueueSize] at ht hn hh
    have hheld : LoopbackQ.held ⟨q, head, tail, n + 1⟩ =
        q tail :: (List.range n).map fun i => q ((tail + 1 + i) % 64) := by
      simp only [LoopbackQ.held, loopbackQueueSize, List.range_succ_eq_map, List.map_cons,
        List.map_map, Nat.add_zero, Nat.mod_eq_of_lt ht]
      exact congrArg _ (List.map_congr_left fun i _ => by
        rw [Function.comp_apply, Nat.add_right_comm]; rfl)
    simp only [hheld, loopbackDequeue, Nat.add_one_ne_zero, ↓reduceIte]
    refine ⟨rfl, ?_, Nat.mod_lt _ (by decide), by dsimp only [loopbackQueueSize]; omega,
      by dsimp only [loopbackQueueSize]; omega⟩
    simp only [LoopbackQ.held, loopbackQueueSize, Nat.mod_add_mod, Nat.add_sub_cancel]
    rfl

/-- The simulation step: every call on a ring that keeps its indices returns what the FIFO
returns on the held descriptors, and leaves the ring holding the FIFO's contents. -/
theorem LoopbackQ.Inv.call {lq : LoopbackQ} (h : lq.Inv) (c : RingCall) :
    (loopbackCall lq c).1 = (fifoCall lq.held c).1 ∧
      (loopbackCall lq c).2.held = (fifoCall lq.held c).2 ∧ (loopbackCall lq c).2.Inv := by
  cases c with
  | enqueue buf =>
    obtain ⟨h1, h2, h3⟩ := h.enqueue buf
    exact ⟨congrArg RingReply.enqueued h1, h2, h3⟩
  | dequeue =>
    obtain ⟨h1, h2, h3⟩ := h.dequeue
    exact ⟨congrArg RingReply.dequeued h1, h2, h3⟩

/-- The run lemma: from any ring that keeps its indices, a call sequence gets the FIFO's
replies and ends holding the FIFO's contents. -/
theorem LoopbackQ.Inv.run {lq : LoopbackQ} (h : lq.Inv) (cs : List RingCall) :
    (runRing loopbackCall lq cs).1 = (runRing fifoCall lq.held cs).1 ∧
      (runRing loopbackCall lq cs).2.held = (runRing fifoCall lq.held cs).2 := by
  induction cs generalizing lq with
  | nil => exact ⟨rfl, rfl⟩
  | cons c cs ih =>
    obtain ⟨h1, h2, h3⟩ := h.call c
    obtain ⟨ih1, ih2⟩ := ih h3
    simp only [runRing, h1, ih1, ih2, h2, and_self]

/-- Every sequence of `loopback_enqueue` and `loopback_dequeue` calls on a queue from
`loopback_queue_create` returns what a FIFO of capacity `64` returns, and the ring then
holds the FIFO's contents. -/
theorem loopback_refines_fifo (cs : List RingCall) :
    (runRing loopbackCall loopbackQueueCreate cs).1 = (runRing fifoCall [] cs).1 ∧
      (runRing loopbackCall loopbackQueueCreate cs).2.held = (runRing fifoCall [] cs).2 :=
  loopbackQueueCreate_inv.run cs

end CleanQ
