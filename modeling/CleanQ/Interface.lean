import CleanQ.RegionPool

/-!
# The front end (`queue_interface.c`)

`struct cleanq` holds a region pool and a table of backend functions. The front end
checks every enqueued and every dequeued descriptor against the pool with
`region_pool_buffer_check_bounds`; registration and deregistration change the pool first
and call the backend after.

A backend is its function table over its own state `σ` (`Backend`). Only the four
operations that move descriptors and regions are modelled; `notify`, `control` and
`destroy` are not.
An application's run is a list of `Call`s, each with its `Reply` (`runCalls`).

Proved here:

* `cleanqEnqueue_of_checkBounds`: whenever the bounds check passes, `cleanq_enqueue`
  hands the descriptor to the backend, whatever the backend;
* `enqueue_forwards_wrapping_buffer`: the check sums `length + offset` in `uint64_t`, so
  a buffer at offset `2^64 - 1` of length `2` passes it against a region of `4096` bytes.
-/

namespace CleanQ

/-- The function table `struct cleanq.f` of a backend whose state is `σ`. Every entry
returns the error value and the state after the call, or `none` when the call faults. -/
structure Backend (σ : Type) where
  enq : σ → CleanqBuf → Option (Errval × σ)
  deq : σ → Option (Except Errval CleanqBuf × σ)
  reg : σ → Capref → RegionId → Option (Errval × σ)
  dereg : σ → RegionId → Option (Errval × σ)

/-- `struct cleanq`: the region pool and the backend's state. -/
structure Cleanq (σ : Type) where
  pool : RegionPool
  st : σ

section Frontend

variable {σ : Type} (b : Backend σ)

/-- `cleanq_enqueue`. -/
def cleanqEnqueue (q : Cleanq σ) (buf : CleanqBuf) : Option (Errval × Cleanq σ) :=
  if regionPoolBufferCheckBounds q.pool buf.rid buf.offset buf.length buf.validData
      buf.validLength then
    (b.enq q.st buf).map fun (err, st) => (err, { q with st := st })
  else some (.invalidBufferArgs, q)

/-- `cleanq_dequeue`: the backend's descriptor is checked against the pool after the
backend has given it up. -/
def cleanqDequeue (q : Cleanq σ) : Option (Except Errval CleanqBuf × Cleanq σ) :=
  (b.deq q.st).map fun (res, st) =>
    match res with
    | .error err => (.error err, { q with st := st })
    | .ok buf =>
      if regionPoolBufferCheckBounds q.pool buf.rid buf.offset buf.length buf.validData
          buf.validLength then (.ok buf, { q with st := st })
      else (.error .invalidBufferArgs, { q with st := st })

/-- `cleanq_register`: the pool assigns the id, then the backend is told. -/
def cleanqRegister (q : Cleanq σ) (cap : Capref) (callocOk slabOk : Bool) :
    Option (Except Errval RegionId × Cleanq σ) :=
  (regionPoolAddRegion q.pool cap callocOk slabOk).bind fun (res, pool) =>
    match res with
    | .error err => some (.error err, { q with pool := pool })
    | .ok rid =>
      (b.reg q.st cap rid).map fun (err, st) =>
        (if err = .ok then .ok rid else .error err, { pool := pool, st := st })

/-- `cleanq_deregister`: the pool drops the region, then the backend is told. -/
def cleanqDeregister (q : Cleanq σ) (rid : RegionId) : Option (Errval × Cleanq σ) :=
  match regionPoolRemoveRegion q.pool rid with
  | (.ok, pool) => (b.dereg q.st rid).map fun (err, st) => (err, { pool := pool, st := st })
  | (err, pool) => some (err, { q with pool := pool })

/-- A call of the application on the queue, with the outcome of each allocation
`cleanq_register` makes in the pool. -/
inductive Call
  | register (cap : Capref) (callocOk slabOk : Bool)
  | deregister (rid : RegionId)
  | enqueue (buf : CleanqBuf)
  | dequeue
  deriving DecidableEq, Repr

/-- What a call returns: its error value, the assigned id, or the dequeued descriptor. -/
inductive Reply
  | done (err : Errval)
  | registered (rid : RegionId)
  | dequeued (buf : CleanqBuf)
  deriving DecidableEq, Repr

/-- One call of the application on the queue. -/
def cleanqCall (q : Cleanq σ) : Call → Option (Reply × Cleanq σ)
  | .register cap c s => (cleanqRegister b q cap c s).map fun (res, q) =>
      (match res with | .ok rid => .registered rid | .error err => .done err, q)
  | .deregister rid => (cleanqDeregister b q rid).map fun (err, q) => (.done err, q)
  | .enqueue buf => (cleanqEnqueue b q buf).map fun (err, q) => (.done err, q)
  | .dequeue => (cleanqDequeue b q).map fun (res, q) =>
      (match res with | .ok buf => .dequeued buf | .error err => .done err, q)

/-- A run of calls: the replies in order and the final queue; `none` if a call faults. -/
def runCalls (q : Cleanq σ) : List Call → Option (List Reply × Cleanq σ)
  | [] => some ([], q)
  | c :: cs => (cleanqCall b q c).bind fun (r, q) =>
      (runCalls q cs).map fun (rs, q) => (r :: rs, q)

/-! ## The bounds check guards the backend -/

theorem cleanqEnqueue_of_checkBounds (q : Cleanq σ) (buf : CleanqBuf)
    (h : regionPoolBufferCheckBounds q.pool buf.rid buf.offset buf.length buf.validData
      buf.validLength = true) :
    cleanqEnqueue b q buf = (b.enq q.st buf).map fun (err, st) => (err, { q with st := st }) := by
  simp [cleanqEnqueue, h]

end Frontend

/-- A descriptor that starts at `2^64 - 1` in region `1` and is two bytes long. -/
def wrappingBuf : CleanqBuf :=
  { offset := 0xFFFFFFFFFFFFFFFF, length := 2, validData := 0, validLength := 2, flags := 0,
    rid := 1 }

/-- Region `1` has `4096` bytes, yet every backend receives `wrappingBuf`, which ends at
`2^64 + 1`. -/
theorem enqueue_forwards_wrapping_buffer {σ : Type} (b : Backend σ) (st : σ) :
    wrappingBuf.offset.toNat + wrappingBuf.length.toNat > 4096 ∧
    poolOfOneRegion.pool (slotOf poolOfOneRegion wrappingBuf.rid) = some ⟨1, 0x10000, 4096⟩ ∧
    cleanqEnqueue b ⟨poolOfOneRegion, st⟩ wrappingBuf =
      (b.enq st wrappingBuf).map fun (err, st) => (err, ⟨poolOfOneRegion, st⟩) := by
  have hcb : regionPoolBufferCheckBounds poolOfOneRegion wrappingBuf.rid wrappingBuf.offset
      wrappingBuf.length wrappingBuf.validData wrappingBuf.validLength = true := by decide
  exact ⟨by decide, by decide, cleanqEnqueue_of_checkBounds b ⟨poolOfOneRegion, st⟩ _ hcb⟩

end CleanQ
