import CleanQ.Loopback

/-!
# The FF backend (`ff_queue.c`, `ffq_impl.h`)

One direction of an FF channel is an array of message slots in shared memory, eight
64-bit words each. A slot is free while its word `0` holds `FFQ_SLOT_EMPTY`. The sender
tests word `0`, writes words `1` to `5` and then word `0`; the receiver tests word `0`,
copies words `0` to `5` and then writes `FFQ_SLOT_EMPTY` back into word `0`. Each endpoint
keeps its own position `pos` into the array.

Sender and receiver run at once, so one direction of the channel is a transition system
(`ffqStep`): an action is a call, or the next single read or write of a shared word by one
endpoint. The runs are the interleavings of the two endpoints' accesses, each endpoint's
taken in program order. That is an assumption of the model, not something the code
ensures: the sender's barrier orders its payload writes before word `0`, and the
receiver's orders its copy before the write of `FFQ_SLOT_EMPTY`, but nothing orders the
receiver's test of word `0` before its copy, and runs in which those loads are reordered
are not modelled. The receiver hands command messages to its region pool
(`ffHandleCommand`); the calls' results are logged in the state.

Two slips of the source show up in the model as they are:

* `ff_enqueue` returns `sent ? CLEANQ_ERR_QUEUE_FULL : CLEANQ_ERR_OK`, the opposite of
  what `ffq_impl_send` reports;
* "bump the position" is `pos = pos % size`, so both endpoints stay at slot `0`.

Proved here:

* `ff_enqueue_reports_sent_as_full`: on an empty channel, a descriptor is sent and
  reported `QUEUE_FULL`, a second one is dropped and reported `OK`, and the receiver gets
  the first one.
* `ffq_takes_what_was_reported_full`: over every interleaving, both endpoints stay on
  slot `0`, and the slot handshake itself is sound: the receiver takes, in order and
  intact, exactly the descriptors reported `QUEUE_FULL`, and never copies the slot while
  the sender writes it. So the inverted result is the only thing between `ff_enqueue`'s
  report and what arrives.
-/

namespace CleanQ

/-- `FFQ_SLOT_EMPTY`. -/
def ffqSlotEmpty : UInt64 := 0xFFFFFFFFFFFFFFFF

/-- `FFQ_DEFAULT_SIZE`, the slots of each direction. -/
def ffqDefaultSize : Nat := 64

/-- `FFQ_CMD_REGISTER`. -/
def ffqCmdRegister : UInt64 := 1

/-- `FFQ_CMD_DEREGISTER`. -/
def ffqCmdDeregister : UInt64 := 2

/-- The descriptor `ff_register` hands to `ff_enqueue`: the command in the flags word. -/
def ffRegisterBuf (cap : Capref) (rid : RegionId) : CleanqBuf :=
  ⟨cap.vaddr, cap.len, cap.paddr, 0, ffqCmdRegister, rid⟩

/-- The descriptor `ff_deregister` hands to `ff_enqueue`. -/
def ffDeregisterBuf (rid : RegionId) : CleanqBuf := ⟨0, 0, 0, 0, ffqCmdDeregister, rid⟩

/-- Word `j` of the message `ff_enqueue` sends for `buf`: the arguments `arg1` to `arg6`
of `ffq_impl_send`. -/
def ffqArg (buf : CleanqBuf) : Nat → UInt64
  | 0 => buf.rid.toUInt64
  | 1 => buf.offset
  | 2 => buf.length
  | 3 => buf.validData
  | 4 => buf.validLength
  | _ => buf.flags

/-- The copy of word `j` into the out-parameters of `ffq_impl_recv`; the 8-byte store
through `(uint64_t *)region_id` leaves its low half in the 4-byte `region_id`. Its high half
lands in the 4 bytes after `region_id` in the caller's frame, which the model does not
represent. -/
def ffqSetArg (acc : CleanqBuf) : Nat → UInt64 → CleanqBuf
  | 0, w => { acc with rid := w.toUInt32 }
  | 1, w => { acc with offset := w }
  | 2, w => { acc with length := w }
  | 3, w => { acc with validData := w }
  | 4, w => { acc with validLength := w }
  | _, w => { acc with flags := w }

/-- Where the sender is inside `ff_enqueue`. -/
inductive FfqTxPc
  | idle
  /-- `ffq_impl_can_send`: about to read word `0`. -/
  | canSend (buf : CleanqBuf)
  /-- About to write word `j`, `1 ≤ j ≤ 5`. -/
  | write (j : Nat) (buf : CleanqBuf)
  /-- About to write word `0`, which publishes the message. -/
  | publish (buf : CleanqBuf)
  deriving DecidableEq, Repr

/-- Where the receiver is inside `ff_dequeue`, with the words copied so far. -/
inductive FfqRxPc
  | idle
  /-- `ffq_impl_can_recv`: about to read word `0`. -/
  | canRecv
  /-- About to copy word `j`, `0 ≤ j ≤ 5`. -/
  | copy (j : Nat) (acc : CleanqBuf)
  /-- About to write `FFQ_SLOT_EMPTY` into word `0`. -/
  | clear (acc : CleanqBuf)
  deriving DecidableEq, Repr

/-- One direction of an FF channel: the shared slots `slots[i].data[j]`, the position of
each endpoint, where each one is in its call, and the receiver's region pool. The last
three fields log what the calls returned and which messages the receiver took. -/
structure FfqSys where
  slots : Nat → Nat → UInt64
  txPos : Nat
  rxPos : Nat
  tx : FfqTxPc
  rx : FfqRxPc
  pool : RegionPool
  enqReplies : List (CleanqBuf × Errval)
  deqReplies : List (Except Errval CleanqBuf)
  taken : List CleanqBuf

/-- An action of the system: a call, or the next shared access of one endpoint. A receiver
step may handle a register command, whose allocations succeed as `callocOk` and
`slabOk` say. -/
inductive FfqAct
  | enqueue (buf : CleanqBuf)
  | send
  | dequeue
  | recv (callocOk slabOk : Bool)
  deriving DecidableEq, Repr

/-- The store of `w` into word `j` of slot `i`. -/
def ffqWrite (slots : Nat → Nat → UInt64) (i j : Nat) (w : UInt64) : Nat → Nat → UInt64 :=
  Function.update slots i (Function.update (slots i) j w)

/-- The command branch of `ff_dequeue`: `handle_register_command` for
`FFQ_CMD_REGISTER`, `handle_deregister_command` for any other non-zero flags. A failure
is only printed. -/
def ffHandleCommand (pool : RegionPool) (acc : CleanqBuf) (callocOk slabOk : Bool) :
    Option RegionPool :=
  if acc.flags = ffqCmdRegister then
    (regionPoolAddRegionWithId pool ⟨acc.offset, acc.validData, acc.length⟩ acc.rid callocOk
      slabOk).map Prod.snd
  else some (regionPoolRemoveRegion pool acc.rid).2

/-- The sender's next step: `ffq_impl_send` and the result `ff_enqueue` makes of it. -/
def ffqSendStep (s : FfqSys) : Option FfqSys :=
  match s.tx with
  | .idle => none
  | .canSend buf =>
    if s.slots s.txPos 0 = ffqSlotEmpty then some { s with tx := .write 1 buf }
    else some { s with tx := .idle, enqReplies := s.enqReplies ++ [(buf, .ok)] }
  | .write j buf =>
    some { s with slots := ffqWrite s.slots s.txPos j (ffqArg buf j),
                  tx := if j < 5 then .write (j + 1) buf else .publish buf }
  | .publish buf =>
    if ffqArg buf 0 = ffqSlotEmpty then none
    else some { s with slots := ffqWrite s.slots s.txPos 0 (ffqArg buf 0),
                       txPos := s.txPos % ffqDefaultSize, tx := .idle,
                       enqReplies := s.enqReplies ++ [(buf, .queueFull)] }

/-- The receiver's next step: `ffq_impl_recv`, then the flags test of `ff_dequeue`, which
returns a data message and handles a command before it tries again. -/
def ffqRecvStep (s : FfqSys) (callocOk slabOk : Bool) : Option FfqSys :=
  match s.rx with
  | .idle => none
  | .canRecv =>
    if s.slots s.rxPos 0 ≠ ffqSlotEmpty then some { s with rx := .copy 0 zeroBuf }
    else some { s with rx := .idle, deqReplies := s.deqReplies ++ [.error .queueEmpty] }
  | .copy j acc =>
    let acc := ffqSetArg acc j (s.slots s.rxPos j)
    some { s with rx := if j < 5 then .copy (j + 1) acc else .clear acc }
  | .clear acc =>
    let s := { s with slots := ffqWrite s.slots s.rxPos 0 ffqSlotEmpty,
                      rxPos := s.rxPos % ffqDefaultSize, taken := s.taken ++ [acc] }
    if acc.flags = 0 then some { s with rx := .idle, deqReplies := s.deqReplies ++ [.ok acc] }
    else (ffHandleCommand s.pool acc callocOk slabOk).map fun pool =>
      { s with pool := pool, rx := .canRecv }

/-- One transition; `none` when the action is not enabled or the step faults. -/
def ffqStep (s : FfqSys) : FfqAct → Option FfqSys
  | .enqueue buf => match s.tx with
    | .idle => some { s with tx := .canSend buf }
    | _ => none
  | .send => ffqSendStep s
  | .dequeue => match s.rx with
    | .idle => some { s with rx := .canRecv }
    | _ => none
  | .recv c sl => ffqRecvStep s c sl

/-- Both endpoints after `cleanq_ffq_create`, over slots whose word `0` is
`FFQ_SLOT_EMPTY`; the receiver's pool is drawn with `rand() = rnd`. -/
def ffqInit (rnd : UInt64) : FfqSys :=
  ⟨fun _ _ => ffqSlotEmpty, 0, 0, .idle, .idle, regionPoolInit rnd, [], [], []⟩

/-- The sender's seven shared accesses of one `ff_enqueue` that finds a free slot. -/
def ffqSendAll : List FfqAct := List.replicate 7 .send

/-- The receiver's eight shared accesses of one `ff_dequeue` that finds a data message. -/
def ffqRecvAll : List FfqAct := List.replicate 8 (.recv true true)

/-- On an empty channel `ff_enqueue` publishes `a` and reports `QUEUE_FULL`; a second
`ff_enqueue` finds the slot taken, drops `b` and reports `OK`. The receiver then gets `a`
and finds nothing more: the only descriptor reported `OK` is lost, and the one received was
reported full. -/
theorem ff_enqueue_reports_sent_as_full :
    ∃ s, ([.enqueue ⟨0, 2048, 0, 2048, 0, 1⟩] ++ ffqSendAll ++
        [.enqueue ⟨2048, 2048, 0, 2048, 0, 1⟩, .send, .dequeue] ++ ffqRecvAll ++
        [.dequeue, .recv true true] : List FfqAct).foldlM ffqStep (ffqInit 0) = some s ∧
      s.enqReplies = [(⟨0, 2048, 0, 2048, 0, 1⟩, .queueFull), (⟨2048, 2048, 0, 2048, 0, 1⟩, .ok)] ∧
      s.deqReplies = [.ok ⟨0, 2048, 0, 2048, 0, 1⟩, .error .queueEmpty] :=
  ⟨_, rfl, rfl, rfl⟩

/-! ## The handshake delivers what `ff_enqueue` reported full -/

/-- The descriptors `ff_enqueue` reported as `QUEUE_FULL`, in order: exactly those it
published. -/
def FfqSys.reportedFull (s : FfqSys) : List CleanqBuf :=
  (s.enqReplies.filter fun r => r.2 = .queueFull).map Prod.fst

/-- Slot `0` holds the six words of `m`. -/
def FfqSys.Holds (s : FfqSys) (m : CleanqBuf) : Prop :=
  ∀ i ≤ 5, s.slots 0 i = ffqArg m i

/-- The copy of words `j` to `5` of `w` into `acc`. -/
def ffqCopyFrom (w : Nat → UInt64) (acc : CleanqBuf) (j : Nat) : CleanqBuf :=
  (List.range' j (6 - j)).foldl (fun acc i => ffqSetArg acc i (w i)) acc

/-- Both endpoints after `cleanq_ffq_create` on a channel whose slots all hold
`FFQ_SLOT_EMPTY` in word `0`; the other words and the receiver's pool may hold anything. -/
structure FfqSys.IsInit (s : FfqSys) : Prop where
  empty : ∀ i, s.slots i 0 = ffqSlotEmpty
  txPos_zero : s.txPos = 0
  rxPos_zero : s.rxPos = 0
  tx_idle : s.tx = .idle
  rx_idle : s.rx = .idle
  enqReplies_nil : s.enqReplies = []
  deqReplies_nil : s.deqReplies = []
  taken_nil : s.taken = []

/-- The states some interleaving reaches. -/
inductive FfqReachable : FfqSys → Prop
  | init {s : FfqSys} : s.IsInit → FfqReachable s
  | step {s s' : FfqSys} (a : FfqAct) : FfqReachable s → ffqStep s a = some s' → FfqReachable s'

theorem u32_toUInt64_toUInt32 (x : UInt32) : x.toUInt64.toUInt32 = x :=
  u32_eq_iff.mpr (by rw [u64_toNat_toUInt32, u32_toNat_toUInt64]; exact Nat.mod_eq_of_lt (u32_toNat_lt x))

/-- Word `0` of a message is a 32-bit id, never `FFQ_SLOT_EMPTY`: the `assert` of
`ffq_impl_send` holds. -/
theorem ffqArg_zero_ne_empty (buf : CleanqBuf) : ffqArg buf 0 ≠ ffqSlotEmpty := fun h => by
  have hw := congrArg UInt64.toNat h
  have := u32_toNat_lt buf.rid
  rw [show ffqSlotEmpty.toNat = 2 ^ 64 - 1 from rfl] at hw
  simp only [ffqArg, u32_toNat_toUInt64] at hw
  omega

theorem ffqCopyFrom_succ (w : Nat → UInt64) (acc : CleanqBuf) {j : Nat} (hj : j ≤ 5) :
    ffqCopyFrom w acc j = ffqCopyFrom w (ffqSetArg acc j (w j)) (j + 1) := by
  unfold ffqCopyFrom
  rw [show 6 - j = (6 - (j + 1)) + 1 by omega]
  rfl

theorem ffqCopyFrom_six (w : Nat → UInt64) (acc : CleanqBuf) : ffqCopyFrom w acc 6 = acc := rfl

/-- Copying the six words of a message gives the message back: no field is lost. -/
theorem ffqCopyFrom_zero (m acc : CleanqBuf) : ffqCopyFrom (ffqArg m) acc 0 = m := by
  simp only [ffqCopyFrom, Nat.sub_zero, List.range', List.foldl, ffqSetArg, ffqArg,
    u32_toUInt64_toUInt32]

@[simp] theorem reportedFull_ok (s : FfqSys) (buf : CleanqBuf) :
    ({ s with enqReplies := s.enqReplies ++ [(buf, .ok)] } : FfqSys).reportedFull =
      s.reportedFull := by
  simp [FfqSys.reportedFull]

@[simp] theorem reportedFull_full (s : FfqSys) (buf : CleanqBuf) :
    ({ s with enqReplies := s.enqReplies ++ [(buf, .queueFull)] } : FfqSys).reportedFull =
      s.reportedFull ++ [buf] := by
  simp [FfqSys.reportedFull]

/-- The slot is free, and every descriptor reported full was taken. -/
def FfqSys.Free (s : FfqSys) : Prop :=
  s.reportedFull = s.taken ∧ s.slots 0 0 = ffqSlotEmpty

/-- The slot holds `m`, the one descriptor reported full and not yet taken. -/
def FfqSys.Full (s : FfqSys) (m : CleanqBuf) : Prop :=
  s.reportedFull = s.taken ++ [m] ∧ s.Holds m

/-- Words `1` to `j - 1` of the slot are those of `buf`. -/
def FfqSys.Written (s : FfqSys) (buf : CleanqBuf) (j : Nat) : Prop :=
  ∀ i, 1 ≤ i → i < j → s.slots 0 i = ffqArg buf i

theorem FfqSys.Full.word_ne {s : FfqSys} {m : CleanqBuf} (h : s.Full m) :
    s.slots 0 0 ≠ ffqSlotEmpty := by
  rw [h.2 0 (Nat.zero_le _)]; exact ffqArg_zero_ne_empty m

/-- What holds in every reachable state: both endpoints stay on slot `0`, which is free or
full. The sender writes only into a free slot, the receiver copies only a full one, and
the receiver returns the taken data messages. -/
structure FfqInv (s : FfqSys) : Prop where
  txPos_zero : s.txPos = 0
  rxPos_zero : s.rxPos = 0
  slot : s.Free ∨ ∃ m, s.Full m
  write : ∀ j buf, s.tx = .write j buf → 1 ≤ j ∧ j ≤ 5 ∧ s.Free ∧ s.Written buf j
  publish : ∀ buf, s.tx = .publish buf → s.Free ∧ s.Written buf 6
  copy : ∀ j acc, s.rx = .copy j acc → j ≤ 5 ∧
    ∃ m, s.Full m ∧ ffqCopyFrom (ffqArg m) acc j = m
  clear : ∀ acc, s.rx = .clear acc → s.Full acc
  replies : s.deqReplies.filterMap Except.toOption = s.taken.filter fun b => b.flags = 0

theorem ffqInit_isInit (rnd : UInt64) : (ffqInit rnd).IsInit :=
  ⟨fun _ => rfl, rfl, rfl, rfl, rfl, rfl, rfl, rfl⟩

theorem FfqSys.IsInit.inv {s : FfqSys} (h : s.IsInit) : FfqInv s where
  txPos_zero := h.txPos_zero
  rxPos_zero := h.rxPos_zero
  slot := .inl ⟨by simp [FfqSys.reportedFull, h.enqReplies_nil, h.taken_nil], h.empty 0⟩
  write _ _ hs := by rw [h.tx_idle] at hs; cases hs
  publish _ hs := by rw [h.tx_idle] at hs; cases hs
  copy _ _ hs := by rw [h.rx_idle] at hs; cases hs
  clear _ hs := by rw [h.rx_idle] at hs; cases hs
  replies := by simp [h.deqReplies_nil, h.taken_nil]

section Preservation

variable {s : FfqSys}

theorem ffqWrite_apply (sl : Nat → Nat → UInt64) (i j : Nat) (w : UInt64) (k l : Nat) :
    ffqWrite sl i j w k l = if k = i ∧ l = j then w else sl k l := by
  unfold ffqWrite
  by_cases hk : k = i
  · subst hk; rw [Function.update_same, Function.update_apply]; simp
  · rw [Function.update_noteq hk]; simp [hk]

theorem FfqInv.free_of_empty (h : FfqInv s) (hw : s.slots 0 0 = ffqSlotEmpty) : s.Free :=
  h.slot.elim id fun ⟨_, hm⟩ => absurd hw hm.word_ne

/-- While the slot is free the receiver copies nothing. -/
theorem FfqInv.rx_of_free (h : FfqInv s) (hf : s.Free) :
    (∀ j acc, s.rx ≠ .copy j acc) ∧ ∀ acc, s.rx ≠ .clear acc :=
  ⟨fun j acc hr => let ⟨_, _, hm, _⟩ := h.copy j acc hr; hm.word_ne hf.2,
   fun acc hr => (h.clear acc hr).word_ne hf.2⟩

/-- While the slot is full the sender writes nothing. -/
theorem FfqInv.tx_of_full (h : FfqInv s) {m : CleanqBuf} (hm : s.Full m) :
    (∀ j buf, s.tx ≠ .write j buf) ∧ ∀ buf, s.tx ≠ .publish buf :=
  ⟨fun j buf ht => hm.word_ne (h.write j buf ht).2.2.1.2,
   fun buf ht => hm.word_ne (h.publish buf ht).1.2⟩

/-- A sender step that moves only its program counter. -/
theorem FfqInv.setTx (h : FfqInv s) {t : FfqTxPc}
    (hw : ∀ j buf, t = .write j buf → 1 ≤ j ∧ j ≤ 5 ∧ s.Free ∧ s.Written buf j)
    (hp : ∀ buf, t ≠ .publish buf) : FfqInv { s with tx := t } :=
  { h with write := hw, publish := fun buf ht => absurd ht (hp buf) }

/-- A receiver step that moves only its program counter. -/
theorem FfqInv.setRx (h : FfqInv s) {r : FfqRxPc}
    (hc : ∀ j acc, r = .copy j acc → j ≤ 5 ∧ ∃ m, s.Full m ∧ ffqCopyFrom (ffqArg m) acc j = m)
    (hcl : ∀ acc, r = .clear acc → s.Full acc) : FfqInv { s with rx := r } :=
  { h with copy := hc, clear := hcl }

/-- The invariant reads the replies of `ff_enqueue` only through `reportedFull`. -/
theorem FfqInv.setEnqReplies (h : FfqInv s) {e : List (CleanqBuf × Errval)}
    (he : FfqSys.reportedFull { s with enqReplies := e } = s.reportedFull) :
    FfqInv { s with enqReplies := e } := by
  obtain ⟨h1, h2, h3, h4, h5, h6, h7, h8⟩ := h
  refine ⟨h1, h2, ?_, ?_, ?_, ?_, ?_, h8⟩ <;> simp only [FfqSys.Free, FfqSys.Full, he]
  exacts [h3, h4, h5, h6, h7]

/-- The store of word `j ≥ 1` keeps the slot free and adds word `j` of the message. -/
theorem FfqInv.write_step (h : FfqInv s) {j : Nat} {buf : CleanqBuf} (htx : s.tx = .write j buf) :
    FfqInv { s with slots := ffqWrite s.slots s.txPos j (ffqArg buf j),
                    tx := if j < 5 then .write (j + 1) buf else .publish buf } := by
  obtain ⟨hj1, hj5, hf, hw⟩ := h.write j buf htx
  have hq := h.rx_of_free hf
  have hsl : ∀ i, ffqWrite s.slots s.txPos j (ffqArg buf j) 0 i =
      if i = j then ffqArg buf j else s.slots 0 i := fun i => by simp [ffqWrite_apply, h.txPos_zero]
  have hfree : FfqSys.Free { s with slots := ffqWrite s.slots s.txPos j (ffqArg buf j) } :=
    ⟨hf.1, by dsimp only; rw [hsl, if_neg (by omega)]; exact hf.2⟩
  have hnext : FfqSys.Written { s with slots := ffqWrite s.slots s.txPos j (ffqArg buf j) } buf
      (j + 1) := fun i h1 h2 => by
    dsimp only; rw [hsl]; split
    · subst_vars; rfl
    · exact hw i h1 (by omega)
  refine ⟨h.txPos_zero, h.rxPos_zero, .inl hfree, fun j' b ht => ?_, fun b ht => ?_,
    fun j' acc hr => absurd hr (hq.1 j' acc), fun acc hr => absurd hr (hq.2 acc), h.replies⟩
  all_goals dsimp only at ht; split at ht <;> cases ht
  · exact ⟨by omega, by omega, hfree, hnext⟩
  · exact ⟨hfree, by rwa [show 6 = j + 1 by omega]⟩

/-- The store of word `0` publishes the message: the slot is full with it, and
`ff_enqueue` reports it. -/
theorem FfqInv.publish_step (h : FfqInv s) {buf : CleanqBuf} (htx : s.tx = .publish buf) :
    FfqInv { s with slots := ffqWrite s.slots s.txPos 0 (ffqArg buf 0),
                    txPos := s.txPos % ffqDefaultSize, tx := .idle,
                    enqReplies := s.enqReplies ++ [(buf, .queueFull)] } := by
  obtain ⟨hf, hw⟩ := h.publish buf htx
  have hq := h.rx_of_free hf
  have hrf : FfqSys.reportedFull { s with enqReplies := s.enqReplies ++ [(buf, .queueFull)] } =
      s.taken ++ [buf] := by rw [reportedFull_full, hf.1]
  refine ⟨by simp [h.txPos_zero], h.rxPos_zero, .inr ⟨buf, hrf, fun i hi => ?_⟩,
    by rintro _ _ ⟨⟩, by rintro _ ⟨⟩, fun j acc hr => absurd hr (hq.1 j acc),
    fun acc hr => absurd hr (hq.2 acc), h.replies⟩
  dsimp only; rw [ffqWrite_apply, h.txPos_zero]; split
  · next hi0 => rw [hi0.2]
  · exact hw i (by omega) (by omega)

/-- The copy of word `j` of the full slot: the words copied so far are those of its
message. -/
theorem FfqInv.copy_step (h : FfqInv s) {j : Nat} {acc : CleanqBuf} (hrx : s.rx = .copy j acc) :
    FfqInv { s with rx := if j < 5 then .copy (j + 1) (ffqSetArg acc j (s.slots s.rxPos j))
                          else .clear (ffqSetArg acc j (s.slots s.rxPos j)) } := by
  obtain ⟨hj, m, hm, hc⟩ := h.copy j acc hrx
  have hacc : ffqCopyFrom (ffqArg m) (ffqSetArg acc j (s.slots s.rxPos j)) (j + 1) = m := by
    rw [h.rxPos_zero, hm.2 j hj, ← ffqCopyFrom_succ _ _ hj, hc]
  refine h.setRx (fun j' a hr => ?_) (fun a hr => ?_) <;> split at hr <;> cases hr
  · exact ⟨by omega, m, hm, hacc⟩
  · rw [show j + 1 = 6 by omega, ffqCopyFrom_six] at hacc; rwa [hacc]

/-- The store of `FFQ_SLOT_EMPTY` frees the slot, and the copied message is taken. -/
theorem FfqInv.clear_step (h : FfqInv s) {acc : CleanqBuf} (hrx : s.rx = .clear acc)
    {r : FfqRxPc} (hr : r = .idle ∨ r = .canRecv) (pool : RegionPool)
    {d : List (Except Errval CleanqBuf)}
    (hd : d.filterMap Except.toOption = (s.taken ++ [acc]).filter fun b => b.flags = 0) :
    FfqInv { s with slots := ffqWrite s.slots s.rxPos 0 ffqSlotEmpty,
                    rxPos := s.rxPos % ffqDefaultSize, taken := s.taken ++ [acc], rx := r,
                    pool := pool, deqReplies := d } := by
  have hm := h.clear acc hrx
  have hq := h.tx_of_full hm
  refine ⟨h.txPos_zero, by simp [h.rxPos_zero], .inl ⟨hm.1, by simp [ffqWrite_apply, h.rxPos_zero]⟩,
    fun j b ht => absurd ht (hq.1 j b), fun b ht => absurd ht (hq.2 b), fun j a hr' => ?_,
    fun a hr' => ?_, hd⟩ <;> rcases hr with rfl | rfl <;> cases hr'

theorem FfqInv.send (h : FfqInv s) {s' : FfqSys} (hs : ffqSendStep s = some s') : FfqInv s' := by
  unfold ffqSendStep at hs
  split at hs
  next => cases hs
  next buf _ =>
    split at hs <;> cases hs
    next hw =>
      rw [h.txPos_zero] at hw
      exact h.setTx (by rintro j b ⟨⟩; exact ⟨le_rfl, by decide, h.free_of_empty hw, by
        intro i h1 h2; omega⟩) (by rintro _ ⟨⟩)
    next =>
      have hi : FfqInv { s with tx := .idle } := h.setTx (by rintro _ _ ⟨⟩) (by rintro _ ⟨⟩)
      exact hi.setEnqReplies (reportedFull_ok _ buf)
  next j buf htx => cases hs; exact h.write_step htx
  next buf htx =>
    split at hs
    · cases hs
    · cases hs; exact h.publish_step htx

theorem FfqInv.recv (h : FfqInv s) {c sl : Bool} {s' : FfqSys} (hs : ffqRecvStep s c sl = some s') :
    FfqInv s' := by
  unfold ffqRecvStep at hs
  split at hs
  next => cases hs
  next =>
    split at hs <;> cases hs
    next hw =>
      rw [h.rxPos_zero] at hw
      obtain ⟨m, hm⟩ := h.slot.resolve_left fun hf => hw hf.2
      exact h.setRx (by rintro j a ⟨⟩; exact ⟨by decide, m, hm, ffqCopyFrom_zero m zeroBuf⟩)
        (by rintro _ ⟨⟩)
    next =>
      exact { h.setRx (by rintro _ _ ⟨⟩) (by rintro _ ⟨⟩) with
        replies := by simpa [Except.toOption] using h.replies }
  next j acc hrx => cases hs; exact h.copy_step hrx
  next acc hrx =>
    dsimp only at hs
    split at hs
    next hf =>
      cases hs; exact h.clear_step hrx (.inl rfl) s.pool (by simp [Except.toOption, h.replies, hf])
    next hf =>
      obtain ⟨pool, -, rfl⟩ := Option.map_eq_some'.mp hs
      exact h.clear_step hrx (.inr rfl) pool (by simp [h.replies, hf])

theorem FfqInv.step (h : FfqInv s) {a : FfqAct} {s' : FfqSys} (hs : ffqStep s a = some s') :
    FfqInv s' := by
  cases a with
  | send => exact h.send hs
  | recv => exact h.recv hs
  | enqueue =>
    simp only [ffqStep] at hs; split at hs <;> cases hs
    exact h.setTx (by rintro _ _ ⟨⟩) (by rintro _ ⟨⟩)
  | dequeue =>
    simp only [ffqStep] at hs; split at hs <;> cases hs
    exact h.setRx (by rintro _ _ ⟨⟩) (by rintro _ ⟨⟩)

end Preservation

theorem FfqReachable.inv {s : FfqSys} (h : FfqReachable s) : FfqInv s := by
  induction h with
  | init hi => exact hi.inv
  | step _ _ hs ih => exact ih.step hs

theorem FfqReachable.run {s : FfqSys} (h : FfqReachable s) :
    ∀ {acts : List FfqAct} {s' : FfqSys}, acts.foldlM ffqStep s = some s' → FfqReachable s'
  | [], _, hs => by cases hs; exact h
  | a :: acts, _, hs => by
    obtain ⟨t, ht, hs⟩ := Option.bind_eq_some.mp hs
    exact (h.step a ht).run hs

/-- Over every interleaving of `ff_enqueue` and `ff_dequeue`: both endpoints stay on slot
`0`; the receiver takes, in order and intact, what `ff_enqueue` reported as
`QUEUE_FULL`, with at most one such descriptor still in the slot; the sender never writes
the slot while the receiver copies it; and `ff_dequeue` returns the taken data messages. -/
theorem ffq_takes_what_was_reported_full {s : FfqSys} (h : FfqReachable s) :
    s.txPos = 0 ∧ s.rxPos = 0 ∧
    (∃ inFlight : List CleanqBuf, s.reportedFull = s.taken ++ inFlight ∧ inFlight.length ≤ 1) ∧
    ((∃ j buf, s.tx = .write j buf) ∨ (∃ buf, s.tx = .publish buf) →
      (∀ j acc, s.rx ≠ .copy j acc) ∧ ∀ acc, s.rx ≠ .clear acc) ∧
    s.deqReplies.filterMap Except.toOption = s.taken.filter fun b => b.flags = 0 := by
  have hi := h.inv
  refine ⟨hi.txPos_zero, hi.rxPos_zero, ?_, ?_, hi.replies⟩
  · rcases hi.slot with hf | ⟨m, hm⟩
    · exact ⟨[], by simpa using hf.1, by simp⟩
    · exact ⟨[m], hm.1, le_rfl⟩
  · rintro (⟨j, buf, htx⟩ | ⟨buf, htx⟩)
    · exact hi.rx_of_free (hi.write j buf htx).2.2.1
    · exact hi.rx_of_free (hi.publish buf htx).1

/-- A channel that delivered one descriptor and is writing the second: the receiver took
and returned `⟨0, 2048, 0, 2048, 0, 1⟩`, and the sender, past its test of word `0`, is
about to write word `3` of `⟨2048, 2048, 0, 2048, 0, 1⟩`. -/
theorem ffq_takes_what_was_reported_full_second :
    ∃ s, ([.enqueue ⟨0, 2048, 0, 2048, 0, 1⟩] ++ ffqSendAll ++ [.dequeue] ++ ffqRecvAll ++
        [.enqueue ⟨2048, 2048, 0, 2048, 0, 1⟩, .send, .send, .send] : List FfqAct).foldlM
          ffqStep (ffqInit 0) = some s ∧
      FfqReachable s ∧ s.reportedFull = [⟨0, 2048, 0, 2048, 0, 1⟩] ∧
      s.taken = [⟨0, 2048, 0, 2048, 0, 1⟩] ∧ s.tx = .write 3 ⟨2048, 2048, 0, 2048, 0, 1⟩ ∧
      s.deqReplies = [.ok ⟨0, 2048, 0, 2048, 0, 1⟩] ∧
      s.txPos = 0 ∧ s.rxPos = 0 ∧
      (∃ inFlight : List CleanqBuf, s.reportedFull = s.taken ++ inFlight ∧ inFlight.length ≤ 1) ∧
      ((∃ j buf, s.tx = .write j buf) ∨ (∃ buf, s.tx = .publish buf) →
        (∀ j acc, s.rx ≠ .copy j acc) ∧ ∀ acc, s.rx ≠ .clear acc) ∧
      s.deqReplies.filterMap Except.toOption = s.taken.filter fun b => b.flags = 0 := by
  refine ⟨_, rfl, ?_⟩
  have hr := @FfqReachable.run (ffqInit 0) (.init (ffqInit_isInit 0))
    ([.enqueue ⟨0, 2048, 0, 2048, 0, 1⟩] ++ ffqSendAll ++ [.dequeue] ++ ffqRecvAll ++
      [.enqueue ⟨2048, 2048, 0, 2048, 0, 1⟩, .send, .send, .send] : List FfqAct) _ (by rfl)
  exact ⟨hr, rfl, rfl, rfl, rfl, ffq_takes_what_was_reported_full hr⟩

/-! ## The flags word carries the commands -/

/-- The receiver decodes the descriptor of `ff_register` as a registration of its region. -/
@[simp] theorem ffHandleCommand_register (pool : RegionPool) (cap : Capref) (rid : RegionId)
    (c sl : Bool) :
    ffHandleCommand pool (ffRegisterBuf cap rid) c sl =
      (regionPoolAddRegionWithId pool cap rid c sl).map Prod.snd := rfl

/-- The receiver decodes the descriptor of `ff_deregister` as a removal of its region. -/
@[simp] theorem ffHandleCommand_deregister (pool : RegionPool) (rid : RegionId) (c sl : Bool) :
    ffHandleCommand pool (ffDeregisterBuf rid) c sl = some (regionPoolRemoveRegion pool rid).2 := rfl

/-- `q` is `p` after the descriptors `cmds` were handed to the command branch of
`ff_dequeue` in order, each allocation succeeding or failing. -/
inductive CommandsApplied : RegionPool → List CleanqBuf → RegionPool → Prop
  | nil (p : RegionPool) : CommandsApplied p [] p
  | snoc {p q q' : RegionPool} {cmds : List CleanqBuf} {acc : CleanqBuf} (c sl : Bool) :
      CommandsApplied p cmds q → ffHandleCommand q acc c sl = some q' →
      CommandsApplied p (cmds ++ [acc]) q'

/-- Only the receiver's store of `FFQ_SLOT_EMPTY` takes a message, and only a taken message
with nonzero flags changes the receiver's pool, through the command branch. -/
theorem ffqStep_taken_pool {s s' : FfqSys} {a : FfqAct} (hs : ffqStep s a = some s') :
    (s'.taken = s.taken ∧ s'.pool = s.pool) ∨
    ∃ acc c sl, s'.taken = s.taken ++ [acc] ∧
      ((acc.flags = 0 ∧ s'.pool = s.pool) ∨ (acc.flags ≠ 0 ∧ ffHandleCommand s.pool acc c sl = some s'.pool)) := by
  cases a with
  | send =>
    simp only [ffqStep] at hs
    unfold ffqSendStep at hs
    split at hs
    · cases hs
    all_goals (repeat' split at hs) <;> cases hs <;> exact .inl ⟨rfl, rfl⟩
  | recv c sl =>
    simp only [ffqStep] at hs
    unfold ffqRecvStep at hs
    split at hs
    · cases hs
    · split at hs <;> cases hs <;> exact .inl ⟨rfl, rfl⟩
    · cases hs; exact .inl ⟨rfl, rfl⟩
    · rename_i acc _
      dsimp only at hs
      split at hs
      · cases hs; exact .inr ⟨acc, c, sl, rfl, .inl ⟨‹_›, rfl⟩⟩
      · obtain ⟨pool, hp, rfl⟩ := Option.map_eq_some'.mp hs
        exact .inr ⟨acc, c, sl, rfl, .inr ⟨‹_›, hp⟩⟩
  | enqueue => simp only [ffqStep] at hs; split at hs <;> cases hs; exact .inl ⟨rfl, rfl⟩
  | dequeue => simp only [ffqStep] at hs; split at hs <;> cases hs; exact .inl ⟨rfl, rfl⟩

theorem CommandsApplied.step {p : RegionPool} {s s' : FfqSys} {a : FfqAct}
    (h : CommandsApplied p (s.taken.filter fun b => b.flags ≠ 0) s.pool) (hs : ffqStep s a = some s') :
    CommandsApplied p (s'.taken.filter fun b => b.flags ≠ 0) s'.pool := by
  rcases ffqStep_taken_pool hs with ⟨ht, hp⟩ | ⟨acc, c, sl, ht, ⟨h0, hp⟩ | ⟨h0, hp⟩⟩
  · rwa [ht, hp]
  · have hnil : [acc].filter (fun b => b.flags ≠ 0) = [] := by simp [h0]
    rwa [ht, hp, List.filter_append, hnil, List.append_nil]
  · have hone : [acc].filter (fun b => b.flags ≠ 0) = [acc] := by simp [h0]
    rw [ht, List.filter_append, hone]
    exact h.snoc c sl hp

theorem CommandsApplied.run {p : RegionPool} :
    ∀ {acts : List FfqAct} {s s' : FfqSys},
      CommandsApplied p (s.taken.filter fun b => b.flags ≠ 0) s.pool → acts.foldlM ffqStep s = some s' →
      CommandsApplied p (s'.taken.filter fun b => b.flags ≠ 0) s'.pool
  | [], _, _, h, hs => by cases hs; exact h
  | _ :: _, _, _, h, hs => by
    obtain ⟨t, ht, hs⟩ := Option.bind_eq_some.mp hs
    exact CommandsApplied.run (h.step ht) hs

/-- Over every interleaving of `ff_enqueue` (through which `ff_register` and
`ff_deregister` send too) and `ff_dequeue` on a fresh channel: the receiver takes what was
published, in order and intact; `ff_dequeue` returns exactly the taken descriptors whose
flags are `0`; and every other taken descriptor has been applied, in order, to the
receiver's pool as a command: `FFQ_CMD_REGISTER` as a registration, any other value as a
removal. -/
theorem ff_dequeue_returns_zero_flags_applies_rest {s0 s : FfqSys} {acts : List FfqAct}
    (h0 : s0.IsInit) (hs : acts.foldlM ffqStep s0 = some s) :
    (∃ inFlight, s.reportedFull = s.taken ++ inFlight) ∧
    s.deqReplies.filterMap Except.toOption = s.taken.filter (fun b => b.flags = 0) ∧
    CommandsApplied s0.pool (s.taken.filter fun b => b.flags ≠ 0) s.pool := by
  have hi := ((FfqReachable.init h0).run hs).inv
  refine ⟨?_, hi.replies, CommandsApplied.run ?_ hs⟩
  · rcases hi.slot with hf | ⟨m, hm⟩
    · exact ⟨[], by simpa using hf.1⟩
    · exact ⟨[m], hm.1⟩
  · rw [h0.taken_nil]; exact .nil _

/-- `ff_enqueue` of a descriptor with nonzero flags to completion, then an `ff_dequeue` that
hands it to the pool and, trying again, finds the channel empty. -/
def ffqCommandRoundTrip (buf : CleanqBuf) : List FfqAct :=
  [.enqueue buf] ++ ffqSendAll ++ [.dequeue] ++ List.replicate 9 (.recv true true)

theorem ff_dequeue_returns_zero_flags_applies_rest_flag_last :
    ∃ s, (ffqCommandRoundTrip (ffRegisterBuf ⟨0, 0x10000, 4096⟩ 1) ++
        ffqCommandRoundTrip ⟨0, 2048, 0, 2048, cleanqFlagLast, 1⟩).foldlM ffqStep (ffqInit 0) = some s ∧
    ((∃ inFlight, s.reportedFull = s.taken ++ inFlight) ∧
    s.deqReplies.filterMap Except.toOption = s.taken.filter (fun b => b.flags = 0) ∧
    CommandsApplied (ffqInit 0).pool (s.taken.filter fun b => b.flags ≠ 0) s.pool) := by
  obtain ⟨s, hs⟩ : ∃ s, (ffqCommandRoundTrip (ffRegisterBuf ⟨0, 0x10000, 4096⟩ 1) ++
      ffqCommandRoundTrip ⟨0, 2048, 0, 2048, cleanqFlagLast, 1⟩).foldlM ffqStep (ffqInit 0) = some s :=
    ⟨_, rfl⟩
  exact ⟨s, hs, ff_dequeue_returns_zero_flags_applies_rest (ffqInit_isInit 0) hs⟩

/-- `ff_register`'s descriptor gives the receiver's pool region `1`. A data descriptor of
region `1` with `CLEANQ_FLAG_LAST` set is taken for a removal: sent to a receiver whose pool
holds region `1`, it removes the region, and `ff_dequeue` returns `QUEUE_EMPTY`, not the
descriptor. -/
theorem ff_flag_last_descriptor_removes_region :
    ((ffqCommandRoundTrip (ffRegisterBuf ⟨0, 0x10000, 4096⟩ 1)).foldlM ffqStep (ffqInit 0)).map
        (fun s => s.pool.pool 1) = some (some ⟨1, 0x10000, 4096⟩) ∧
    poolOfOneRegion.pool 1 = some ⟨1, 0x10000, 4096⟩ ∧
    ((ffqCommandRoundTrip ⟨0, 2048, 0, 2048, cleanqFlagLast, 1⟩).foldlM ffqStep
        { ffqInit 0 with pool := poolOfOneRegion }).map (fun s => (s.taken, s.deqReplies, s.pool.pool 1)) =
      some ([⟨0, 2048, 0, 2048, cleanqFlagLast, 1⟩], [.error .queueEmpty], none) :=
  ⟨by decide, rfl, by decide⟩

/-! ## The ring holds one message -/

/-- From every reachable state with one message in flight (published and not taken), the
next `ffq_impl_send` finds slot `0` full and returns `false`, which `ff_enqueue` reports as
`OK`: with `FFQ_DEFAULT_SIZE = 64` slots, the channel refuses a second message. -/
theorem ffq_send_refused_with_one_in_flight {s : FfqSys} {buf m : CleanqBuf} (h : FfqReachable s)
    (htx : s.tx = .canSend buf) (hfl : s.reportedFull = s.taken ++ [m]) :
    ffqSendStep s = some { s with tx := .idle, enqReplies := s.enqReplies ++ [(buf, .ok)] } := by
  have hi := h.inv
  have hfull : s.slots s.txPos 0 ≠ ffqSlotEmpty := by
    rw [hi.txPos_zero]
    rcases hi.slot with hf | ⟨m', hm⟩
    · rw [hf.1] at hfl; simp at hfl
    · exact hm.word_ne
  simp only [ffqSendStep, htx, hfull, if_false]

theorem ffq_send_refused_with_one_in_flight_run :
    ∃ s, ([.enqueue ⟨0, 2048, 0, 2048, 0, 1⟩] ++ ffqSendAll ++ [.enqueue ⟨2048, 2048, 0, 2048, 0, 1⟩] :
        List FfqAct).foldlM ffqStep (ffqInit 0) = some s ∧
      ffqSendStep s = some { s with tx := .idle, enqReplies := s.enqReplies ++ [(⟨2048, 2048, 0, 2048, 0, 1⟩, .ok)] } :=
  ⟨_, rfl, ffq_send_refused_with_one_in_flight (m := ⟨0, 2048, 0, 2048, 0, 1⟩)
    ((FfqReachable.init (ffqInit_isInit 0)).run
      (show ([.enqueue ⟨0, 2048, 0, 2048, 0, 1⟩] ++ ffqSendAll ++ [.enqueue ⟨2048, 2048, 0, 2048, 0, 1⟩] :
        List FfqAct).foldlM ffqStep (ffqInit 0) = some _ from rfl)) rfl (by decide)⟩

end CleanQ
