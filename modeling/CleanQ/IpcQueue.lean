import CleanQ.Loopback

/-!
# The IPC backend (`ipc_queue.c`)

One direction of an IPC queue is a ring of `slots` descriptors and an ack word in shared
memory. The sender owns `tx_seq`, the receiver `rx_seq`; both start at `1`, the ack word
at `0` and every descriptor's `seq` at `0`. The sender may write the descriptor at
`tx_seq % slots` while `tx_seq - ack < slots`: it stores the fields one by one and then
`seq = tx_seq`. The receiver may read the descriptor at `rx_seq % slots` once
`rx_seq ≤ seq`: it loads `cmd`, then the fields it needs, and then stores the next
`rx_seq` into the ack word. A command message (`cmd ≠ 0`) is handed to the receiver's
region pool and `ipcq_dequeue` starts over.

Sender and receiver run at once, so the channel is a transition system (`ipcqStep`): an
action is a call, or the next single load or store of shared memory by one endpoint.
The runs are the interleavings of the two endpoints' accesses, each endpoint's taken in
program order. That is an assumption of the model, not something the code ensures: the
sender's barrier orders its field stores before the store of `seq`, but `ipcq_dequeue` has
no barrier, and runs in which its loads of the fields move before its load of `seq`, or
its store of the ack word before those loads, are not modelled. Sequence numbers are
`uint64_t`; as long as they stay below `2^64` the C arithmetic on them is that of the
naturals used here.

Only the direction from the creator of the shared memory to the endpoint that joins it is
modelled. `cleanq_ipcq_create` maps `2 * IPCQ_CHAN_SIZE` bytes (8 KiB) but places the
creator's `rx_descs` at `rxtx_mem + 2 * IPCQ_CHAN_SIZE`, just past the end of the mapping,
so the joiner-to-creator direction reads and writes memory the channel does not own and
has no meaning to model.

The state logs what the calls accepted and returned: `sent` (the messages
`ipcq_enqueue_internal` wrote, in order), `delivered` (the descriptors `ipcq_dequeue`
returned) and `handled` (each command given to the pool, with the pool's answer).
-/

namespace CleanQ

/-- `IPCQ_DEFAULT_SIZE - 1`: the descriptors of one direction, as `cleanq_ipcq_create`
sets `slots`. -/
def ipcqSlots : Nat := 63

/-- `IPCQ_CMD_REGISTER`. -/
def ipcqCmdRegister : UInt64 := 1

/-- `IPCQ_CMD_DEREGISTER`. -/
def ipcqCmdDeregister : UInt64 := 2

/-- The fields of `struct ipcq_desc` the sender stores before `seq`. -/
structure IpcqMsg where
  buf : CleanqBuf
  cmd : UInt64
  deriving DecidableEq, Repr

/-- `struct ipcq_desc` without its padding. -/
structure IpcqDesc where
  seq : Nat
  msg : IpcqMsg
  deriving DecidableEq, Repr

/-- A field of a descriptor other than `seq`: the unit of one store or one load. -/
inductive IpcqField
  | rid
  | offset
  | length
  | validData
  | validLength
  | flags
  | cmd
  deriving DecidableEq, Repr

/-- `dst` with field `f` copied from `src`. -/
def IpcqMsg.copyField (src dst : IpcqMsg) : IpcqField → IpcqMsg
  | .rid => { dst with buf := { dst.buf with rid := src.buf.rid } }
  | .offset => { dst with buf := { dst.buf with offset := src.buf.offset } }
  | .length => { dst with buf := { dst.buf with length := src.buf.length } }
  | .validData => { dst with buf := { dst.buf with validData := src.buf.validData } }
  | .validLength => { dst with buf := { dst.buf with validLength := src.buf.validLength } }
  | .flags => { dst with buf := { dst.buf with flags := src.buf.flags } }
  | .cmd => { dst with cmd := src.cmd }

/-- `dst` with the fields `fs` copied from `src`, one after the other. -/
def IpcqMsg.copyFields (src : IpcqMsg) : IpcqMsg → List IpcqField → IpcqMsg
  | dst, [] => dst
  | dst, f :: fs => src.copyFields (src.copyField dst f) fs

/-- The order of the stores in `ipcq_enqueue_internal`. -/
def ipcqStoreOrder : List IpcqField :=
  [.rid, .offset, .length, .validData, .validLength, .flags, .cmd]

/-- A command for the receiver's pool. -/
inductive IpcqCmd
  | register (cap : Capref) (rid : RegionId)
  | deregister (rid : RegionId)
  deriving DecidableEq, Repr

/-- The three branches of `ipcq_dequeue`. -/
inductive IpcqPath
  | data
  | register
  | deregister
  deriving DecidableEq, Repr

/-- The fields each branch loads after `cmd`, in the order of the source. -/
def IpcqPath.fields : IpcqPath → List IpcqField
  | .data => [.rid, .offset, .length, .validData, .validLength, .flags]
  | .register => [.length, .offset, .validData, .rid]
  | .deregister => [.rid]

/-- What a branch makes of the fields it loaded: a descriptor to return, or a command. -/
def IpcqPath.outcome (acc : IpcqMsg) : IpcqPath → CleanqBuf ⊕ IpcqCmd
  | .data => .inl acc.buf
  | .register => .inr (.register ⟨acc.buf.offset, acc.buf.validData, acc.buf.length⟩ acc.buf.rid)
  | .deregister => .inr (.deregister acc.buf.rid)

/-- The branch `ipcq_dequeue` takes for a message: `cmd == 0`, then
`cmd == IPCQ_CMD_REGISTER`, else deregister. -/
def IpcqMsg.path (m : IpcqMsg) : IpcqPath :=
  if m.cmd = 0 then .data else if m.cmd = ipcqCmdRegister then .register else .deregister

/-- What the receiver makes of a whole message. -/
def IpcqMsg.outcome (m : IpcqMsg) : CleanqBuf ⊕ IpcqCmd := m.path.outcome m

/-- The message `ipcq_enqueue` sends. -/
def ipcqDataMsg (buf : CleanqBuf) : IpcqMsg := ⟨buf, 0⟩

/-- The message `ipcq_register` sends. -/
def ipcqRegisterMsg (cap : Capref) (rid : RegionId) : IpcqMsg :=
  ⟨⟨cap.vaddr, cap.len, cap.paddr, 0, 0, rid⟩, ipcqCmdRegister⟩

/-- The message `ipcq_deregister` sends. -/
def ipcqDeregisterMsg (rid : RegionId) : IpcqMsg := ⟨⟨0, 0, 0, 0, 0, rid⟩, ipcqCmdDeregister⟩

/-- Where the sender is. -/
inductive IpcqTxPc
  | idle
  /-- The busy wait of `ipcq_register` and `ipcq_deregister`. -/
  | wait (m : IpcqMsg)
  /-- `ipcq_can_send` in `ipcq_enqueue_internal`: about to load the ack word. -/
  | canSend (m : IpcqMsg)
  /-- About to store the fields `rest`; with none left, about to store `seq`. -/
  | store (m : IpcqMsg) (rest : List IpcqField)
  deriving DecidableEq, Repr

/-- Where the receiver is, with the fields loaded so far. -/
inductive IpcqRxPc
  | idle
  /-- `ipcq_can_recv`: about to load the tail's `seq`. -/
  | canRecv
  /-- About to load `cmd` for the test `cmd == 0`. -/
  | testData
  /-- About to load `cmd` for the test `cmd == IPCQ_CMD_REGISTER`. -/
  | testRegister
  /-- On branch `p`, about to load the fields `rest`; with none left, about to bump
  `rx_seq` and store it into the ack word. -/
  | load (p : IpcqPath) (rest : List IpcqField) (acc : IpcqMsg)
  deriving DecidableEq, Repr

/-- One direction of an IPC queue and its two endpoints. -/
structure IpcqSys where
  ring : Nat → IpcqDesc
  ack : Nat
  txSeq : Nat
  tx : IpcqTxPc
  rxSeq : Nat
  rx : IpcqRxPc
  pool : RegionPool
  sent : List IpcqMsg
  delivered : List CleanqBuf
  handled : List (IpcqCmd × Errval)

/-- An action: a call of the sender, a call of the receiver, or the next shared access
of one of them. A receiver step that handles a register command allocates as `callocOk`
and `slabOk` say. -/
inductive IpcqAct
  | enqueue (buf : CleanqBuf)
  | register (cap : Capref) (rid : RegionId)
  | deregister (rid : RegionId)
  | send
  | dequeue
  | recv (callocOk slabOk : Bool)
  deriving DecidableEq, Repr

section Step

variable (slots : Nat)

/-- `ipcq_can_send`. -/
def ipcqCanSend (txSeq ack : Nat) : Bool := txSeq - ack < slots

/-- `handle_register_command` and `handle_register_decommand`: the pool's
`region_pool_add_region_with_id` and `region_pool_remove_region`. -/
def ipcqHandle (pool : RegionPool) (callocOk slabOk : Bool) :
    IpcqCmd → Option (Errval × RegionPool)
  | .register cap rid => regionPoolAddRegionWithId pool cap rid callocOk slabOk
  | .deregister rid => some (regionPoolRemoveRegion pool rid)

/-- The sender's next access. -/
def ipcqSendStep (s : IpcqSys) : Option IpcqSys :=
  match s.tx with
  | .idle => none
  | .wait m => some (if ipcqCanSend slots s.txSeq s.ack then { s with tx := .canSend m } else s)
  | .canSend m =>
    some (if ipcqCanSend slots s.txSeq s.ack then { s with tx := .store m ipcqStoreOrder }
      else { s with tx := .idle })
  | .store m (f :: rest) =>
    let head := s.ring (s.txSeq % slots)
    some { s with ring := Function.update s.ring (s.txSeq % slots) { head with
                            msg := m.copyField head.msg f },
                  tx := .store m rest }
  | .store m [] =>
    let head := s.ring (s.txSeq % slots)
    some { s with ring := Function.update s.ring (s.txSeq % slots) { head with seq := s.txSeq },
                  txSeq := s.txSeq + 1, tx := .idle, sent := s.sent ++ [m] }

/-- The receiver's next access. -/
def ipcqRecvStep (s : IpcqSys) (callocOk slabOk : Bool) : Option IpcqSys :=
  let tail := s.ring (s.rxSeq % slots)
  match s.rx with
  | .idle => none
  | .canRecv => some { s with rx := if s.rxSeq ≤ tail.seq then .testData else .idle }
  | .testData => some { s with rx :=
      if tail.msg.cmd = 0 then .load .data IpcqPath.data.fields ⟨zeroBuf, 0⟩
      else .testRegister }
  | .testRegister =>
    let p : IpcqPath := if tail.msg.cmd = ipcqCmdRegister then .register else .deregister
    some { s with rx := .load p p.fields ⟨zeroBuf, 0⟩ }
  | .load p (f :: rest) acc => some { s with rx := .load p rest (tail.msg.copyField acc f) }
  | .load p [] acc =>
    match p.outcome acc with
    | .inl buf => some { s with rxSeq := s.rxSeq + 1, ack := s.rxSeq + 1, rx := .idle,
                                delivered := s.delivered ++ [buf] }
    | .inr c => (ipcqHandle s.pool callocOk slabOk c).map fun (err, pool) =>
        { s with pool := pool, rxSeq := s.rxSeq + 1, ack := s.rxSeq + 1, rx := .canRecv,
                 handled := s.handled ++ [(c, err)] }

/-- One transition; `none` when the action is not enabled or the step faults. -/
def ipcqStep (s : IpcqSys) : IpcqAct → Option IpcqSys
  | .enqueue buf => if s.tx = .idle then some { s with tx := .canSend (ipcqDataMsg buf) } else none
  | .register cap rid =>
    if s.tx = .idle then some { s with tx := .wait (ipcqRegisterMsg cap rid) } else none
  | .deregister rid =>
    if s.tx = .idle then some { s with tx := .wait (ipcqDeregisterMsg rid) } else none
  | .send => ipcqSendStep slots s
  | .dequeue => if s.rx = .idle then some { s with rx := .canRecv } else none
  | .recv c sl => ipcqRecvStep slots s c sl

end Step

/-- The states `cleanq_ipcq_create` leaves: every descriptor's `seq` is `0`,
`tx_seq = rx_seq = 1` and the ack word is `0`. The rest of the ring and the receiver's
pool may hold anything. -/
structure IpcqSys.IsInit (s : IpcqSys) : Prop where
  seq_zero : ∀ i, (s.ring i).seq = 0
  ack_zero : s.ack = 0
  txSeq_one : s.txSeq = 1
  rxSeq_one : s.rxSeq = 1
  tx_idle : s.tx = .idle
  rx_idle : s.rx = .idle
  sent_nil : s.sent = []
  delivered_nil : s.delivered = []
  handled_nil : s.handled = []

/-- The states some interleaving reaches. -/
inductive IpcqReachable (slots : Nat) : IpcqSys → Prop
  | init {s : IpcqSys} : s.IsInit → IpcqReachable slots s
  | step {s s' : IpcqSys} (a : IpcqAct) :
      IpcqReachable slots s → ipcqStep slots s a = some s' → IpcqReachable slots s'

/-! ## The fields a branch loads are the ones it uses -/

@[simp] theorem IpcqMsg.copyFields_nil (src dst : IpcqMsg) : src.copyFields dst [] = dst := rfl

@[simp] theorem IpcqMsg.copyFields_cons (src dst : IpcqMsg) (f : IpcqField) (fs : List IpcqField) :
    src.copyFields dst (f :: fs) = src.copyFields (src.copyField dst f) fs := rfl

/-- After the seven stores of `ipcq_enqueue_internal` the descriptor holds the message. -/
theorem IpcqMsg.copyFields_storeOrder (m dst : IpcqMsg) : m.copyFields dst ipcqStoreOrder = m := by
  obtain ⟨⟨_, _, _, _, _, _⟩, _⟩ := m; rfl

/-- Each branch loads every field its outcome reads. -/
theorem IpcqPath.outcome_copyFields (p : IpcqPath) (m acc : IpcqMsg) :
    p.outcome (m.copyFields acc p.fields) = p.outcome m := by
  obtain ⟨⟨_, _, _, _, _, _⟩, _⟩ := m; cases p <;> rfl

/-- Two stores into slots of different messages: `b` is within `n` of every message `k`
from `a` on that it exceeds, so their slots differ. -/
theorem mod_ne_of_lt_add {n a k b : Nat} (h1 : a ≤ k) (h2 : k < b) (h3 : b < a + n) :
    k % n ≠ b % n := by
  intro h
  have hd : n ∣ b - k := Nat.dvd_of_mod_eq_zero (Nat.sub_mod_eq_zero_of_mod_eq h.symm)
  have := Nat.le_of_dvd (by omega) hd
  omega

/-! ## The invariant -/

/-- What holds in every reachable state. Every message `k` the receiver has not consumed
sits at `k % slots` with `seq = k`, and it is the `k`-th message sent; every `seq` in the
ring is below `tx_seq`. The sender stores only after an ack that keeps `tx_seq` within
`slots` of it, and the fields it stored agree with its message. The receiver loads only
from a published descriptor, along the branch of its `cmd`. The logs are what the
consumed messages give. -/
structure IpcqInv (slots : Nat) (s : IpcqSys) : Prop where
  rx_pos : 1 ≤ s.rxSeq
  rx_le_tx : s.rxSeq ≤ s.txSeq
  sent_length : s.sent.length + 1 = s.txSeq
  ack_le : s.ack ≤ s.rxSeq
  seq_lt : ∀ i, (s.ring i).seq < s.txSeq
  pending : ∀ k, s.rxSeq ≤ k → k < s.txSeq →
    (s.ring (k % slots)).seq = k ∧ s.sent[k - 1]? = some (s.ring (k % slots)).msg
  store : ∀ m rest, s.tx = .store m rest →
    s.txSeq < s.ack + slots ∧ m.copyFields (s.ring (s.txSeq % slots)).msg rest = m
  testing : s.rx = .testData ∨ s.rx = .testRegister → s.rxSeq < s.txSeq
  test_register : s.rx = .testRegister → (s.ring (s.rxSeq % slots)).msg.cmd ≠ 0
  load : ∀ p rest acc, s.rx = .load p rest acc → s.rxSeq < s.txSeq ∧
    p = (s.ring (s.rxSeq % slots)).msg.path ∧
    p.outcome ((s.ring (s.rxSeq % slots)).msg.copyFields acc rest) =
      (s.ring (s.rxSeq % slots)).msg.outcome
  delivered_eq : s.delivered =
    (s.sent.take (s.rxSeq - 1)).filterMap fun m => m.outcome.getLeft?
  handled_eq : s.handled.map Prod.fst =
    (s.sent.take (s.rxSeq - 1)).filterMap fun m => m.outcome.getRight?

theorem IpcqSys.IsInit.inv {slots : Nat} {s : IpcqSys} (h : s.IsInit) : IpcqInv slots s where
  rx_pos := by rw [h.rxSeq_one]
  rx_le_tx := by rw [h.rxSeq_one, h.txSeq_one]
  sent_length := by rw [h.sent_nil, h.txSeq_one]; rfl
  ack_le := by rw [h.ack_zero]; exact Nat.zero_le _
  seq_lt i := by rw [h.seq_zero, h.txSeq_one]; exact Nat.one_pos
  pending k h1 h2 := by rw [h.rxSeq_one, h.txSeq_one] at *; omega
  store m rest hs := by rw [h.tx_idle] at hs; cases hs
  testing hs := by rw [h.rx_idle] at hs; simp at hs
  test_register hs := by rw [h.rx_idle] at hs; cases hs
  load p rest acc hs := by rw [h.rx_idle] at hs; cases hs
  delivered_eq := by simp [h.delivered_nil, h.sent_nil]
  handled_eq := by simp [h.handled_nil, h.sent_nil]

section Preservation

variable {slots : Nat} {s : IpcqSys}

/-- While the sender stores, its slot is none of an unconsumed message's. -/
theorem IpcqInv.slot_ne (h : IpcqInv slots s) {m : IpcqMsg} {rest : List IpcqField}
    (hst : s.tx = .store m rest) {k : Nat} (h1 : s.rxSeq ≤ k) (h2 : k < s.txSeq) :
    k % slots ≠ s.txSeq % slots :=
  mod_ne_of_lt_add h1 h2 (by have := (h.store m rest hst).1; have := h.ack_le; omega)

/-- A store into the sender's slot leaves every unconsumed message's slot alone. -/
theorem IpcqInv.update_unread (h : IpcqInv slots s) {m : IpcqMsg} {rest : List IpcqField}
    (hst : s.tx = .store m rest) (d : IpcqDesc) {k : Nat} (h1 : s.rxSeq ≤ k) (h2 : k < s.txSeq) :
    Function.update s.ring (s.txSeq % slots) d (k % slots) = s.ring (k % slots) :=
  Function.update_noteq (h.slot_ne hst h1 h2) _ _

/-- A sender step that only moves its program counter. -/
theorem IpcqInv.setTx (h : IpcqInv slots s) {t : IpcqTxPc}
    (ht : ∀ m rest, t = .store m rest →
      s.txSeq < s.ack + slots ∧ m.copyFields (s.ring (s.txSeq % slots)).msg rest = m) :
    IpcqInv slots { s with tx := t } :=
  { h with store := ht }

/-- A receiver step that only moves its program counter. -/
theorem IpcqInv.setRx (h : IpcqInv slots s) {r : IpcqRxPc}
    (ht : r = .testData ∨ r = .testRegister → s.rxSeq < s.txSeq)
    (hr : r = .testRegister → (s.ring (s.rxSeq % slots)).msg.cmd ≠ 0)
    (hl : ∀ p rest acc, r = .load p rest acc → s.rxSeq < s.txSeq ∧
      p = (s.ring (s.rxSeq % slots)).msg.path ∧
      p.outcome ((s.ring (s.rxSeq % slots)).msg.copyFields acc rest) =
        (s.ring (s.rxSeq % slots)).msg.outcome) :
    IpcqInv slots { s with rx := r } :=
  { h with testing := ht, test_register := hr, load := hl }

/-- The store of one field keeps every published descriptor and the one the receiver
reads. -/
theorem IpcqInv.storeField (h : IpcqInv slots s) {m : IpcqMsg} {f : IpcqField}
    {rest : List IpcqField} (hst : s.tx = .store m (f :: rest)) :
    IpcqInv slots { s with
      ring := Function.update s.ring (s.txSeq % slots)
        { s.ring (s.txSeq % slots) with msg := m.copyField (s.ring (s.txSeq % slots)).msg f },
      tx := .store m rest } := by
  have keep := h.update_unread hst
  refine { h with seq_lt := fun i => ?_, pending := fun k h1 h2 => ?_, store := ?_,
                  test_register := fun hr => ?_, load := fun p r acc hl => ?_ }
  · dsimp only; rw [Function.update_apply]; split
    · exact h.seq_lt _
    · exact h.seq_lt i
  · dsimp only at h1 h2 ⊢; rw [keep _ h1 h2]; exact h.pending k h1 h2
  · rintro m' rest' ⟨⟩
    exact ⟨(h.store m _ hst).1, by simpa using (h.store m _ hst).2⟩
  · dsimp only; rw [keep _ le_rfl (h.testing (.inr hr))]; exact h.test_register hr
  · dsimp only; rw [keep _ le_rfl (h.load p r acc hl).1]; exact h.load p r acc hl

/-- The store of `seq` publishes the message: it becomes message `tx_seq`. -/
theorem IpcqInv.publish (h : IpcqInv slots s) {m : IpcqMsg}
    (hst : s.tx = .store m []) :
    IpcqInv slots { s with
      ring := Function.update s.ring (s.txSeq % slots)
        { s.ring (s.txSeq % slots) with seq := s.txSeq },
      txSeq := s.txSeq + 1, tx := .idle, sent := s.sent ++ [m] } := by
  have keep := h.update_unread hst
  have hm : (s.ring (s.txSeq % slots)).msg = m := (h.store m [] hst).2
  have hlen := h.sent_length
  have hrx := h.rx_le_tx
  have hpos := h.rx_pos
  refine ⟨h.rx_pos, Nat.le_succ_of_le hrx, by simp [hlen], h.ack_le, fun i => ?_, fun k h1 h2 => ?_, ?_,
    fun ht => Nat.lt_succ_of_lt (h.testing ht), fun hr => ?_, fun p r acc hl => ?_, ?_, ?_⟩
  · dsimp only; rw [Function.update_apply]; split
    · exact Nat.lt_succ_self _
    · exact Nat.lt_succ_of_lt (h.seq_lt i)
  · dsimp only at h1 h2 ⊢
    rcases Nat.lt_or_ge k s.txSeq with hk | hk
    · rw [keep _ h1 hk, List.getElem?_append_left (by omega)]; exact h.pending k h1 hk
    · obtain rfl : k = s.txSeq := by omega
      rw [Function.update_same, show s.txSeq - 1 = s.sent.length by omega,
        List.getElem?_concat_length, hm]
      exact ⟨rfl, rfl⟩
  · rintro m' rest' ⟨⟩
  · dsimp only; rw [keep _ le_rfl (h.testing (.inr hr))]; exact h.test_register hr
  · have hl' := h.load p r acc hl
    dsimp only; rw [keep _ le_rfl hl'.1]; exact ⟨Nat.lt_succ_of_lt hl'.1, hl'.2⟩
  · dsimp only; rw [List.take_append_of_le_length (by omega)]; exact h.delivered_eq
  · dsimp only; rw [List.take_append_of_le_length (by omega)]; exact h.handled_eq

theorem IpcqInv.take_rx (h : IpcqInv slots s) (hb : s.rxSeq < s.txSeq) :
    s.sent.take s.rxSeq = s.sent.take (s.rxSeq - 1) ++ [(s.ring (s.rxSeq % slots)).msg] := by
  have hm := (h.pending _ le_rfl hb).2
  obtain ⟨k, hk⟩ : ∃ k, s.rxSeq = k + 1 := ⟨s.rxSeq - 1, by have := h.rx_pos; omega⟩
  rw [hk, Nat.add_sub_cancel] at hm ⊢
  rw [List.take_succ, hm]
  rfl

/-- `rx_seq++` and the store of the ack word: message `rx_seq` is consumed, and the
logs grow by what it gives. -/
theorem IpcqInv.consume (h : IpcqInv slots s) {p : IpcqPath} {acc : IpcqMsg}
    (hrx : s.rx = .load p [] acc) {r : IpcqRxPc} (hr : r = .idle ∨ r = .canRecv)
    (pool : RegionPool) {d : List CleanqBuf} {hd : List (IpcqCmd × Errval)}
    (hdel : d = s.delivered ++
      [(s.ring (s.rxSeq % slots)).msg].filterMap fun m => m.outcome.getLeft?)
    (hhd : hd.map Prod.fst = s.handled.map Prod.fst ++
      [(s.ring (s.rxSeq % slots)).msg].filterMap fun m => m.outcome.getRight?) :
    IpcqInv slots { s with rxSeq := s.rxSeq + 1, ack := s.rxSeq + 1, rx := r, pool := pool,
                           delivered := d, handled := hd } := by
  have hb := (h.load p [] acc hrx).1
  have hack := h.ack_le
  refine ⟨Nat.le_succ_of_le h.rx_pos, hb, h.sent_length, le_rfl, h.seq_lt,
    fun k h1 h2 => h.pending k (Nat.le_of_succ_le h1) h2, fun m rest hst => ?_, ?_, ?_, ?_, ?_, ?_⟩
  · have := h.store m rest hst; exact ⟨by dsimp only; omega, this.2⟩
  all_goals try (rcases hr with rfl | rfl <;> simp <;> done)
  · dsimp only; rw [Nat.add_sub_cancel, h.take_rx hb, List.filterMap_append, ← h.delivered_eq]
    exact hdel
  · dsimp only; rw [Nat.add_sub_cancel, h.take_rx hb, List.filterMap_append, ← h.handled_eq]
    exact hhd

theorem IpcqInv.recv (h : IpcqInv slots s) {c sl : Bool} {s' : IpcqSys}
    (hs : ipcqRecvStep slots s c sl = some s') : IpcqInv slots s' := by
  unfold ipcqRecvStep at hs
  split at hs
  next => cases hs
  next hrx =>
    cases hs; split
    next hc =>
      exact h.setRx (fun _ => Nat.lt_of_le_of_lt hc (h.seq_lt _)) (by rintro ⟨⟩)
        (by rintro _ _ _ ⟨⟩)
    next => exact h.setRx (by simp) (by rintro ⟨⟩) (by rintro _ _ _ ⟨⟩)
  next hrx =>
    have hb := h.testing (.inl hrx)
    cases hs; split
    next hc =>
      refine h.setRx (by simp) (by rintro ⟨⟩) ?_
      rintro p r a ⟨⟩
      simp [hb, IpcqPath.outcome_copyFields, IpcqMsg.outcome, IpcqMsg.path, hc]
    next hc => exact h.setRx (fun _ => hb) (fun _ => hc) (by rintro _ _ _ ⟨⟩)
  next hrx =>
    have hb := h.testing (.inr hrx)
    have hc := h.test_register hrx
    cases hs
    refine h.setRx (by simp) (by rintro ⟨⟩) ?_
    rintro p r a ⟨⟩
    simp [hb, IpcqPath.outcome_copyFields, IpcqMsg.outcome, IpcqMsg.path, hc]
  next p f rest acc hrx =>
    cases hs
    exact h.setRx (by simp) (by rintro ⟨⟩) (by rintro _ _ _ ⟨⟩; exact h.load p (f :: rest) acc hrx)
  next p acc hrx =>
    have ho := (h.load p [] acc hrx).2.2
    split at hs
    next buf hout =>
      cases hs
      exact h.consume hrx (.inl rfl) s.pool (by simp [← ho, hout]) (by simp [← ho, hout])
    next cmd hout =>
      obtain ⟨⟨err, pool⟩, -, rfl⟩ := Option.map_eq_some'.mp hs
      exact h.consume hrx (.inr rfl) pool (by simp [← ho, hout]) (by simp [← ho, hout])

theorem IpcqInv.send (h : IpcqInv slots s) {s' : IpcqSys} (hs : ipcqSendStep slots s = some s') :
    IpcqInv slots s' := by
  unfold ipcqSendStep at hs
  split at hs
  next => cases hs
  next =>
    cases hs; split
    · exact h.setTx (by rintro _ _ ⟨⟩)
    · exact h
  next =>
    cases hs; split
    next hc =>
      refine h.setTx ?_
      rintro m rest ⟨⟩
      refine ⟨?_, IpcqMsg.copyFields_storeOrder _ _⟩
      have := h.ack_le; have := h.rx_le_tx; simp only [ipcqCanSend, decide_eq_true_eq] at hc
      omega
    next => exact h.setTx (by rintro _ _ ⟨⟩)
  next hst => cases hs; exact h.storeField hst
  next hst => cases hs; exact h.publish hst

theorem IpcqInv.step (h : IpcqInv slots s) {a : IpcqAct} {s' : IpcqSys}
    (hs : ipcqStep slots s a = some s') : IpcqInv slots s' := by
  cases a <;> simp only [ipcqStep] at hs
  case send => exact h.send hs
  case recv => exact h.recv hs
  all_goals
    split at hs
    · cases hs
      first
        | exact h.setTx (by rintro _ _ ⟨⟩)
        | exact h.setRx (by simp) (by rintro ⟨⟩) (by rintro _ _ _ ⟨⟩)
    · cases hs

theorem IpcqReachable.inv {slots : Nat} {s : IpcqSys} (h : IpcqReachable slots s) :
    IpcqInv slots s := by
  induction h with
  | init hi => exact hi.inv
  | step _ _ hs ih => exact ih.step hs

theorem IpcqReachable.run {slots : Nat} {s : IpcqSys} (h : IpcqReachable slots s) :
    ∀ {acts : List IpcqAct} {s' : IpcqSys}, acts.foldlM (ipcqStep slots) s = some s' →
      IpcqReachable slots s'
  | [], _, hs => by cases hs; exact h
  | a :: acts, _, hs => by
    obtain ⟨t, ht, hs⟩ := Option.bind_eq_some.mp hs
    exact (h.step a ht).run hs

end Preservation

/-! ## The receiver's pool changes only by a command -/

/-- A step changes the receiver's pool and the command log only when the receiver hands a
command to its pool; the log then grows by the command and the pool's answer. -/
theorem ipcqStep_pool {slots : Nat} {s s' : IpcqSys} {a : IpcqAct}
    (hs : ipcqStep slots s a = some s') :
    (s'.pool = s.pool ∧ s'.handled = s.handled) ∨
    ∃ c sl p acc cmd err, a = .recv c sl ∧ s.rx = .load p [] acc ∧ p.outcome acc = .inr cmd ∧
      ipcqHandle s.pool c sl cmd = some (err, s'.pool) ∧ s'.handled = s.handled ++ [(cmd, err)] := by
  cases a with
  | send =>
    simp only [ipcqStep] at hs
    unfold ipcqSendStep at hs
    split at hs <;> cases hs
    all_goals first | exact .inl ⟨rfl, rfl⟩ | exact .inl ⟨by split <;> rfl, by split <;> rfl⟩
  | recv c sl =>
    simp only [ipcqStep] at hs
    unfold ipcqRecvStep at hs
    dsimp only at hs
    split at hs
    all_goals try (cases hs <;> exact .inl ⟨rfl, rfl⟩)
    rename_i p acc hrx
    split at hs
    · cases hs; exact .inl ⟨rfl, rfl⟩
    · rename_i cmd hout
      obtain ⟨⟨err, pool⟩, hh, rfl⟩ := Option.map_eq_some'.mp hs
      exact .inr ⟨c, sl, p, acc, cmd, err, rfl, hrx, hout, hh, rfl⟩
  | _ => simp only [ipcqStep] at hs; split at hs <;> cases hs; exact .inl ⟨rfl, rfl⟩

/-! ## What the receiver gets -/

@[simp] theorem ipcqDataMsg_outcome (buf : CleanqBuf) : (ipcqDataMsg buf).outcome = .inl buf :=
  rfl

@[simp] theorem ipcqRegisterMsg_outcome (cap : Capref) (rid : RegionId) :
    (ipcqRegisterMsg cap rid).outcome = .inr (.register cap rid) :=
  rfl

@[simp] theorem ipcqDeregisterMsg_outcome (rid : RegionId) :
    (ipcqDeregisterMsg rid).outcome = .inr (.deregister rid) :=
  rfl

/-- The channel `cleanq_ipcq_create` sets up with `clear`: a zeroed ring; the receiver's
pool is drawn with `rand() = rnd`. -/
def ipcqInit (rnd : UInt64) : IpcqSys :=
  ⟨fun _ => ⟨0, ⟨zeroBuf, 0⟩⟩, 0, 1, .idle, 1, .idle, regionPoolInit rnd, [], [], []⟩

theorem ipcqInit_isInit (rnd : UInt64) : (ipcqInit rnd).IsInit :=
  ⟨fun _ => rfl, rfl, rfl, rfl, rfl, rfl, rfl, rfl, rfl⟩

/-- An interleaving: the receiver polls while the sender is half way through a register
command, then takes the command while the sender stores a data descriptor, and polls again
before that one is published. -/
def ipcqInterleaving : List IpcqAct :=
  [.register ⟨0, 0x10000, 4096⟩ 1, .send, .send, .send, .dequeue, .recv true true] ++
  List.replicate 7 .send ++
  [.enqueue ⟨0, 2048, 0, 2048, 0, 1⟩, .send, .send, .send, .dequeue] ++
  List.replicate 9 (.recv true true)

/-- `ipcq_can_recv` fails only when every published descriptor has been consumed, so
`ipcq_dequeue` returns `QUEUE_EMPTY` only then. -/
theorem ipcq_empty_only_when_consumed {slots : Nat} {s : IpcqSys} (h : IpcqReachable slots s)
    (hempty : (s.ring (s.rxSeq % slots)).seq < s.rxSeq) : s.txSeq ≤ s.rxSeq := by
  by_contra hlt
  have := (h.inv.pending s.rxSeq le_rfl (by omega)).1
  omega

/-- After `ipcqInterleaving` the receiver has handled the register command, the one message
published, while the sender is still storing the fields of a data descriptor; the ring
reads as empty. -/
theorem ipcq_empty_after_interleaving :
    ∃ s, ipcqInterleaving.foldlM (ipcqStep ipcqSlots) (ipcqInit 0) = some s ∧
      IpcqReachable ipcqSlots s ∧ s.sent.length = 1 ∧ s.rxSeq = 2 ∧ s.handled.length = 1 ∧
      (∃ m rest, s.tx = .store m rest) ∧
      (s.ring (s.rxSeq % ipcqSlots)).seq < s.rxSeq ∧ s.txSeq ≤ s.rxSeq := by
  refine ⟨_, rfl, ?_⟩
  have hr := @IpcqReachable.run ipcqSlots (ipcqInit 0) (.init (ipcqInit_isInit 0))
    ipcqInterleaving _ (by rfl)
  refine ⟨hr, rfl, rfl, rfl, ⟨_, _, rfl⟩, ?he, ipcq_empty_only_when_consumed hr ?he⟩
  decide

/-- The sender's steps of one `ipcq_enqueue` that finds room: the call, `ipcq_can_send`,
the seven field stores and the store of `seq`. -/
def ipcqEnqueueAll (buf : CleanqBuf) : List IpcqAct := .enqueue buf :: List.replicate 9 .send

/-- The field stores of an `ipcq_enqueue`: each `send` stores the next field into the
head slot, and nothing but the ring and the sender's position changes. -/
theorem ipcq_store_fields_run {slots : Nat} {m : IpcqMsg} :
    ∀ (fs : List IpcqField) {s : IpcqSys}, s.tx = .store m fs → ∃ ring,
      (List.replicate fs.length IpcqAct.send).foldlM (ipcqStep slots) s =
        some { s with ring := ring, tx := .store m [] }
  | [], s, hs => ⟨s.ring, by rw [← hs]; rfl⟩
  | f :: fs, s, hs => by
    obtain ⟨ring, h⟩ := @ipcq_store_fields_run slots m fs { s with
      ring := Function.update s.ring (s.txSeq % slots)
        { s.ring (s.txSeq % slots) with msg := m.copyField (s.ring (s.txSeq % slots)).msg f },
      tx := .store m fs } rfl
    refine ⟨ring, ?_⟩
    rw [List.length_cons, List.replicate_succ, List.foldlM_cons]
    simp only [ipcqStep, ipcqSendStep, hs, Option.bind_eq_bind, Option.some_bind]
    exact h

theorem ipcq_enqueue_run {slots : Nat} {s : IpcqSys} (buf : CleanqBuf) (hs : s.tx = .idle)
    (hc : ipcqCanSend slots s.txSeq s.ack = true) :
    ∃ ring, (ipcqEnqueueAll buf).foldlM (ipcqStep slots) s =
      some { s with ring := ring, txSeq := s.txSeq + 1, sent := s.sent ++ [ipcqDataMsg buf] } := by
  obtain ⟨ring, hst⟩ := @ipcq_store_fields_run slots (ipcqDataMsg buf) ipcqStoreOrder
    { s with tx := .store (ipcqDataMsg buf) ipcqStoreOrder } rfl
  rw [show ipcqEnqueueAll buf = [.enqueue buf, .send] ++ List.replicate ipcqStoreOrder.length .send ++
    [.send] from rfl, List.foldlM_append, List.foldlM_append]
  have hcall : ([.enqueue buf, .send] : List IpcqAct).foldlM (ipcqStep slots) s =
      some { s with tx := .store (ipcqDataMsg buf) ipcqStoreOrder } := by
    simp only [List.foldlM, ipcqStep, hs, if_true, ipcqSendStep, hc, Option.bind_eq_bind,
      Option.some_bind, Option.pure_def]
  rw [hcall, Option.bind_eq_bind, Option.some_bind, hst, Option.some_bind]
  simp only [List.foldlM, ipcqStep, ipcqSendStep, Option.bind_eq_bind, Option.some_bind,
    Option.pure_def, hs]
  exact ⟨_, rfl⟩

/-- Enqueues that each find room publish their descriptors one after the other. -/
theorem ipcq_enqueues_run {slots : Nat} :
    ∀ (bufs : List CleanqBuf) {s : IpcqSys}, s.tx = .idle → s.ack ≤ s.txSeq →
      s.txSeq + bufs.length ≤ s.ack + slots →
      ∃ ring, (bufs.flatMap ipcqEnqueueAll).foldlM (ipcqStep slots) s =
        some { s with ring := ring, txSeq := s.txSeq + bufs.length,
                      sent := s.sent ++ bufs.map ipcqDataMsg }
  | [], s, _, _, _ => ⟨s.ring, by simp⟩
  | b :: bs, s, hs, ha, hl => by
    have hc : ipcqCanSend slots s.txSeq s.ack = true := by
      simp only [ipcqCanSend, List.length_cons] at hl ⊢; exact decide_eq_true (by omega)
    obtain ⟨r1, h1⟩ := ipcq_enqueue_run b hs hc
    obtain ⟨r2, h2⟩ := @ipcq_enqueues_run slots bs
      { s with ring := r1, txSeq := s.txSeq + 1, sent := s.sent ++ [ipcqDataMsg b] }
      hs (by dsimp only; omega) (by simp only [List.length_cons] at hl; dsimp only; omega)
    refine ⟨r2, ?_⟩
    rw [List.flatMap_cons, List.foldlM_append, h1, Option.bind_eq_bind, Option.some_bind, h2]
    simp only [List.length_cons, List.map_cons, List.append_assoc, List.singleton_append]
    congr 2
    omega

/-- From the state `cleanq_ipcq_create` leaves, with any number `slots ≥ 1` of slots:
after `slots - 1` enqueues that are not yet consumed, `ipcq_can_send` fails, so the next
`ipcq_enqueue` returns `QUEUE_FULL` and stores nothing, while only `slots - 1` published
descriptors are unconsumed and a slot is free. -/
theorem ipcq_full_with_a_slot_free (slots : Nat) (hslots : 1 ≤ slots) (rnd : UInt64)
    (bufs : List CleanqBuf) (hb : bufs.length = slots - 1) (buf : CleanqBuf) :
    ∃ s, (bufs.flatMap ipcqEnqueueAll).foldlM (ipcqStep slots) (ipcqInit rnd) = some s ∧
      s.sent = bufs.map ipcqDataMsg ∧ s.txSeq - s.rxSeq = slots - 1 ∧
      ipcqCanSend slots s.txSeq s.ack = false ∧
      ([.enqueue buf, .send] : List IpcqAct).foldlM (ipcqStep slots) s = some s := by
  obtain ⟨ring, hrun⟩ := @ipcq_enqueues_run slots bufs (ipcqInit rnd) rfl (Nat.zero_le _)
    (by dsimp only [ipcqInit]; omega)
  have hfull : ipcqCanSend slots (1 + bufs.length) 0 = false := by
    simp only [ipcqCanSend, decide_eq_false_iff_not]; omega
  refine ⟨_, hrun, List.nil_append _, ?_, hfull, ?_⟩
  · dsimp only [ipcqInit]; omega
  simp only [List.foldlM, ipcqStep, ipcqSendStep, ipcqInit, hfull, if_true, Option.bind_eq_bind,
    Option.some_bind]
  rfl

theorem ipcq_full_with_a_slot_free_default :
    ∃ s, ((List.replicate 62 ⟨0, 2048, 0, 2048, 0, 1⟩).flatMap ipcqEnqueueAll).foldlM
        (ipcqStep ipcqSlots) (ipcqInit 0) = some s ∧
      s.sent = (List.replicate 62 ⟨0, 2048, 0, 2048, 0, 1⟩).map ipcqDataMsg ∧
      s.txSeq - s.rxSeq = ipcqSlots - 1 ∧ ipcqCanSend ipcqSlots s.txSeq s.ack = false ∧
      ([.enqueue ⟨2048, 2048, 0, 2048, 0, 1⟩, .send] : List IpcqAct).foldlM (ipcqStep ipcqSlots) s =
        some s :=
  ipcq_full_with_a_slot_free ipcqSlots (by decide) 0 _ (by simp [ipcqSlots]) _

end CleanQ
