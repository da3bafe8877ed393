import CleanQ.IpcQueue
import CleanQ.RegionLifetime

/-!
# The two endpoints of an IPC queue

Each endpoint has its own region pool. `A`'s `cleanq_register` adds the region to `A`'s
pool, which draws its id, and `ipcq_register` sends the register command; when `B`'s
`ipcq_dequeue` meets the command it mirrors the region into `B`'s pool under `A`'s id with
`region_pool_add_region_with_id`, and only prints a failure. `A`'s `cleanq_deregister`
removes the region from `A`'s pool and sends the deregister command, on which `B` removes
the id from its own pool.

The system is `A`'s pool, the direction from `A` to `B` (an `IpcqSys`, whose receiver's
pool is `B`'s), and `B`'s own registrations. `B`'s `cleanq_register` and
`cleanq_deregister` also send a command on the other direction, which `A` never reads
here; that send is left out, so the runs of `ipcqPairStep` include every run of the
program. (`A` is the endpoint that created the shared memory; the other direction lies
partly outside the mapping and is not modelled, see `CleanQ.IpcQueue`.)

Proved here:

* `ipcq_mirror_collides_with_own_region`: with both pools drawn from the same `rand()`,
  `B`'s own region takes the slot of `A`'s id, the mirror fails, `B` resolves `A`'s id to
  its own region, and `A`'s deregister command removes `B`'s region;
* `ipcq_mirrored_region_resolves_until_slot_cleared`: a mirror that succeeds makes `B`
  resolve the id to `A`'s region until `B` removes an id in the same slot.
-/

namespace CleanQ

/-- The two endpoints: `A`'s pool, and the direction from `A` to `B` with `B`'s pool. -/
structure IpcqPair where
  poolA : RegionPool
  ch : IpcqSys

/-- A call of an endpoint's application, or the next shared access of `A`'s sender or of
`B`'s receiver. -/
inductive IpcqPairAct
  | aRegister (cap : Capref) (callocOk slabOk : Bool)
  | aDeregister (rid : RegionId)
  | aEnqueue (buf : CleanqBuf)
  | aSend
  | bRegister (cap : Capref) (callocOk slabOk : Bool)
  | bDeregister (rid : RegionId)
  | bDequeue
  | bRecv (callocOk slabOk : Bool)
  deriving DecidableEq, Repr

/-- One transition. `A`'s calls change `A`'s pool first, as `cleanq_register`,
`cleanq_deregister` and `cleanq_enqueue` do, and then start the backend call; `B`'s own
calls act on `B`'s pool between two dequeues. -/
def ipcqPairStep (s : IpcqPair) : IpcqPairAct → Option IpcqPair
  | .aRegister cap c sl =>
    if s.ch.tx = .idle then
      (regionPoolAddRegion s.poolA cap c sl).bind fun (res, poolA) =>
        match res with
        | .ok rid => (ipcqStep ipcqSlots s.ch (.register cap rid)).map fun ch => ⟨poolA, ch⟩
        | .error _ => some { s with poolA := poolA }
    else none
  | .aDeregister rid =>
    if s.ch.tx = .idle then
      match regionPoolRemoveRegion s.poolA rid with
      | (.ok, poolA) => (ipcqStep ipcqSlots s.ch (.deregister rid)).map fun ch => ⟨poolA, ch⟩
      | (_, poolA) => some { s with poolA := poolA }
    else none
  | .aEnqueue buf =>
    if s.ch.tx = .idle then
      if regionPoolBufferCheckBounds s.poolA buf.rid buf.offset buf.length buf.validData
          buf.validLength then
        (ipcqStep ipcqSlots s.ch (.enqueue buf)).map fun ch => { s with ch := ch }
      else some s
    else none
  | .aSend => (ipcqStep ipcqSlots s.ch .send).map fun ch => { s with ch := ch }
  | .bRegister cap c sl =>
    if s.ch.rx = .idle then
      (regionPoolAddRegion s.ch.pool cap c sl).map fun (_, pool) =>
        { s with ch := { s.ch with pool := pool } }
    else none
  | .bDeregister rid =>
    if s.ch.rx = .idle then
      some { s with ch := { s.ch with pool := (regionPoolRemoveRegion s.ch.pool rid).2 } }
    else none
  | .bDequeue => (ipcqStep ipcqSlots s.ch .dequeue).map fun ch => { s with ch := ch }
  | .bRecv c sl => (ipcqStep ipcqSlots s.ch (.recv c sl)).map fun ch => { s with ch := ch }

/-- Both endpoints after `cleanq_ipcq_create`, their pools drawn with `rand() = rndA` and
`rand() = rndB`. -/
def ipcqPairInit (rndA rndB : UInt64) : IpcqPair := ⟨regionPoolInit rndA, ipcqInit rndB⟩

/-- The states some interleaving of the two endpoints reaches. -/
inductive IpcqPairReachable : IpcqPair → Prop
  | init (rndA rndB : UInt64) : IpcqPairReachable (ipcqPairInit rndA rndB)
  | step {s s' : IpcqPair} (a : IpcqPairAct) :
      IpcqPairReachable s → ipcqPairStep s a = some s' → IpcqPairReachable s'

/-- The id a step removes from `B`'s pool: `B`'s own `cleanq_deregister`, or the
deregister command `B`'s receiver is about to hand to its pool. -/
def IpcqPair.removedId (s : IpcqPair) : IpcqPairAct → Option RegionId
  | .bDeregister rid => some rid
  | .bRecv _ _ => match s.ch.rx with
    | .load .deregister [] acc => some acc.buf.rid
    | _ => none
  | _ => none

/-- Along the run `acts` from `s`, no step removes from `B`'s pool an id in the slot of
`rid`. -/
def IpcqPair.Spares (rid : RegionId) : IpcqPair → List IpcqPairAct → Prop
  | _, [] => True
  | s, a :: acts => (∀ r, s.removedId a = some r → slotOf s.ch.pool r ≠ slotOf s.ch.pool rid) ∧
      ∀ s', ipcqPairStep s a = some s' → IpcqPair.Spares rid s' acts

/-- The call on the pool a command makes. -/
def IpcqCmd.poolOp (callocOk slabOk : Bool) : IpcqCmd → PoolOp
  | .register cap rid => .addRegionWithId cap rid callocOk slabOk
  | .deregister rid => .removeRegion rid

/-! ## `B`'s pool changes only by calls on it -/

theorem ipcqHandle_apply {p q : RegionPool} {c sl : Bool} {cmd : IpcqCmd} {err : Errval}
    (h : ipcqHandle p c sl cmd = some (err, q)) : (cmd.poolOp c sl).apply p = some q := by
  cases cmd with
  | register cap rid =>
    show (regionPoolAddRegionWithId p cap rid c sl).map Prod.snd = some q
    rw [show regionPoolAddRegionWithId p cap rid c sl = some (err, q) from h]; rfl
  | deregister rid =>
    simp only [ipcqHandle, Option.some.injEq] at h
    show some (regionPoolRemoveRegion p rid).2 = some q
    rw [h]

/-- Every step of the pair leaves `B`'s side alone, is a step of the channel, or is one of
`B`'s own calls on its pool. -/
theorem ipcqPairStep_cases {s s' : IpcqPair} {a : IpcqPairAct} (hs : ipcqPairStep s a = some s') :
    s'.ch = s.ch ∨
    (∃ a', ipcqStep ipcqSlots s.ch a' = some s'.ch ∧ ∀ c sl, a' = .recv c sl → a = .bRecv c sl) ∨
    (s'.ch = { s.ch with pool := s'.ch.pool } ∧ ∃ op : PoolOp, op.apply s.ch.pool = some s'.ch.pool ∧
      ∀ rid, op = .removeRegion rid → a = .bDeregister rid) := by
  have chan : ∀ {a'} {f : IpcqSys → IpcqPair}, (∀ ch, (f ch).ch = ch) →
      (∀ c sl, a' = .recv c sl → a = .bRecv c sl) →
      (ipcqStep ipcqSlots s.ch a').map f = some s' →
      ∃ a', ipcqStep ipcqSlots s.ch a' = some s'.ch ∧ ∀ c sl, a' = .recv c sl → a = .bRecv c sl := by
    intro a' f hf hr h
    obtain ⟨ch, hch, rfl⟩ := Option.map_eq_some'.mp h
    exact ⟨a', by rw [hf]; exact hch, hr⟩
  cases a with
  | aRegister cap c sl =>
    simp only [ipcqPairStep] at hs
    split at hs
    · obtain ⟨⟨res, poolA⟩, -, hs⟩ := Option.bind_eq_some.mp hs
      cases res with
      | ok rid => exact .inr (.inl (chan (fun _ => rfl) (fun _ _ h => by cases h) hs))
      | error e => cases hs; exact .inl rfl
    · cases hs
  | aDeregister rid =>
    simp only [ipcqPairStep] at hs
    split at hs
    · split at hs
      · exact .inr (.inl (chan (fun _ => rfl) (fun _ _ h => by cases h) hs))
      · cases hs; exact .inl rfl
    · cases hs
  | aEnqueue buf =>
    simp only [ipcqPairStep] at hs
    split at hs
    · split at hs
      · exact .inr (.inl (chan (fun _ => rfl) (fun _ _ h => by cases h) hs))
      · cases hs; exact .inl rfl
    · cases hs
  | aSend => exact .inr (.inl (chan (fun _ => rfl) (fun _ _ h => by cases h) hs))
  | bRegister cap c sl =>
    simp only [ipcqPairStep] at hs
    split at hs
    · obtain ⟨⟨res, pool⟩, hadd, rfl⟩ := Option.map_eq_some'.mp hs
      exact .inr (.inr ⟨rfl, .addRegion cap c sl, by simp [PoolOp.apply, hadd],
        fun _ h => by cases h⟩)
    · cases hs
  | bDeregister rid =>
    simp only [ipcqPairStep] at hs
    split at hs
    · cases hs
      exact .inr (.inr ⟨rfl, .removeRegion rid, rfl, fun _ h => by cases h; rfl⟩)
    · cases hs
  | bDequeue => exact .inr (.inl (chan (fun _ => rfl) (fun _ _ h => by cases h) hs))
  | bRecv c sl => exact .inr (.inl (chan (fun _ => rfl) (fun _ _ h => by cases h; rfl) hs))

/-- A step changes `B`'s pool by one call on it, and removes an id only as `removedId`
says; the command log grows only when `B`'s receiver hands a command to its pool. -/
theorem ipcqPairStep_poolB {s s' : IpcqPair} {a : IpcqPairAct} (hs : ipcqPairStep s a = some s') :
    (s'.ch.pool = s.ch.pool ∧ s'.ch.handled = s.ch.handled) ∨
    ∃ op : PoolOp, op.apply s.ch.pool = some s'.ch.pool ∧
      (∀ rid, op = .removeRegion rid → s.removedId a = some rid) ∧
      (s'.ch.handled = s.ch.handled ∨ ∃ c sl cmd err,
        ipcqHandle s.ch.pool c sl cmd = some (err, s'.ch.pool) ∧
        s'.ch.handled = s.ch.handled ++ [(cmd, err)]) := by
  rcases ipcqPairStep_cases hs with h | ⟨a', hch, hrecv⟩ | ⟨hch, op, hop, hrem⟩
  · exact .inl ⟨by rw [h], by rw [h]⟩
  · rcases ipcqStep_pool hch with h | ⟨c, sl, p, acc, cmd, err, rfl, hrx, hout, hh, hlog⟩
    · exact .inl h
    · refine .inr ⟨cmd.poolOp c sl, ipcqHandle_apply hh, fun rid hr => ?_,
        .inr ⟨c, sl, cmd, err, hh, hlog⟩⟩
      rw [hrecv c sl rfl]
      cases cmd with
      | register => cases hr
      | deregister r =>
        cases hr
        cases p <;> cases hout
        simp [IpcqPair.removedId, hrx]
  · exact .inr ⟨op, hop, fun rid h => by rw [hrem rid h]; rfl, .inl (by rw [hch])⟩

theorem IpcqPairReachable.run {s : IpcqPair} (h : IpcqPairReachable s) :
    ∀ {acts : List IpcqPairAct} {s' : IpcqPair}, acts.foldlM ipcqPairStep s = some s' →
      IpcqPairReachable s'
  | [], _, hs => by cases hs; exact h
  | a :: _, _, hs => by
    obtain ⟨t, ht, hs⟩ := Option.bind_eq_some.mp hs
    exact (h.step a ht).run hs

/-- `B`'s pool is always one that `region_pool_init` and calls on the pool reach. -/
theorem IpcqPairReachable.poolB {s : IpcqPair} (h : IpcqPairReachable s) : Reachable s.ch.pool := by
  induction h with
  | init rndA rndB => exact .init rndB
  | step a _ hs ih =>
    rcases ipcqPairStep_poolB hs with ⟨hp, -⟩ | ⟨op, hop, -⟩
    · rw [hp]; exact ih
    · exact .step op ih hop

/-- When the command log grows by `(cmd, err)`, the step handed `cmd` to `B`'s pool, which
answered `err`. -/
theorem ipcqPairStep_handled {s s' : IpcqPair} {a : IpcqPairAct} {cmd : IpcqCmd} {err : Errval}
    (hs : ipcqPairStep s a = some s') (hlog : s'.ch.handled = s.ch.handled ++ [(cmd, err)]) :
    ∃ c sl, ipcqHandle s.ch.pool c sl cmd = some (err, s'.ch.pool) := by
  rcases ipcqPairStep_poolB hs with ⟨-, h⟩ | ⟨op, -, -, h | ⟨c, sl, cmd', err', hh, h⟩⟩
  all_goals rw [hlog] at h
  · simp at h
  · simp at h
  · obtain ⟨rfl, rfl⟩ := Prod.mk.inj (List.singleton_inj.mp (List.append_cancel_left h)).symm
    exact ⟨c, sl, hh⟩

/-! ## A mirrored region stays until its slot is cleared -/

theorem IpcqPair.resolves_step {s s' : IpcqPair} {a : IpcqPairAct} {reg : Region}
    (hh : Hashed s.ch.pool) (hr : s.ch.pool.Resolves reg)
    (hsp : ∀ rid, s.removedId a = some rid → slotOf s.ch.pool rid ≠ slotOf s.ch.pool reg.id)
    (hs : ipcqPairStep s a = some s') : s'.ch.pool.Resolves reg := by
  rcases ipcqPairStep_poolB hs with ⟨hp, -⟩ | ⟨op, hop, hrem, -⟩
  · rw [hp]; exact hr
  · exact PoolOp.apply_resolves hh hr hop fun rid h => hsp rid (hrem rid h)

theorem IpcqPair.resolves_run {reg : Region} : ∀ {acts : List IpcqPairAct} {s s' : IpcqPair},
    IpcqPairReachable s → s.ch.pool.Resolves reg → s.Spares reg.id acts →
    acts.foldlM ipcqPairStep s = some s' → s'.ch.pool.Resolves reg
  | [], _, _, _, hr, _, hrun => by cases hrun; exact hr
  | a :: _, _, _, hs, hr, ⟨hsp, hrest⟩, hrun => by
    obtain ⟨t, ht, hrun⟩ := Option.bind_eq_some.mp hrun
    exact resolves_run (.step a hs ht) (resolves_step (reachable_hashed hs.poolB) hr hsp ht)
      (hrest t ht) hrun

/-- Take a step in which `B`'s receiver hands `A`'s register command for `rid` and `cap` to
its pool and the mirror insert returns `OK`. Along any run from there on in which `B`
removes no id in the slot of `rid`, `B`'s pool resolves `rid` to a region of base
`cap.paddr` and length `cap.len`, and every bounds check of `rid` is made against it. A
deregister command for `rid` clears the slot of `rid`, whatever region it holds. -/
theorem ipcq_mirrored_region_resolves_until_slot_cleared {s s₁ s₂ : IpcqPair} {a : IpcqPairAct}
    {acts : List IpcqPairAct} {cap : Capref} {rid : RegionId}
    (hs : IpcqPairReachable s) (ha : ipcqPairStep s a = some s₁)
    (hok : s₁.ch.handled = s.ch.handled ++ [(.register cap rid, .ok)])
    (hkeep : s₁.Spares rid acts) (hrun : acts.foldlM ipcqPairStep s₁ = some s₂) :
    s₂.ch.pool.pool (slotOf s₂.ch.pool rid) = some ⟨rid, cap.paddr, cap.len⟩ ∧
    (∀ offset length validData validLength : Genoffset,
      regionPoolBufferCheckBounds s₂.ch.pool rid offset length validData validLength =
        !(decide (length + offset > cap.len) || decide (validData + validLength > length))) ∧
    ∀ a' s₃ e, ipcqPairStep s₂ a' = some s₃ →
      s₃.ch.handled = s₂.ch.handled ++ [(.deregister rid, e)] →
      s₃.ch.pool.pool = Function.update s₂.ch.pool.pool (slotOf s₂.ch.pool rid) none := by
  obtain ⟨c, sl, hh⟩ := ipcqPairStep_handled ha hok
  have h₁ : s₁.ch.pool.Resolves ⟨rid, cap.paddr, cap.len⟩ := regionPoolAddRegionWithId_resolves hh
  have h₂ := IpcqPair.resolves_run (.step a hs ha) h₁ hkeep hrun
  refine ⟨h₂, fun offset length validData validLength => ?_, fun a' s₃ e h3 hlog => ?_⟩
  · unfold regionPoolBufferCheckBounds; rw [show s₂.ch.pool.pool _ = _ from h₂]
  · obtain ⟨_, _, hh3⟩ := ipcqPairStep_handled h3 hlog
    simp only [ipcqHandle, Option.some.injEq] at hh3
    rw [← regionPoolRemoveRegion_pool, hh3]

/-- `A` registers `4096` bytes at `0x10000`; then `B` registers `cap` of its own and starts
a dequeue, which loads `A`'s register command up to the call of the pool. -/
def ipcqMirrorSetup (cap : Capref) : List IpcqPairAct :=
  [.aRegister ⟨0, 0x10000, 4096⟩ true true] ++ List.replicate 10 .aSend ++
    [.bRegister cap true true, .bDequeue] ++ List.replicate 7 (.bRecv true true)

theorem ipcq_mirrored_region_resolves_without_collision :
    ∃ s s₁ s₂, (ipcqMirrorSetup ⟨0, 0x80000, 8192⟩).foldlM ipcqPairStep (ipcqPairInit 0 4096) =
        some s ∧ IpcqPairReachable s ∧ ipcqPairStep s (.bRecv true true) = some s₁ ∧
      s₁.ch.handled = s.ch.handled ++ [(.register ⟨0, 0x10000, 4096⟩ 1, .ok)] ∧
      s₁.Spares 1 [.bRecv true true] ∧ [IpcqPairAct.bRecv true true].foldlM ipcqPairStep s₁ = some s₂ ∧
      (s₂.ch.pool.pool (slotOf s₂.ch.pool 1) = some ⟨1, 0x10000, 4096⟩ ∧
      (∀ offset length validData validLength : Genoffset,
        regionPoolBufferCheckBounds s₂.ch.pool 1 offset length validData validLength =
          !(decide (length + offset > 4096) || decide (validData + validLength > length))) ∧
      ∀ a' s₃ e, ipcqPairStep s₂ a' = some s₃ →
        s₃.ch.handled = s₂.ch.handled ++ [(.deregister 1, e)] →
        s₃.ch.pool.pool = Function.update s₂.ch.pool.pool (slotOf s₂.ch.pool 1) none) := by
  obtain ⟨s, hs, s₁, h₁, hok, hsp, s₂, h₂⟩ : ∃ s,
      (ipcqMirrorSetup ⟨0, 0x80000, 8192⟩).foldlM ipcqPairStep (ipcqPairInit 0 4096) = some s ∧
      ∃ s₁, ipcqPairStep s (.bRecv true true) = some s₁ ∧
        s₁.ch.handled = s.ch.handled ++ [(.register ⟨0, 0x10000, 4096⟩ 1, .ok)] ∧
        s₁.Spares 1 [.bRecv true true] ∧
        ∃ s₂, [IpcqPairAct.bRecv true true].foldlM ipcqPairStep s₁ = some s₂ :=
    ⟨_, rfl, _, rfl, rfl, ⟨fun _ h => Option.noConfusion (h.symm.trans rfl), fun _ _ => trivial⟩,
      _, rfl⟩
  have hr := (IpcqPairReachable.init 0 4096).run hs
  exact ⟨s, s₁, s₂, hs, hr, h₁, hok, hsp, h₂,
    ipcq_mirrored_region_resolves_until_slot_cleared hr h₁ hok hsp h₂⟩

/-- `A`'s deregister command for id `1`, sent and consumed once `B`'s dequeue is over. -/
def ipcqDeregisterOne : List IpcqPairAct :=
  [.bRecv true true, .aDeregister 1] ++ List.replicate 10 .aSend ++ [.bDequeue] ++
    List.replicate 5 (.bRecv true true)

/-- Both pools drawn with `rand() = 0`: `A`'s region and `B`'s own get id `1`. When `B`
consumes `A`'s register command the mirror insert finds the slot taken and fails, so `B`
resolves `1` to its own region at `0x80000`; `A`'s deregister command then removes `B`'s
region. -/
theorem ipcq_mirror_collides_with_own_region :
    ∃ s s₁ s₂, (ipcqMirrorSetup ⟨0, 0x80000, 8192⟩).foldlM ipcqPairStep (ipcqPairInit 0 0) = some s ∧
      ipcqPairStep s (.bRecv true true) = some s₁ ∧
      s₁.poolA.pool 1 = some ⟨1, 0x10000, 4096⟩ ∧
      s₁.ch.handled = [(.register ⟨0, 0x10000, 4096⟩ 1, .invalidRegionId)] ∧
      s₁.ch.pool.pool (slotOf s₁.ch.pool 1) = some ⟨1, 0x80000, 8192⟩ ∧
      ipcqDeregisterOne.foldlM ipcqPairStep s₁ = some s₂ ∧
      s₂.ch.handled.map Prod.fst = [.register ⟨0, 0x10000, 4096⟩ 1, .deregister 1] ∧
      s₂.ch.pool.pool (slotOf s₂.ch.pool 1) = none :=
  ⟨_, _, _, rfl, rfl, rfl, rfl, rfl, rfl, rfl, rfl⟩

end CleanQ
