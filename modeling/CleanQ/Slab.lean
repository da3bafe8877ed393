import CleanQ.Basic
import Mathlib.Data.List.Nodup

/-!
# The slab allocator (`slab.c`)

The region pool and the debug queue take their records from slab allocators. A slab is a
buffer with a `struct slab_head` at its start and `total` blocks of `blocksize` bytes after
it; the free blocks of a slab are a list linked through their first word. `slab_alloc`
takes the top block of the first slab with a free one, and when there is none refills the
allocator with a buffer of `DEFAULT_REFIL_SIZE` bytes from `malloc`; `slab_free` pushes a
block back onto the first slab whose bytes contain it.

Modelling choices:

* addresses are naturals: pointer arithmetic inside a buffer from `malloc` does not wrap;
* a free list is the list of the addresses it links, and a block's contents are not
  modelled: the allocator reads only the links of free blocks, which the caller does not
  write, and the `memset` of `slab_alloc` changes no link;
* `total` and `free` are `uint32_t`;
* the refill function is `slab_default_refill`, the only one in the repository, and the
  result of its `malloc` is a parameter.

The allocator and its caller form a transition system (`slabStep`), run under the caller's
side of the contract (`SlabSys.Allowed`): `slab_free` gets a block the caller holds, as its
`NOTE` asks, and memory from `malloc`, or passed to `slab_grow`, overlaps no slab.

Proved here:

* `SlabReachable.inv`: in every reachable state each block of each slab is held by the
  caller or on its slab's free list, and never both or twice;
* `slab_alloc_returns_unheld_block`: a block `slab_alloc` returns is not held by anyone;
* `slab_free_of_held_block`: `slab_free` of a held block passes both of its `assert`s;
* `slab_alloc_null_only_when_malloc_fails`: with the default refill and blocks that fit a
  refill buffer, `slab_alloc` passes its `assert` and returns `NULL` only when every slab
  is full and `malloc` failed. This is what the region pool's `slabOk` stands for.
-/

namespace CleanQ

/-- `SLAB_BLOCK_HDRSIZE`, `sizeof(void *)`. -/
def slabBlockHdrsize : Nat := 8

/-- `sizeof(struct slab_head)`: two pointers and two `uint32_t` counts. -/
def slabHeadSize : Nat := 24

/-- `DEFAULT_REFIL_SIZE`. -/
def defaultRefilSize : Nat := 16 * 1024

/-- `UINT32_MAX`. -/
def uint32Max : Nat := 2 ^ 32 - 1

/-- `SLAB_REAL_BLOCKSIZE`: a block is large enough to hold its link. -/
def slabRealBlocksize (blocksize : Nat) : Nat :=
  if blocksize > slabBlockHdrsize then blocksize else slabBlockHdrsize

/-- `struct slab_head`, at address `addr`; `blocks` is its free list, top first. -/
structure SlabHead where
  addr : Nat
  total : UInt32
  free : UInt32
  blocks : List Nat
  deriving DecidableEq, Repr

/-- `struct slab_allocator`; `refill` says whether `refill_func` is set. -/
structure SlabAllocator where
  slabs : List SlabHead
  blocksize : Nat
  refill : Bool
  deriving DecidableEq, Repr

/-- `slab_init`. -/
def slabInit (blocksize : Nat) (refill : Bool) : SlabAllocator :=
  ⟨[], slabRealBlocksize blocksize, refill⟩

/-- Block `i` of the slab at `addr`. -/
def slabBlock (addr blocksize i : Nat) : Nat := addr + slabHeadSize + i * blocksize

/-- `slab_limit` of `slab_free`: the end of the slab's blocks. -/
def SlabHead.limit (sh : SlabHead) (blocksize : Nat) : Nat :=
  sh.addr + slabHeadSize + blocksize * sh.total.toNat

/-- `slab_grow`: a `slab_head` at `buf` with `(buflen - sizeof(struct slab_head)) / blocksize`
blocks after it, all free and linked in address order, put at the front of the slab list.
A failed `assert` is `none`. -/
def slabGrow (s : SlabAllocator) (buf buflen : Nat) : Option SlabAllocator :=
  if buflen ≤ slabHeadSize then none
  else if (buflen - slabHeadSize) / s.blocksize > uint32Max then none
  else if (buflen - slabHeadSize) / s.blocksize = 0 then none
  else
    let total := (buflen - slabHeadSize) / s.blocksize
    some { s with slabs := ⟨buf, total.toUInt32, total.toUInt32,
      (List.range total).map (slabBlock buf s.blocksize)⟩ :: s.slabs }

/-- Whether the search loop of `slab_alloc` finds a slab with `free != 0`. -/
def slabHasFree (shs : List SlabHead) : Bool := shs.any fun sh => sh.free ≠ 0

/-- The search loop of `slab_alloc` and the dequeue of the top block of the slab it stops
at; `none` when that slab has no block (the `assert`). -/
def slabPop : List SlabHead → Option (Nat × List SlabHead)
  | [] => none
  | sh :: shs =>
    if sh.free = 0 then (slabPop shs).map fun (b, shs) => (b, sh :: shs)
    else match sh.blocks with
      | [] => none
      | b :: rest => some (b, { sh with blocks := rest, free := sh.free - 1 } :: shs)

/-- The dequeue of `slab_alloc` once its search found a slab. -/
def slabTake (s : SlabAllocator) : Option (Option Nat × SlabAllocator) :=
  (slabPop s.slabs).map fun (b, shs) => (some b, { s with slabs := shs })

/-- `slab_alloc`, where the `malloc` of `slab_default_refill` returns `mem`. The result is
the block, `none` for `NULL`; a failed `assert` is `none` outside. -/
def slabAlloc (s : SlabAllocator) (mem : Option Nat) : Option (Option Nat × SlabAllocator) :=
  if slabHasFree s.slabs then slabTake s
  else if !s.refill then some (none, s)
  else match mem with
    | none => some (none, s)
    | some buf => (slabGrow s buf defaultRefilSize).bind fun s =>
        if slabHasFree s.slabs then slabTake s else some (none, s)

/-- The search loop of `slab_free` and the push onto the slab it stops at, the first with
`sh < bh < slab_limit`; `none` when there is none or `free` passes `total` (the
`assert`s). -/
def slabPush (blocksize bh : Nat) : List SlabHead → Option (List SlabHead)
  | [] => none
  | sh :: shs =>
    if sh.addr < bh ∧ bh < sh.limit blocksize then
      if sh.free + 1 ≤ sh.total then
        some ({ sh with blocks := bh :: sh.blocks, free := sh.free + 1 } :: shs)
      else none
    else (slabPush blocksize bh shs).map (sh :: ·)

/-- `slab_free`; `NULL` is `none`. -/
def slabFree (s : SlabAllocator) : Option Nat → Option SlabAllocator
  | none => some s
  | some bh => (slabPush s.blocksize bh s.slabs).map fun shs => { s with slabs := shs }

/-- The allocator and the blocks its caller holds, newest first. -/
structure SlabSys where
  alloc : SlabAllocator
  held : List Nat

/-- A call of the caller: `slab_alloc` (with the result its refill's `malloc` would give),
`slab_grow`, or `slab_free` of a block. -/
inductive SlabAct
  | alloc (mem : Option Nat)
  | grow (buf buflen : Nat)
  | free (block : Nat)
  deriving DecidableEq, Repr

/-- One call; `none` when an `assert` fails. -/
def slabStep (s : SlabSys) : SlabAct → Option SlabSys
  | .alloc mem => (slabAlloc s.alloc mem).map fun (b, a) => ⟨a, b.toList ++ s.held⟩
  | .grow buf buflen => (slabGrow s.alloc buf buflen).map fun a => ⟨a, s.held⟩
  | .free b => (slabFree s.alloc (some b)).map fun a => ⟨a, s.held.erase b⟩

/-- The bytes `[buf, buf + len)` overlap no slab. -/
def SlabAllocator.Fresh (s : SlabAllocator) (buf len : Nat) : Prop :=
  ∀ sh ∈ s.slabs, buf + len ≤ sh.addr ∨ sh.limit s.blocksize ≤ buf

/-- The caller's side of the contract. -/
def SlabSys.Allowed (s : SlabSys) : SlabAct → Prop
  | .alloc none => True
  | .alloc (some buf) => s.alloc.Fresh buf defaultRefilSize
  | .grow buf buflen => s.alloc.Fresh buf buflen
  | .free b => b ∈ s.held

/-- The states a caller keeping the contract reaches from `slab_init`. -/
inductive SlabReachable : SlabSys → Prop
  | init (blocksize : Nat) (refill : Bool) : SlabReachable ⟨slabInit blocksize refill, []⟩
  | step {s s' : SlabSys} (a : SlabAct) :
      SlabReachable s → s.Allowed a → slabStep s a = some s' → SlabReachable s'

/-! ## Blocks, spans and the invariant -/

/-- All blocks of a slab. -/
def SlabHead.span (sh : SlabHead) (blocksize : Nat) : List Nat :=
  (List.range sh.total.toNat).map (slabBlock sh.addr blocksize)

/-- Every block of every slab. -/
def SlabAllocator.blocks (s : SlabAllocator) : List Nat := s.slabs.flatMap (·.span s.blocksize)

/-- The blocks on the free lists. -/
def SlabAllocator.freeBlocks (s : SlabAllocator) : List Nat := s.slabs.flatMap (·.blocks)

/-- The bytes of two slabs do not overlap. -/
def SlabHead.Apart (blocksize : Nat) (a c : SlabHead) : Prop :=
  a.limit blocksize ≤ c.addr ∨ c.limit blocksize ≤ a.addr

/-- `b` lies strictly inside the bytes of the slab, as the test of `slab_free` asks. -/
def SlabHead.Inside (sh : SlabHead) (blocksize b : Nat) : Prop :=
  sh.addr < b ∧ b < sh.limit blocksize

/-- What holds in every reachable state: the count of each slab is the length of its free
list, whose blocks are the slab's; the slabs do not overlap; and the held blocks and the
free lists are, up to order, exactly the blocks of all slabs. -/
structure SlabInv (s : SlabSys) : Prop where
  blocksize_pos : 0 < s.alloc.blocksize
  count : ∀ sh ∈ s.alloc.slabs, sh.free.toNat = sh.blocks.length
  owned : ∀ sh ∈ s.alloc.slabs, sh.blocks ⊆ sh.span s.alloc.blocksize
  apart : s.alloc.slabs.Pairwise (SlabHead.Apart s.alloc.blocksize)
  perm : (s.held ++ s.alloc.freeBlocks).Perm s.alloc.blocks

section Spans

variable {bs b : Nat} {sh sh' : SlabHead}

theorem SlabHead.mem_span : b ∈ sh.span bs ↔ ∃ i < sh.total.toNat, slabBlock sh.addr bs i = b := by
  simp [SlabHead.span]

theorem SlabHead.length_span : (sh.span bs).length = sh.total.toNat := by
  simp [SlabHead.span]

/-- A block of a slab passes the test of `slab_free` for that slab. -/
theorem SlabHead.inside_of_mem_span (hbs : 0 < bs) (hb : b ∈ sh.span bs) : sh.Inside bs b := by
  obtain ⟨i, hi, rfl⟩ := SlabHead.mem_span.mp hb
  have : i * bs < sh.total.toNat * bs := Nat.mul_lt_mul_of_pos_right hi hbs
  unfold SlabHead.Inside SlabHead.limit slabBlock slabHeadSize
  rw [Nat.mul_comm bs]; omega

/-- No address is inside two slabs that do not overlap. -/
theorem SlabHead.Apart.not_inside (h : SlabHead.Apart bs sh sh') (h1 : sh.Inside bs b)
    (h2 : sh'.Inside bs b) : False := by
  unfold SlabHead.Apart at h; unfold SlabHead.Inside at h1 h2; omega

theorem SlabHead.span_nodup (hbs : 0 < bs) : (sh.span bs).Nodup :=
  (List.nodup_range _).map fun i j h => Nat.eq_of_mul_eq_mul_right hbs (by
    unfold slabBlock at h; omega)

/-- The spans of two slabs that do not overlap share no block. -/
theorem SlabHead.Apart.disjoint (hbs : 0 < bs) (h : SlabHead.Apart bs sh sh') :
    List.Disjoint (sh.span bs) (sh'.span bs) := fun _ h1 h2 =>
  h.not_inside (SlabHead.inside_of_mem_span hbs h1) (SlabHead.inside_of_mem_span hbs h2)

/-- A free list inside a span is no longer than the span. -/
theorem SlabHead.length_le_total {l : List Nat} (hl : l.Nodup) (hs : l ⊆ sh.span bs) :
    l.length ≤ sh.total.toNat := by
  have := (List.subperm_of_subset hl hs).length_le
  rwa [SlabHead.length_span] at this

end Spans

theorem SlabInv.blocks_nodup {s : SlabSys} (h : SlabInv s) : s.alloc.blocks.Nodup :=
  List.nodup_flatMap.mpr ⟨fun _ _ => SlabHead.span_nodup h.blocksize_pos,
    h.apart.imp (SlabHead.Apart.disjoint h.blocksize_pos)⟩

/-- No block is held twice, free twice, or both held and free. -/
theorem SlabInv.nodup {s : SlabSys} (h : SlabInv s) : (s.held ++ s.alloc.freeBlocks).Nodup :=
  h.perm.nodup_iff.mpr h.blocks_nodup

/-! ## What each call does -/

/-- The pop takes the top block of the first slab with `free != 0`. -/
theorem slabPop_spec : ∀ {shs shs' : List SlabHead} {b : Nat}, slabPop shs = some (b, shs') →
    ∃ pre sh post rest, shs = pre ++ sh :: post ∧ sh.blocks = b :: rest ∧
      shs' = pre ++ { sh with blocks := rest, free := sh.free - 1 } :: post ∧
      sh.free ≠ 0 ∧ ∀ x ∈ pre, x.free = 0
  | [], _, _, h => by cases h
  | sh :: shs, shs', b, h => by
    unfold slabPop at h
    split at h
    next h0 =>
      obtain ⟨⟨b', shs''⟩, hp, he⟩ := Option.map_eq_some'.mp h
      cases he
      obtain ⟨pre, x, post, rest, rfl, hx, rfl, hx0, hpre⟩ := slabPop_spec hp
      refine ⟨sh :: pre, x, post, rest, rfl, hx, rfl, hx0, ?_⟩
      simp only [List.mem_cons, forall_eq_or_imp]; exact ⟨h0, hpre⟩
    next h0 =>
      split at h
      · cases h
      · next b' rest hb => cases h; exact ⟨[], sh, shs, rest, rfl, hb, rfl, h0, by simp⟩

/-- The push puts `b` on top of the first slab whose bytes contain it. -/
theorem slabPush_spec {bs b : Nat} : ∀ {shs shs' : List SlabHead}, slabPush bs b shs = some shs' →
    ∃ pre sh post, shs = pre ++ sh :: post ∧ sh.Inside bs b ∧ sh.free + 1 ≤ sh.total ∧
      shs' = pre ++ { sh with blocks := b :: sh.blocks, free := sh.free + 1 } :: post
  | [], _, h => by cases h
  | sh :: shs, shs', h => by
    unfold slabPush at h
    split at h
    next hin =>
      split at h
      · cases h; exact ⟨[], sh, shs, rfl, hin, ‹_›, rfl⟩
      · cases h
    next =>
      obtain ⟨shs'', hp, rfl⟩ := Option.map_eq_some'.mp h
      obtain ⟨pre, x, post, rfl, hx, hle, rfl⟩ := slabPush_spec hp
      exact ⟨sh :: pre, x, post, rfl, hx, hle, rfl⟩

/-- `slab_grow` adds one slab of `total` blocks, all free, that fits in the buffer. -/
theorem slabGrow_spec {s a : SlabAllocator} {buf buflen : Nat} (h : slabGrow s buf buflen = some a) :
    ∃ total, 0 < total ∧ total ≤ uint32Max ∧ slabHeadSize + s.blocksize * total ≤ buflen ∧
      a = { s with slabs := ⟨buf, total.toUInt32, total.toUInt32,
        (List.range total).map (slabBlock buf s.blocksize)⟩ :: s.slabs } := by
  unfold slabGrow at h
  split at h; · cases h
  split at h; · cases h
  split at h; · cases h
  cases h
  refine ⟨_, Nat.pos_of_ne_zero ‹_›, Nat.le_of_not_gt ‹_›, ?_, rfl⟩
  have := Nat.div_mul_le_self (buflen - slabHeadSize) s.blocksize
  rw [Nat.mul_comm]; omega

/-! ## The invariant is kept -/

section Preservation

variable {s : SlabSys}

theorem SlabAllocator.freeBlocks_eq {a : SlabAllocator} {pre post : List SlabHead} {sh : SlabHead}
    (hs : a.slabs = pre ++ sh :: post) :
    a.freeBlocks = pre.flatMap (·.blocks) ++ sh.blocks ++ post.flatMap (·.blocks) := by
  simp [SlabAllocator.freeBlocks, hs]

/-- A call that changes only the free list and the count of one slab, and what the caller
holds, keeps the invariant when the new count is the new list's length, the list stays in
the slab, and no block is gained or lost. -/
theorem SlabInv.update (h : SlabInv s) {pre post : List SlabHead} {sh : SlabHead}
    (hs : s.alloc.slabs = pre ++ sh :: post) {l held : List Nat} {n : UInt32}
    (hn : n.toNat = l.length) (hl : l ⊆ sh.span s.alloc.blocksize)
    (hp : (held ++ (pre.flatMap (·.blocks) ++ l ++ post.flatMap (·.blocks))).Perm
      (s.held ++ s.alloc.freeBlocks)) :
    SlabInv ⟨⟨pre ++ { sh with blocks := l, free := n } :: post, s.alloc.blocksize,
      s.alloc.refill⟩, held⟩ := by
  have hmem : ∀ x ∈ pre ++ { sh with blocks := l, free := n } :: post,
      x = { sh with blocks := l, free := n } ∨ x ∈ s.alloc.slabs := fun x hx => by
    rw [hs]; simp only [List.mem_append, List.mem_cons] at hx ⊢; tauto
  refine ⟨h.blocksize_pos, fun x hx => ?_, fun x hx => ?_, ?_, ?_⟩
  · rcases hmem x hx with rfl | hx
    · exact hn
    · exact h.count x hx
  · rcases hmem x hx with rfl | hx
    · exact hl
    · exact h.owned x hx
  · have := h.apart; rw [hs] at this
    simpa [List.pairwise_append, SlabHead.Apart, SlabHead.limit] using this
  · have hb : SlabAllocator.blocks ⟨pre ++ { sh with blocks := l, free := n } :: post,
        s.alloc.blocksize, s.alloc.refill⟩ = s.alloc.blocks := by
      simp [SlabAllocator.blocks, hs, SlabHead.span]
    rw [SlabAllocator.freeBlocks_eq rfl, hb]
    exact hp.trans h.perm

/-- The pop of `slab_alloc` moves one block from its slab's free list to the caller. -/
theorem SlabInv.take (h : SlabInv s) {a : SlabAllocator} {r : Option Nat}
    (ht : slabTake s.alloc = some (r, a)) : SlabInv ⟨a, r.toList ++ s.held⟩ := by
  obtain ⟨⟨b, shs⟩, hp, he⟩ := Option.map_eq_some'.mp ht
  cases he
  obtain ⟨pre, sh, post, rest, hs, hb, rfl, h0, -⟩ := slabPop_spec hp
  have hc := h.count sh (by rw [hs]; simp)
  have hsub := h.owned sh (by rw [hs]; simp)
  rw [hb] at hc hsub
  refine h.update hs ?_ (fun x hx => hsub (List.mem_cons_of_mem b hx)) ?_
  · have := u32_toNat_lt sh.free
    have : sh.free.toNat ≠ 0 := fun h' => h0 (u32_eq_iff.mpr h')
    rw [u32_toNat_sub, show (1 : UInt32).toNat = 1 from rfl]
    simp only [List.length_cons] at hc; omega
  · rw [SlabAllocator.freeBlocks_eq hs, hb]
    simpa only [List.append_assoc, List.cons_append] using
      (@List.perm_middle _ b (s.held ++ pre.flatMap (·.blocks)) (rest ++ post.flatMap (·.blocks))).symm

/-- A block of some slab that passes the test of `slab_free` for `sh` is a block of `sh`:
no other slab contains its address. -/
theorem SlabInv.mem_span_of_inside (h : SlabInv s) {pre post : List SlabHead} {sh : SlabHead}
    (hs : s.alloc.slabs = pre ++ sh :: post) {b : Nat} (hin : sh.Inside s.alloc.blocksize b)
    (hb : b ∈ s.alloc.blocks) : b ∈ sh.span s.alloc.blocksize := by
  obtain ⟨x, hx, hbx⟩ := List.mem_flatMap.mp hb
  have hxin := SlabHead.inside_of_mem_span h.blocksize_pos hbx
  have hap := h.apart
  rw [hs, List.pairwise_append, List.pairwise_cons] at hap
  rw [hs, List.mem_append, List.mem_cons] at hx
  rcases hx with hx | rfl | hx
  · exact ((hap.2.2 x hx sh (List.mem_cons_self _ _)).not_inside hxin hin).elim
  · exact hbx
  · exact ((hap.2.1.1 x hx).not_inside hin hxin).elim

/-- A held block is on no free list, and the free list of its slab has room for it. -/
theorem SlabInv.room (h : SlabInv s) {b : Nat} (hb : b ∈ s.held) {sh : SlabHead}
    (hsh : sh ∈ s.alloc.slabs) (hspan : b ∈ sh.span s.alloc.blocksize) :
    b ∉ sh.blocks ∧ sh.free.toNat + 1 ≤ sh.total.toNat := by
  have hnd := h.nodup
  have hnot : b ∉ sh.blocks := fun hx =>
    List.disjoint_of_nodup_append hnd hb (List.mem_flatMap.mpr ⟨sh, hsh, hx⟩)
  obtain ⟨pre, post, hs⟩ := List.append_of_mem hsh
  have hfree : (pre.flatMap (·.blocks) ++ sh.blocks ++ post.flatMap (·.blocks)).Nodup :=
    SlabAllocator.freeBlocks_eq hs ▸ hnd.of_append_right
  have := SlabHead.length_le_total (List.nodup_cons.mpr ⟨hnot, hfree.of_append_left.of_append_right⟩)
    (List.cons_subset.mpr ⟨hspan, h.owned sh hsh⟩)
  rw [List.length_cons, ← h.count sh hsh] at this
  exact ⟨hnot, this⟩

/-- `slab_free` of a held block puts it back on the free list of its slab. -/
theorem SlabInv.push (h : SlabInv s) {b : Nat} (hb : b ∈ s.held) {a : SlabAllocator}
    (hf : slabFree s.alloc (some b) = some a) : SlabInv ⟨a, s.held.erase b⟩ := by
  obtain ⟨shs, hp, rfl⟩ := Option.map_eq_some'.mp hf
  obtain ⟨pre, sh, post, hs, hin, -, rfl⟩ := slabPush_spec hp
  have hsh : sh ∈ s.alloc.slabs := by rw [hs]; simp
  have hspan := h.mem_span_of_inside hs hin (h.perm.subset (List.mem_append_left _ hb))
  obtain ⟨hnot, hroom⟩ := h.room hb hsh hspan
  refine h.update hs ?_ (List.cons_subset.mpr ⟨hspan, h.owned sh hsh⟩) ?_
  · have := u32_toNat_lt sh.total
    rw [u32_toNat_add, show (1 : UInt32).toNat = 1 from rfl, h.count sh hsh, List.length_cons]
    exact Nat.mod_eq_of_lt (by rw [h.count sh hsh] at hroom; omega)
  · rw [SlabAllocator.freeBlocks_eq hs]
    refine List.Perm.trans ?_ ((List.perm_cons_erase hb).append_right _).symm
    simpa only [List.append_assoc, List.cons_append] using
      @List.perm_middle _ b (s.held.erase b ++ pre.flatMap (·.blocks))
        (sh.blocks ++ post.flatMap (·.blocks))

/-- `slab_grow` on memory that overlaps no slab adds a slab whose blocks are all free. -/
theorem SlabInv.grow (h : SlabInv s) {buf len : Nat} (hfr : s.alloc.Fresh buf len)
    {a : SlabAllocator} (hg : slabGrow s.alloc buf len = some a) : SlabInv ⟨a, s.held⟩ := by
  obtain ⟨total, h0, hmax, hfit, rfl⟩ := slabGrow_spec hg
  have ht : total.toUInt32.toNat = total := by
    rw [nat_toNat_toUInt32]; unfold uint32Max at hmax; omega
  have hspan : (List.range total).map (slabBlock buf s.alloc.blocksize) =
      SlabHead.span ⟨buf, total.toUInt32, total.toUInt32,
        (List.range total).map (slabBlock buf s.alloc.blocksize)⟩ s.alloc.blocksize := by
    rw [SlabHead.span, ht]
  refine ⟨h.blocksize_pos, fun x hx => ?_, fun x hx => ?_, ?_, ?_⟩
  · rcases List.mem_cons.mp hx with rfl | hx
    · simp [ht]
    · exact h.count x hx
  · rcases List.mem_cons.mp hx with rfl | hx
    · exact (List.Perm.of_eq hspan).subset
    · exact h.owned x hx
  · refine List.pairwise_cons.mpr ⟨fun x hx => ?_, h.apart⟩
    have := hfr x hx
    unfold SlabHead.Apart SlabHead.limit at *; dsimp only; rw [ht]; omega
  · show (s.held ++ (_ ++ s.alloc.freeBlocks)).Perm (_ ++ s.alloc.blocks)
    rw [hspan]
    exact (List.perm_append_comm_assoc _ _ _).trans (h.perm.append_left _)

/-- `slab_alloc` keeps the invariant when the memory its refill would take overlaps no
slab. -/
theorem SlabInv.alloc (h : SlabInv s) {mem : Option Nat} (hm : s.Allowed (.alloc mem))
    {r : Option Nat} {a : SlabAllocator} (ha : slabAlloc s.alloc mem = some (r, a)) :
    SlabInv ⟨a, r.toList ++ s.held⟩ := by
  unfold slabAlloc at ha
  split at ha
  · exact h.take ha
  · split at ha
    · cases ha; exact h
    · split at ha
      · cases ha; exact h
      · obtain ⟨a₁, hg, ha⟩ := Option.bind_eq_some.mp ha
        have h₁ : SlabInv ⟨a₁, s.held⟩ := h.grow hm hg
        split at ha
        · exact h₁.take ha
        · cases ha; exact h₁

theorem SlabInv.step (h : SlabInv s) {a : SlabAct} (ha : s.Allowed a) {s' : SlabSys}
    (hs : slabStep s a = some s') : SlabInv s' := by
  cases a with
  | alloc mem =>
    obtain ⟨⟨r, al⟩, hal, rfl⟩ := Option.map_eq_some'.mp hs
    exact h.alloc ha hal
  | grow buf len =>
    obtain ⟨al, hg, rfl⟩ := Option.map_eq_some'.mp hs
    exact h.grow ha hg
  | free b =>
    obtain ⟨al, hf, rfl⟩ := Option.map_eq_some'.mp hs
    exact h.push ha hf

end Preservation

theorem slabInit_inv (blocksize : Nat) (refill : Bool) :
    SlabInv ⟨slabInit blocksize refill, []⟩ where
  blocksize_pos := by unfold slabInit slabRealBlocksize slabBlockHdrsize; dsimp only; split <;> omega
  count _ hx := nomatch hx
  owned _ hx := nomatch hx
  apart := List.Pairwise.nil
  perm := List.Perm.nil

theorem SlabReachable.inv {s : SlabSys} (h : SlabReachable s) : SlabInv s := by
  induction h with
  | init bs r => exact slabInit_inv bs r
  | step _ _ ha hs ih => exact ih.step ha hs

theorem SlabReachable.run {s : SlabSys} (h : SlabReachable s) :
    ∀ {acts : List SlabAct} {s' : SlabSys}, (∀ a ∈ acts, ∀ t, SlabReachable t → t.Allowed a) →
      acts.foldlM slabStep s = some s' → SlabReachable s'
  | [], _, _, hs => by cases hs; exact h
  | a :: acts, _, hok, hs => by
    obtain ⟨t, ht, hs⟩ := Option.bind_eq_some.mp hs
    exact (h.step a (hok a (List.mem_cons_self _ _) s h) ht).run
      (fun a' ha' => hok a' (List.mem_cons_of_mem _ ha')) hs

/-! ## What the caller gets -/

/-- The pop of `slab_alloc` finds a block once the search found a slab: the `assert` holds. -/
theorem slabPop_isSome : ∀ {shs : List SlabHead}, (∀ sh ∈ shs, sh.free.toNat = sh.blocks.length) →
    slabHasFree shs = true → ∃ b shs', slabPop shs = some (b, shs')
  | [], _, hf => by simp [slabHasFree] at hf
  | sh :: shs, hc, hf => by
    unfold slabPop
    split
    next h0 =>
      have hf' : slabHasFree shs = true := by simpa [slabHasFree, h0] using hf
      obtain ⟨b, shs', hp⟩ := slabPop_isSome (fun x hx => hc x (List.mem_cons_of_mem _ hx)) hf'
      exact ⟨b, sh :: shs', by rw [hp]; rfl⟩
    next h0 =>
      have hlen := hc sh (List.mem_cons_self _ _)
      split
      next hb => rw [hb] at hlen; exact absurd (show sh.free = 0 from u32_eq_iff.mpr hlen) h0
      next b rest _ => exact ⟨b, _, rfl⟩

/-- The search of `slab_free` stops at the slab of a block, whose count then has room. -/
theorem slabPush_isSome {bs b : Nat} (hbs : 0 < bs) {sh : SlabHead}
    (hroom : sh.free.toNat + 1 ≤ sh.total.toNat) (hspan : b ∈ sh.span bs) :
    ∀ {shs : List SlabHead}, shs.Pairwise (SlabHead.Apart bs) → sh ∈ shs →
      ∃ shs', slabPush bs b shs = some shs'
  | [], _, hm => nomatch hm
  | x :: shs, hap, hm => by
    have hin := SlabHead.inside_of_mem_span hbs hspan
    unfold slabPush
    split
    next hx =>
      obtain rfl : x = sh := by
        rcases List.mem_cons.mp hm with rfl | hm
        · rfl
        · exact ((List.rel_of_pairwise_cons hap hm).not_inside hx hin).elim
      have := u32_toNat_lt x.total
      rw [if_pos (u32_le_iff.mpr (by
        rw [u32_toNat_add, show (1 : UInt32).toNat = 1 from rfl, Nat.mod_eq_of_lt (by omega)]
        exact hroom))]
      exact ⟨_, rfl⟩
    next hx =>
      have hm' : sh ∈ shs := (List.mem_cons.mp hm).resolve_left fun he => hx (he ▸ hin)
      obtain ⟨shs', hp⟩ := slabPush_isSome hbs hroom hspan (List.pairwise_cons.mp hap).2 hm'
      exact ⟨_, by rw [hp]; rfl⟩

/-- A `slab_grow` that passes its `assert`s leaves a first slab with a free block. -/
theorem slabGrow_take {a a₁ : SlabAllocator} {buf len : Nat} (hg : slabGrow a buf len = some a₁) :
    slabHasFree a₁.slabs = true ∧ ∃ b a₂, slabTake a₁ = some (some b, a₂) := by
  obtain ⟨total, h0, hmax, -, rfl⟩ := slabGrow_spec hg
  obtain ⟨k, rfl⟩ : ∃ k, total = k + 1 := ⟨total - 1, by omega⟩
  have hne : (k + 1).toUInt32 ≠ 0 := fun he => by
    have := congrArg UInt32.toNat he
    rw [nat_toNat_toUInt32] at this; unfold uint32Max at hmax
    rw [Nat.mod_eq_of_lt (by omega)] at this; cases this
  refine ⟨by simp [slabHasFree, hne], ?_⟩
  simp only [slabTake, slabPop, hne, if_false, List.range_succ_eq_map, List.map_cons]
  exact ⟨_, _, rfl⟩

/-- With blocks that fit it, the refill buffer passes the `assert`s of `slab_grow`. -/
theorem slabGrow_refill {a : SlabAllocator} (hpos : 0 < a.blocksize)
    (hbs : a.blocksize ≤ defaultRefilSize - slabHeadSize) (buf : Nat) :
    ∃ a₁, slabGrow a buf defaultRefilSize = some a₁ := by
  have h1 : 1 ≤ (defaultRefilSize - slabHeadSize) / a.blocksize := (Nat.one_le_div_iff hpos).mpr hbs
  have h2 : (defaultRefilSize - slabHeadSize) / a.blocksize ≤ uint32Max :=
    (Nat.div_le_self _ _).trans (by decide)
  unfold slabGrow
  rw [if_neg (by decide), if_neg (by omega), if_neg (by omega)]
  exact ⟨_, rfl⟩

/-- A block that `slab_alloc` returns is a block of one of the slabs, held by no one and on
no free list. -/
theorem slab_alloc_returns_unheld_block {s : SlabSys} (h : SlabReachable s) {mem : Option Nat}
    (hm : s.Allowed (.alloc mem)) {b : Nat} {a : SlabAllocator}
    (ha : slabAlloc s.alloc mem = some (some b, a)) :
    b ∉ s.held ∧ b ∉ a.freeBlocks ∧ b ∈ a.blocks := by
  have hi := h.inv.alloc hm ha
  have hnd : (b :: (s.held ++ a.freeBlocks)).Nodup := hi.nodup
  have hb := (List.nodup_cons.mp hnd).1
  rw [List.mem_append, not_or] at hb
  exact ⟨hb.1, hb.2, hi.perm.subset (List.mem_cons_self _ _)⟩

/-- The slab `slab_grow` builds from `88` bytes holds two blocks of `32` bytes. -/
theorem slabReachable_two_blocks : SlabReachable ⟨⟨[⟨0, 2, 2, [24, 56]⟩], 32, false⟩, []⟩ :=
  .step (.grow 0 88) (.init 32 false) (fun _ h => absurd h (List.not_mem_nil _)) rfl

/-- The caller holds the first block of that slab. -/
theorem slabReachable_first_block_out : SlabReachable ⟨⟨[⟨0, 2, 1, [56]⟩], 32, false⟩, [24]⟩ :=
  .step (.alloc none) slabReachable_two_blocks trivial rfl

/-- With the first block held, the second `slab_alloc` returns the other block. -/
theorem slab_alloc_returns_second_block :
    SlabReachable ⟨⟨[⟨0, 2, 1, [56]⟩], 32, false⟩, [24]⟩ ∧
      SlabSys.Allowed ⟨⟨[⟨0, 2, 1, [56]⟩], 32, false⟩, [24]⟩ (.alloc none) ∧
      slabAlloc ⟨[⟨0, 2, 1, [56]⟩], 32, false⟩ none =
        some (some 56, ⟨[⟨0, 2, 0, []⟩], 32, false⟩) ∧
      56 ∉ [24] ∧ 56 ∉ SlabAllocator.freeBlocks ⟨[⟨0, 2, 0, []⟩], 32, false⟩ ∧
      56 ∈ SlabAllocator.blocks ⟨[⟨0, 2, 0, []⟩], 32, false⟩ :=
  ⟨slabReachable_first_block_out, trivial, rfl,
    @slab_alloc_returns_unheld_block _ slabReachable_first_block_out none trivial 56 _ rfl⟩

/-- `slab_free` of a held block passes both of its `assert`s: the search finds the block's
own slab, and the count stays within `total`. -/
theorem slab_free_of_held_block {s : SlabSys} (h : SlabReachable s) {b : Nat}
    (hb : b ∈ s.held) : ∃ a, slabFree s.alloc (some b) = some a := by
  have hi := h.inv
  obtain ⟨sh, hsh, hspan⟩ := List.mem_flatMap.mp (hi.perm.subset (List.mem_append_left _ hb))
  obtain ⟨shs', hp⟩ :=
    slabPush_isSome hi.blocksize_pos (hi.room hb hsh hspan).2 hspan hi.apart hsh
  exact ⟨_, by rw [slabFree, hp]; rfl⟩

/-- The caller frees the block it was given. -/
theorem slab_free_of_first_block :
    SlabReachable ⟨⟨[⟨0, 2, 1, [56]⟩], 32, false⟩, [24]⟩ ∧ 24 ∈ [24] ∧
      ∃ a, slabFree ⟨[⟨0, 2, 1, [56]⟩], 32, false⟩ (some 24) = some a :=
  ⟨slabReachable_first_block_out, .head _,
    slab_free_of_held_block slabReachable_first_block_out (.head _)⟩

/-- With the default refill and blocks that fit its buffer, `slab_alloc` passes its
`assert`, and returns `NULL` only when every slab is full and there is no refill or its
`malloc` failed. -/
theorem slab_alloc_null_only_when_malloc_fails {s : SlabSys} (h : SlabReachable s)
    (hbs : s.alloc.blocksize ≤ defaultRefilSize - slabHeadSize) (mem : Option Nat) :
    ∃ r a, slabAlloc s.alloc mem = some (r, a) ∧
      (r = none → (∀ sh ∈ s.alloc.slabs, sh.free = 0) ∧ (s.alloc.refill = false ∨ mem = none)) := by
  have hi := h.inv
  unfold slabAlloc
  split
  next hf =>
    obtain ⟨b, shs, hp⟩ := slabPop_isSome hi.count hf
    exact ⟨some b, _, by rw [slabTake, hp]; rfl, nofun⟩
  next hf =>
    have hfull : ∀ sh ∈ s.alloc.slabs, sh.free = 0 := by simpa [slabHasFree] using hf
    split
    next hr => exact ⟨none, s.alloc, rfl, fun _ => ⟨hfull, .inl (by simpa using hr)⟩⟩
    next =>
      split
      next => exact ⟨none, s.alloc, rfl, fun _ => ⟨hfull, .inr rfl⟩⟩
      next buf =>
        obtain ⟨a₁, hg⟩ := slabGrow_refill hi.blocksize_pos hbs buf
        obtain ⟨hf₁, b, a₂, ht⟩ := slabGrow_take hg
        exact ⟨some b, a₂, by rw [hg, Option.some_bind, if_pos hf₁, ht], nofun⟩

/-- An allocator of `16360`-byte blocks after its first `slab_alloc`: the refill's `malloc`
gave the bytes at `0`, `slab_grow` made a slab of one block, and the caller holds it. -/
theorem slabReachable_refilled_full :
    SlabReachable ⟨⟨[⟨0, 1, 0, []⟩], 16360, true⟩, [24]⟩ :=
  .step (.alloc (some 0)) (.init 16360 true) (fun _ h => absurd h (List.not_mem_nil _)) rfl

/-- With its only slab full, the allocator returns `NULL` when `malloc` fails, and refills
and returns the new slab's block when `malloc` gives the bytes at `16384`. -/
theorem slab_alloc_null_only_when_malloc_fails_refilled :
    SlabReachable ⟨⟨[⟨0, 1, 0, []⟩], 16360, true⟩, [24]⟩ ∧
      16360 ≤ defaultRefilSize - slabHeadSize ∧
      (∃ r a, slabAlloc ⟨[⟨0, 1, 0, []⟩], 16360, true⟩ none = some (r, a) ∧
        (r = none → (∀ sh ∈ [(⟨0, 1, 0, []⟩ : SlabHead)], sh.free = 0) ∧
          (true = false ∨ (none : Option Nat) = none))) ∧
      (∃ r a, slabAlloc ⟨[⟨0, 1, 0, []⟩], 16360, true⟩ (some 16384) = some (r, a) ∧
        (r = none → (∀ sh ∈ [(⟨0, 1, 0, []⟩ : SlabHead)], sh.free = 0) ∧
          (true = false ∨ some 16384 = none))) :=
  ⟨slabReachable_refilled_full, by decide,
    slab_alloc_null_only_when_malloc_fails slabReachable_refilled_full (by decide) none,
    slab_alloc_null_only_when_malloc_fails slabReachable_refilled_full (by decide) (some 16384)⟩

/-- Without a refill, a slab of two 32-byte blocks gives both, then `NULL`. -/
example : (([.grow 0 88, .alloc none, .alloc none, .alloc none] : List SlabAct).foldlM slabStep
    ⟨slabInit 32 false, []⟩).map (·.held) = some [56, 24] := by decide

end CleanQ
