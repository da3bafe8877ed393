import CleanQ.DebugQueue

/-!
# What the debug queue owns

A list of the debug queue stands for the set of bytes its ranges cover. Over the naturals
(`inRange`, `ownsByte`) and for well-formed lists (`MemoryList.WellFormed`: ordered,
nonempty, inside the region, apart), this module says what the two list operations do to
that set.

* `debug_enqueue_carves_owned_range`: `debug_enqueue` forwards a range exactly when the
  list owns all of it, and on success removes exactly its bytes, keeping the list well
  formed.
* `debug_dequeue_merges_returned_range`: `debug_dequeue` of a range the list does not own
  puts exactly its bytes back, keeping the list well formed, unless the lower-boundary test
  `buffer->offset + length == offset` of the insert-after path fires on a range that does
  not touch the last node.
* `freeListOrdered_ext`: well-formed lists are canonical, so two that own the same bytes are
  equal; hence `debug_deregister` accepts a region exactly when its list owns every byte of
  it (`debugDeregister_of_tracked`).
* `debug_enqueue_dequeue_restores_list`: an enqueue of an owned range followed by the
  dequeue of the same range gives back the region lists exactly, under the same condition
  on the lower-boundary test.
* `debug_register_deregister_restores`: registering an id the queue does not track and
  deregistering it at once gives back the region lists.
-/

namespace CleanQ

/-- Is byte `x` in `[offset, offset + length)`, over the naturals? -/
def inRange (offset length : Genoffset) (x : Nat) : Bool :=
  decide (offset.toNat ≤ x) && decide (x < offset.toNat + length.toNat)

/-- Does a range of the list own byte `x`? -/
def ownsByte (bs : List MemoryEle) (x : Nat) : Bool :=
  bs.any fun b => inRange b.offset b.length x

/-- How many of the held descriptors cover byte `x`. -/
def heldCount (held : List CleanqBuf) (x : Nat) : Nat :=
  held.countP fun b => inRange b.offset b.length x

theorem inRange_eq_true {offset length : Genoffset} {x : Nat} :
    inRange offset length x = true ↔ offset.toNat ≤ x ∧ x < offset.toNat + length.toNat := by
  simp [inRange]

theorem inRange_eq_false {offset length : Genoffset} {x : Nat} :
    inRange offset length x = false ↔ ¬(offset.toNat ≤ x ∧ x < offset.toNat + length.toNat) := by
  rw [← inRange_eq_true, Bool.not_eq_true]

@[simp] theorem ownsByte_nil (x : Nat) : ownsByte [] x = false := rfl

@[simp] theorem ownsByte_cons (b : MemoryEle) (bs : List MemoryEle) (x : Nat) :
    ownsByte (b :: bs) x = (inRange b.offset b.length x || ownsByte bs x) := rfl

@[simp] theorem ownsByte_append (bs cs : List MemoryEle) (x : Nat) :
    ownsByte (bs ++ cs) x = (ownsByte bs x || ownsByte cs x) := List.any_append

/-! ## Well-formed lists -/

section WellFormed

variable {L : Nat}

theorem freeListOrdered_cons_iff {lo : Nat} {b : MemoryEle} {bs : List MemoryEle} :
    freeListOrdered L lo (b :: bs) = true ↔
      lo ≤ b.offset.toNat ∧ 0 < b.length.toNat ∧ b.offset.toNat + b.length.toNat ≤ L ∧
        freeListOrdered L (b.offset.toNat + b.length.toNat + 1) bs = true := by
  simp [freeListOrdered, and_assoc]

theorem freeListOrdered_mono {lo lo' : Nat} {bs : List MemoryEle} (h : lo' ≤ lo)
    (hf : freeListOrdered L lo bs = true) : freeListOrdered L lo' bs = true := by
  cases bs with
  | nil => rfl
  | cons b bs =>
    rw [freeListOrdered_cons_iff] at hf ⊢
    exact ⟨by omega, hf.2⟩

/-- A well-formed list owns bytes from its lower bound up to the region's length only. -/
theorem freeListOrdered_owns : ∀ {lo : Nat} {bs : List MemoryEle} {x : Nat},
    freeListOrdered L lo bs = true → ownsByte bs x = true → lo ≤ x ∧ x < L
  | _, b :: bs, x, hf, hx => by
    rw [freeListOrdered_cons_iff] at hf
    rw [ownsByte_cons, Bool.or_eq_true, inRange_eq_true] at hx
    rcases hx with hx | hx
    · omega
    · have := freeListOrdered_owns hf.2.2.2 hx
      omega

/-- A well-formed list splits after any prefix: the prefix owns only bytes below the bound
the rest starts from. -/
theorem freeListOrdered_split : ∀ {lo : Nat} {pre tail : List MemoryEle},
    freeListOrdered L lo (pre ++ tail) = true →
      ∃ lo', lo ≤ lo' ∧ freeListOrdered L lo' tail = true ∧ ∀ x, ownsByte pre x = true → x < lo'
  | lo, [], _, h => ⟨lo, le_rfl, h, fun _ hx => by cases hx⟩
  | lo, b :: pre, tail, h => by
    rw [List.cons_append, freeListOrdered_cons_iff] at h
    obtain ⟨lo', hle, ht, hpre⟩ := freeListOrdered_split h.2.2.2
    refine ⟨lo', by omega, ht, fun x hx => ?_⟩
    rw [ownsByte_cons, Bool.or_eq_true, inRange_eq_true] at hx
    rcases hx with hx | hx
    · omega
    · exact hpre x hx

/-- Every node of a well-formed list is nonempty and lies between the bound and the region's
length. -/
theorem freeListOrdered_mem {lo : Nat} {bs : List MemoryEle} {c : MemoryEle}
    (hf : freeListOrdered L lo bs = true) (hc : c ∈ bs) :
    lo ≤ c.offset.toNat ∧ 0 < c.length.toNat ∧ c.offset.toNat + c.length.toNat ≤ L := by
  obtain ⟨pre, post, rfl⟩ := List.append_of_mem hc
  obtain ⟨lo', hle, ht, -⟩ := freeListOrdered_split hf
  rw [freeListOrdered_cons_iff] at ht
  exact ⟨by omega, ht.2.1, ht.2.2.1⟩

/-- Rewriting a tail of a well-formed list in a way that keeps every tail well formed keeps
the whole list well formed. -/
theorem freeListOrdered_replace {tail tail' : List MemoryEle}
    (hrep : ∀ lo, freeListOrdered L lo tail = true → freeListOrdered L lo tail' = true) :
    ∀ {lo : Nat} {pre : List MemoryEle}, freeListOrdered L lo (pre ++ tail) = true →
      freeListOrdered L lo (pre ++ tail') = true
  | lo, [], h => hrep lo h
  | lo, b :: pre, h => by
    rw [List.cons_append, freeListOrdered_cons_iff] at h ⊢
    exact ⟨h.1, h.2.1, h.2.2.1, freeListOrdered_replace hrep h.2.2.2⟩

/-- Ranges are apart, so bytes owned without a gap from a byte of `c` on stay in `c`. -/
theorem freeListOrdered_contig : ∀ {lo : Nat} {bs : List MemoryEle} {c : MemoryEle} {y z : Nat},
    freeListOrdered L lo bs = true → c ∈ bs → inRange c.offset c.length y = true →
      (∀ x, y ≤ x → x < z → ownsByte bs x = true) → z ≤ c.offset.toNat + c.length.toNat
  | _, b :: bs, c, y, z, hf, hc, hy, hall => by
    rw [freeListOrdered_cons_iff] at hf
    rw [inRange_eq_true] at hy
    rcases List.mem_cons.mp hc with rfl | hc
    · by_contra hz
      have hx := hall (c.offset.toNat + c.length.toNat) (by omega) (by omega)
      rw [ownsByte_cons, Bool.or_eq_true, inRange_eq_true] at hx
      rcases hx with hx | hx
      · omega
      · have := (freeListOrdered_owns hf.2.2.2 hx).1
        omega
    · have hyb := (freeListOrdered_owns hf.2.2.2
        (List.any_eq_true.mpr ⟨c, hc, inRange_eq_true.mpr hy⟩)).1
      refine freeListOrdered_contig hf.2.2.2 hc (inRange_eq_true.mpr hy) fun x hyx hxz => ?_
      have hx := hall x hyx hxz
      rw [ownsByte_cons, Bool.or_eq_true, inRange_eq_true] at hx
      exact hx.resolve_left (by omega)

/-- The byte just below a node of a well-formed list is not owned. -/
theorem freeListOrdered_below_free : ∀ {lo : Nat} {bs : List MemoryEle} {c : MemoryEle} {x : Nat},
    freeListOrdered L lo bs = true → c ∈ bs → x + 1 = c.offset.toNat → ownsByte bs x = false
  | _, b :: bs, c, x, hf, hc, hx => by
    rw [freeListOrdered_cons_iff] at hf
    rw [ownsByte_cons, Bool.or_eq_false_iff, inRange_eq_false]
    rcases List.mem_cons.mp hc with rfl | hc
    · exact ⟨by omega, Bool.eq_false_iff.mpr fun h => by
        have := (freeListOrdered_owns hf.2.2.2 h).1; omega⟩
    · have := (freeListOrdered_mem hf.2.2.2 hc).1
      exact ⟨by omega, freeListOrdered_below_free hf.2.2.2 hc hx⟩

/-- A well-formed list starts at its lowest owned byte. -/
theorem freeListOrdered_head_le {lo : Nat} {b : MemoryEle} {bs : List MemoryEle} {x : Nat}
    (hf : freeListOrdered L lo (b :: bs) = true) (hx : ownsByte (b :: bs) x = true) :
    b.offset.toNat ≤ x := by
  rw [freeListOrdered_cons_iff] at hf
  have hf' : freeListOrdered L b.offset.toNat (b :: bs) = true :=
    freeListOrdered_cons_iff.mpr ⟨le_rfl, hf.2⟩
  exact (freeListOrdered_owns hf' hx).1

/-- Well-formed lists are canonical: two that own the same bytes are the same list, since
their ranges are the maximal runs of owned bytes. -/
theorem freeListOrdered_ext : ∀ {lo lo' : Nat} {bs cs : List MemoryEle},
    freeListOrdered L lo bs = true → freeListOrdered L lo' cs = true →
      (∀ x, ownsByte bs x = ownsByte cs x) → bs = cs
  | _, _, [], [], _, _, _ => rfl
  | _, _, [], c :: cs, _, hc, h => by
    have := (freeListOrdered_cons_iff.mp hc).2.1
    have hx := h c.offset.toNat
    rw [ownsByte_nil, ownsByte_cons, inRange_eq_true.mpr ⟨le_rfl, by omega⟩] at hx
    cases hx
  | _, _, b :: bs, [], hb, _, h => by
    have := (freeListOrdered_cons_iff.mp hb).2.1
    have hx := h b.offset.toNat
    rw [ownsByte_nil, ownsByte_cons, inRange_eq_true.mpr ⟨le_rfl, by omega⟩] at hx
    cases hx
  | _, _, b :: bs, c :: cs, hb, hc, h => by
    have hb' := freeListOrdered_cons_iff.mp hb
    have hc' := freeListOrdered_cons_iff.mp hc
    have hbb : inRange b.offset b.length b.offset.toNat = true := inRange_eq_true.mpr ⟨le_rfl, by omega⟩
    have hcc : inRange c.offset c.length c.offset.toNat = true := inRange_eq_true.mpr ⟨le_rfl, by omega⟩
    -- the first ranges start at the lowest owned byte and end at the first byte not owned
    have hoff : b.offset.toNat = c.offset.toNat := by
      have h1 := freeListOrdered_head_le hb (by rw [h, ownsByte_cons, hcc]; rfl)
      have h2 := freeListOrdered_head_le hc (by rw [← h, ownsByte_cons, hbb]; rfl)
      omega
    have hend : b.offset.toNat + b.length.toNat = c.offset.toNat + c.length.toNat := by
      have h1 := freeListOrdered_contig hc (.head _) hcc fun x h1 h2 => by
        rw [← h, ownsByte_cons, inRange_eq_true.mpr ⟨by omega, h2⟩]; rfl
      have h2 := freeListOrdered_contig hb (.head _) hbb fun x h1 h2 => by
        rw [h, ownsByte_cons, inRange_eq_true.mpr ⟨by omega, h2⟩]; rfl
      omega
    have hbc : b = c := by
      obtain ⟨bo, bl⟩ := b
      obtain ⟨co, cl⟩ := c
      simp only at hoff hend
      have hlen : bl.toNat = cl.toNat := by omega
      rw [u64_eq_iff.mpr hoff, u64_eq_iff.mpr hlen]
    subst hbc
    refine congrArg _ (freeListOrdered_ext hb'.2.2.2 hc'.2.2.2 fun x => ?_)
    cases hx : inRange b.offset b.length x
    · simpa [hx] using h x
    · rw [inRange_eq_true] at hx
      have hbx : ownsByte bs x = false := Bool.eq_false_iff.mpr fun h' => by
        have := (freeListOrdered_owns hb'.2.2.2 h').1; omega
      have hcx : ownsByte cs x = false := Bool.eq_false_iff.mpr fun h' => by
        have := (freeListOrdered_owns hc'.2.2.2 h').1; omega
      rw [hbx, hcx]

end WellFormed

/-! ## Carving a range out (`remove_split_buffer`) -/

section Carve

variable {L : Nat}

/-- Replacing a node by pieces that lie inside it, in order and apart, and own exactly its
bytes outside the range, removes exactly the range from the list's bytes. -/
theorem carve_of_pieces (mid : List MemoryEle) {lo : Nat} {pre post : List MemoryEle} {b : MemoryEle}
    {o l : Genoffset} (hf : freeListOrdered L lo (pre ++ b :: post) = true)
    (hin : b.offset.toNat ≤ o.toNat ∧ o.toNat + l.toNat ≤ b.offset.toNat + b.length.toNat)
    (hwf : ∀ lo', lo' ≤ b.offset.toNat →
      freeListOrdered L (b.offset.toNat + b.length.toNat + 1) post = true →
      freeListOrdered L lo' (mid ++ post) = true)
    (hown : ∀ x, ownsByte mid x = (inRange b.offset b.length x && !inRange o l x)) :
    freeListOrdered L lo (pre ++ (mid ++ post)) = true ∧
      ∀ x, ownsByte (pre ++ (mid ++ post)) x = (ownsByte (pre ++ b :: post) x && !inRange o l x) := by
  refine ⟨freeListOrdered_replace (fun lo' h => ?_) hf, fun x => ?_⟩
  · rw [freeListOrdered_cons_iff] at h
    exact hwf lo' h.1 h.2.2.2
  obtain ⟨lo', hle, ht, hpre⟩ := freeListOrdered_split hf
  rw [freeListOrdered_cons_iff] at ht
  cases hx : inRange o l x
  · simp [hown, hx]
  · have hx' := inRange_eq_true.mp hx
    have hpx : ownsByte pre x = false := Bool.eq_false_iff.mpr fun h => by
      have := hpre x h; omega
    have hqx : ownsByte post x = false := Bool.eq_false_iff.mpr fun h => by
      have := (freeListOrdered_owns ht.2.2.2 h).1; omega
    simp [hown, hx, hpx, hqx]

/-- The two pieces the middle cut of `remove_split_buffer` leaves, below and above the
range, lie in the node, in order and apart, and own exactly its bytes outside the range. -/
theorem carve_middle {post : List MemoryEle} {b : MemoryEle} {o l : Genoffset}
    (h1 : b.offset.toNat < o.toNat) (hl : 0 < l.toNat)
    (h3 : o.toNat + l.toNat < b.offset.toNat + b.length.toNat)
    (hbL : b.offset.toNat + b.length.toNat ≤ L) (hL : L < 2 ^ 64) :
    (∀ lo', lo' ≤ b.offset.toNat →
      freeListOrdered L (b.offset.toNat + b.length.toNat + 1) post = true →
      freeListOrdered L lo' ([⟨b.offset, o - b.offset⟩,
        ⟨b.offset + (o - b.offset) + l, b.length - (o - b.offset) - l⟩] ++ post) = true) ∧
    ∀ x, ownsByte [⟨b.offset, o - b.offset⟩,
        ⟨b.offset + (o - b.offset) + l, b.length - (o - b.offset) - l⟩] x =
      (inRange b.offset b.length x && !inRange o l x) := by
  -- the pieces' words over the naturals, without subtraction
  have hd : (o - b.offset).toNat + b.offset.toNat = o.toNat := by
    rw [u64_toNat_sub_of_le (by omega)]; omega
  have ha : (b.offset + (o - b.offset)).toNat = o.toNat := by
    rw [u64_toNat_add_of_lt (by omega)]; omega
  have ha' : (b.offset + (o - b.offset) + l).toNat = o.toNat + l.toNat := by
    rw [u64_toNat_add_of_lt (by omega), ha]
  have hs1 : (b.length - (o - b.offset)).toNat + (o - b.offset).toNat = b.length.toNat := by
    rw [u64_toNat_sub_of_le (by omega)]; omega
  have hs2 : (b.length - (o - b.offset) - l).toNat + l.toNat =
      (b.length - (o - b.offset)).toNat := by
    rw [u64_toNat_sub_of_le (by omega)]; omega
  refine ⟨fun lo' hlo hp => ?_, fun x => ?_⟩
  · simp only [List.cons_append, List.nil_append, freeListOrdered_cons_iff, ha']
    exact ⟨hlo, by omega, by omega, by omega, by omega, by omega,
      freeListOrdered_mono (by omega) hp⟩
  · rw [Bool.eq_iff_iff]
    simp only [ownsByte_cons, ownsByte_nil, Bool.or_false, Bool.and_eq_true,
      Bool.not_eq_true', Bool.or_eq_true, inRange_eq_true, inRange_eq_false, ha']
    omega

/-- `remove_split_buffer` on a node of a well-formed list that contains the range: the list
stays well formed and loses exactly the range's bytes. -/
theorem removeSplitBuffer_spec {lo : Nat} {pre post : List MemoryEle} {b : MemoryEle}
    {o l : Genoffset} (hL : L < 2 ^ 64) (hf : freeListOrdered L lo (pre ++ b :: post) = true)
    (hl : 0 < l.toNat)
    (hin : b.offset.toNat ≤ o.toNat ∧ o.toNat + l.toNat ≤ b.offset.toNat + b.length.toNat) :
    freeListOrdered L lo (removeSplitBuffer pre b post o l) = true ∧
      ∀ x, ownsByte (removeSplitBuffer pre b post o l) x =
        (ownsByte (pre ++ b :: post) x && !inRange o l x) := by
  obtain ⟨lo', -, ht, -⟩ := freeListOrdered_split hf
  rw [freeListOrdered_cons_iff] at ht
  have hbL := ht.2.2.1
  -- the word `b.length - l` over the naturals, without subtraction
  have hsub : (b.length - l).toNat + l.toNat = b.length.toNat := by
    rw [u64_toNat_sub_of_le (by omega)]; omega
  unfold removeSplitBuffer
  split_ifs with h1 h2 h3
  · -- the range is the whole node
    rw [u64_eq_iff, UInt64.toNat_zero] at h2
    rw [u64_eq_iff] at h1
    refine carve_of_pieces [] hf hin (fun lo' hlo hp => freeListOrdered_mono (by omega) hp)
      fun x => ?_
    rw [Bool.eq_iff_iff]
    simp only [ownsByte_nil, Bool.false_eq_true, false_iff, Bool.and_eq_true,
      Bool.not_eq_true', inRange_eq_true, inRange_eq_false]
    omega
  · -- cut off the beginning
    rw [u64_eq_iff, UInt64.toNat_zero] at h2
    rw [u64_eq_iff] at h1
    have hadd : (b.offset + l).toNat = b.offset.toNat + l.toNat := u64_toNat_add_of_lt (by omega)
    refine carve_of_pieces [⟨b.offset + l, b.length - l⟩] hf hin
      (fun lo' hlo hp => ?_) fun x => ?_
    · simp only [List.singleton_append, freeListOrdered_cons_iff, hadd]
      exact ⟨by omega, by omega, by omega, freeListOrdered_mono (by omega) hp⟩
    · rw [Bool.eq_iff_iff]
      simp only [ownsByte_cons, ownsByte_nil, Bool.or_false, Bool.and_eq_true,
        Bool.not_eq_true', inRange_eq_true, inRange_eq_false, hadd]
      omega
  · -- cut off the end
    rw [u64_eq_iff] at h1 h3
    rw [u64_toNat_add_of_lt (by omega), u64_toNat_add_of_lt (by omega)] at h3
    refine carve_of_pieces [⟨b.offset, b.length - l⟩] hf hin
      (fun lo' hlo hp => ?_) fun x => ?_
    · simp only [List.singleton_append, freeListOrdered_cons_iff]
      exact ⟨hlo, by omega, by omega, freeListOrdered_mono (by omega) hp⟩
    · rw [Bool.eq_iff_iff]
      simp only [ownsByte_cons, ownsByte_nil, Bool.or_false, Bool.and_eq_true,
        Bool.not_eq_true', inRange_eq_true, inRange_eq_false]
      omega
  · -- split the node in two
    rw [u64_eq_iff] at h1 h3
    rw [u64_toNat_add_of_lt (by omega), u64_toNat_add_of_lt (by omega)] at h3
    obtain ⟨hwf, hown⟩ := @carve_middle L post b o l (by omega) hl (by omega) hbL hL
    exact carve_of_pieces _ hf hin hwf hown

end Carve

/-! ## `debug_enqueue` hands out exactly the owned ranges -/

/-- `buffer_in_bounds` is containment when neither range wraps past `2^64`. -/
theorem bufferInBounds_iff {o l off len : Genoffset} (ho : o.toNat + l.toNat < 2 ^ 64)
    (hb : off.toNat + len.toNat < 2 ^ 64) :
    bufferInBounds o l off len = true ↔
      off.toNat ≤ o.toNat ∧ o.toNat + l.toNat ≤ off.toNat + len.toNat := by
  simp only [bufferInBounds, Bool.and_eq_true, decide_eq_true_eq, ge_iff_le, u64_le_iff,
    u64_toNat_add_of_lt ho, u64_toNat_add_of_lt hb]
  omega

/-- The scan of `debug_enqueue` returns a node of the list, and that node passes
`buffer_in_bounds`. -/
theorem enqueueFind_some {o l : Genoffset} : ∀ {acc bs pre post : List MemoryEle} {b : MemoryEle},
    enqueueFind o l acc bs = some (pre, b, post) →
      acc ++ bs = pre ++ b :: post ∧ bufferInBounds o l b.offset b.length = true
  | _, c :: bs, _, _, _, h => by
    simp only [enqueueFind] at h
    split at h
    · cases h; exact ⟨rfl, ‹_›⟩
    · obtain ⟨heq, hb⟩ := enqueueFind_some h
      exact ⟨by rw [← heq, List.append_assoc, List.singleton_append], hb⟩

/-- The scan fails only when no node passes `buffer_in_bounds`. -/
theorem enqueueFind_none {o l : Genoffset} : ∀ {acc bs : List MemoryEle},
    enqueueFind o l acc bs = none → ∀ b ∈ bs, bufferInBounds o l b.offset b.length = false
  | _, [], _, _, hb => absurd hb (List.not_mem_nil _)
  | _, c :: bs, h, b, hb => by
    simp only [enqueueFind] at h
    split at h
    · cases h
    · rcases List.mem_cons.mp hb with rfl | hb
      · exact Bool.eq_false_iff.mpr ‹_›
      · exact enqueueFind_none h b hb

/-- In a well-formed list, a range every byte of which is owned lies in one node. -/
theorem exists_node_of_owned {L : Nat} {bs : List MemoryEle} {o l : Genoffset}
    (hf : freeListOrdered L 0 bs = true) (hl : 0 < l.toNat)
    (hown : ∀ x, inRange o l x = true → ownsByte bs x = true) :
    ∃ c ∈ bs, c.offset.toNat ≤ o.toNat ∧ o.toNat + l.toNat ≤ c.offset.toNat + c.length.toNat := by
  obtain ⟨c, hc, hoc⟩ := List.any_eq_true.mp (hown o.toNat (inRange_eq_true.mpr ⟨le_rfl, by omega⟩))
  refine ⟨c, hc, (inRange_eq_true.mp hoc).1, freeListOrdered_contig hf hc hoc fun x h1 h2 => ?_⟩
  exact hown x (inRange_eq_true.mpr ⟨h1, h2⟩)

section Enqueue

variable {σ : Type} (inner : Backend σ) (que : DebugQ σ) {buf : CleanqBuf} {ml : MemoryList}

/-- Nodes of a well-formed list end below `2^64`. -/
theorem WellFormed.node_lt {ml : MemoryList} (hwf : ml.WellFormed = true) {c : MemoryEle}
    (hc : c ∈ ml.buffers) : c.offset.toNat + c.length.toNat < 2 ^ 64 := by
  have := (freeListOrdered_mem hwf hc).2.2
  have := u64_toNat_lt ml.length
  omega

/-- `debug_enqueue` of a nonempty range that does not wrap and whose bytes the well-formed
list all owns: the range goes to the wrapped queue, and when that accepts it the list loses
exactly the range's bytes and stays well formed. -/
theorem debugEnqueue_carve (hr : findRegion buf.rid que.regions = some ml)
    (hwf : ml.WellFormed = true) (hl : buf.length ≠ 0)
    (hwrap : buf.offset.toNat + buf.length.toNat < 2 ^ 64)
    (hown : ∀ x, inRange buf.offset buf.length x = true → ownsByte ml.buffers x = true) :
    ∃ buffers, ({ ml with buffers := buffers } : MemoryList).WellFormed = true ∧
      (∀ x, ownsByte buffers x = (ownsByte ml.buffers x && !inRange buf.offset buf.length x)) ∧
      debugEnqueue inner que buf = (inner.enq que.inner buf).map fun (err, st) =>
        if err = .ok then
          (.ok, ⟨setRegion buf.rid { ml with buffers := buffers } que.regions, st⟩)
        else (err, { que with inner := st }) := by
  have hl0 : 0 < buf.length.toNat := by
    rw [Ne, u64_eq_iff, UInt64.toNat_zero] at hl; omega
  obtain ⟨c, hc, hco⟩ := exists_node_of_owned hwf hl0 hown
  cases hfind : enqueueFind buf.offset buf.length [] ml.buffers with
  | none =>
    have := enqueueFind_none hfind c hc
    rw [(bufferInBounds_iff hwrap (WellFormed.node_lt hwf hc)).mpr hco] at this
    cases this
  | some res =>
    obtain ⟨pre, b, post⟩ := res
    obtain ⟨heq, hb⟩ := enqueueFind_some hfind
    rw [List.nil_append] at heq
    have hwf' : freeListOrdered ml.length.toNat 0 (pre ++ b :: post) = true := heq ▸ hwf
    obtain ⟨hwf2, hown2⟩ := removeSplitBuffer_spec (u64_toNat_lt ml.length) hwf' hl0
      ((bufferInBounds_iff hwrap
        (WellFormed.node_lt hwf (heq ▸ List.mem_append_right _ (.head _)))).mp hb)
    exact ⟨removeSplitBuffer pre b post buf.offset buf.length, hwf2,
      fun x => by rw [hown2, ← heq], debugEnqueue_of_find hl hr hfind⟩

/-- `debug_enqueue` of a nonempty range that does not wrap, with a byte the well-formed list
does not own: the call fails with `BUFFER_ALREADY_IN_USE` (the list is empty) or
`INVALID_BUFFER_ARGS` without reaching the wrapped queue, and changes nothing. -/
theorem debugEnqueue_refuse (hr : findRegion buf.rid que.regions = some ml)
    (hwf : ml.WellFormed = true) (hl : buf.length ≠ 0)
    (hwrap : buf.offset.toNat + buf.length.toNat < 2 ^ 64) {x : Nat}
    (hx : inRange buf.offset buf.length x = true) (hnx : ownsByte ml.buffers x = false) :
    ∃ err, (err = .bufferAlreadyInUse ∨ err = .invalidBufferArgs) ∧
      debugEnqueue inner que buf = some (err, que) := by
  have hne : ¬∃ c ∈ ml.buffers, c.offset.toNat ≤ buf.offset.toNat ∧
      buf.offset.toNat + buf.length.toNat ≤ c.offset.toNat + c.length.toNat := by
    rintro ⟨c, hc, hco⟩
    rw [inRange_eq_true] at hx
    exact List.any_eq_false.mp hnx c hc (inRange_eq_true.mpr ⟨by omega, by omega⟩)
  by_cases hb : ml.buffers = []
  · exact ⟨_, .inl rfl, by simp only [debugEnqueue, hl, hr, hb, if_false, if_true]⟩
  cases hfind : enqueueFind buf.offset buf.length [] ml.buffers with
  | none => exact ⟨_, .inr rfl, by simp only [debugEnqueue, hl, hr, hb, hfind, if_false]⟩
  | some res =>
    obtain ⟨pre, b, post⟩ := res
    obtain ⟨heq, hbb⟩ := enqueueFind_some hfind
    rw [List.nil_append] at heq
    have hbm : b ∈ ml.buffers := heq ▸ List.mem_append_right _ (.head _)
    exact absurd ⟨b, hbm, (bufferInBounds_iff hwrap (WellFormed.node_lt hwf hbm)).mp hbb⟩ hne

/-- `debug_enqueue` on a region whose list is well formed, of a nonempty range that does not
wrap past `2^64`. If the list owns every byte of the range, the range goes to the wrapped
queue, and when that accepts it the list loses exactly the range's bytes and stays well
formed. If some byte is not owned, the call fails with `BUFFER_ALREADY_IN_USE` or
`INVALID_BUFFER_ARGS` without reaching the wrapped queue, and changes nothing. -/
theorem debug_enqueue_carves_owned_range (hr : findRegion buf.rid que.regions = some ml)
    (hwf : ml.WellFormed = true) (hl : buf.length ≠ 0)
    (hwrap : buf.offset.toNat + buf.length.toNat < 2 ^ 64) :
    ((∀ x, inRange buf.offset buf.length x = true → ownsByte ml.buffers x = true) →
      ∃ buffers, ({ ml with buffers := buffers } : MemoryList).WellFormed = true ∧
        (∀ x, ownsByte buffers x = (ownsByte ml.buffers x && !inRange buf.offset buf.length x)) ∧
        debugEnqueue inner que buf = (inner.enq que.inner buf).map fun (err, st) =>
          if err = .ok then
            (.ok, ⟨setRegion buf.rid { ml with buffers := buffers } que.regions, st⟩)
          else (err, { que with inner := st })) ∧
    ((∃ x, inRange buf.offset buf.length x = true ∧ ownsByte ml.buffers x = false) →
      ∃ err, (err = .bufferAlreadyInUse ∨ err = .invalidBufferArgs) ∧
        debugEnqueue inner que buf = some (err, que)) :=
  ⟨debugEnqueue_carve inner que hr hwf hl hwrap,
    fun ⟨_, hx, hnx⟩ => debugEnqueue_refuse inner que hr hwf hl hwrap hx hnx⟩

/-- The first block of a freshly registered region of `4096` bytes over the loopback queue. -/
theorem debug_enqueue_carves_first_block :
    findRegion (⟨0, 1024, 0, 1024, 0, 1⟩ : CleanqBuf).rid [wholeRegion 1 4096 false] =
        some (wholeRegion 1 4096 false) ∧
      (wholeRegion 1 4096 false).WellFormed = true ∧ (1024 : Genoffset) ≠ 0 ∧
      (0 : Genoffset).toNat + (1024 : Genoffset).toNat < 2 ^ 64 ∧
      ((∀ x, inRange 0 1024 x = true → ownsByte (wholeRegion 1 4096 false).buffers x = true) →
        ∃ buffers, ({ wholeRegion 1 4096 false with buffers := buffers } : MemoryList).WellFormed = true ∧
          (∀ x, ownsByte buffers x =
            (ownsByte (wholeRegion 1 4096 false).buffers x && !inRange 0 1024 x)) ∧
          debugEnqueue loopbackBackend ⟨[wholeRegion 1 4096 false], loopbackQueueCreate⟩
              ⟨0, 1024, 0, 1024, 0, 1⟩ =
            (loopbackBackend.enq loopbackQueueCreate ⟨0, 1024, 0, 1024, 0, 1⟩).map fun (err, st) =>
              if err = .ok then
                (.ok, ⟨setRegion 1 { wholeRegion 1 4096 false with buffers := buffers }
                  [wholeRegion 1 4096 false], st⟩)
              else (err, ⟨[wholeRegion 1 4096 false], st⟩)) ∧
      ((∃ x, inRange 0 1024 x = true ∧ ownsByte (wholeRegion 1 4096 false).buffers x = false) →
        ∃ err, (err = .bufferAlreadyInUse ∨ err = .invalidBufferArgs) ∧
          debugEnqueue loopbackBackend ⟨[wholeRegion 1 4096 false], loopbackQueueCreate⟩
            ⟨0, 1024, 0, 1024, 0, 1⟩ = some (err, ⟨[wholeRegion 1 4096 false], loopbackQueueCreate⟩)) :=
  ⟨rfl, rfl, by decide, by decide,
    @debug_enqueue_carves_owned_range _ loopbackBackend ⟨[wholeRegion 1 4096 false], loopbackQueueCreate⟩
      ⟨0, 1024, 0, 1024, 0, 1⟩ _ rfl rfl (by decide) (by decide)⟩

end Enqueue

/-! ## Merging a range back (`insert_merge_buffer`) -/

section Merge

variable {L : Nat}

theorem ownsByte_eq_false_of_mem {bs : List MemoryEle} {c : MemoryEle} {x : Nat}
    (h : ownsByte bs x = false) (hc : c ∈ bs) : inRange c.offset c.length x = false :=
  Bool.eq_false_iff.mpr (List.any_eq_false.mp h c hc)

/-- Rewriting a tail so that it keeps every lower bound and owns the range on top of the
tail's bytes adds exactly the range to the list's bytes. -/
theorem merge_of_tail (tail' : List MemoryEle) {lo : Nat} {pre tail : List MemoryEle}
    {o l : Genoffset} (hf : freeListOrdered L lo (pre ++ tail) = true)
    (hrep : ∀ lo, freeListOrdered L lo tail = true → freeListOrdered L lo tail' = true)
    (hown : ∀ x, ownsByte tail' x = (ownsByte tail x || inRange o l x)) :
    freeListOrdered L lo (pre ++ tail') = true ∧
      ∀ x, ownsByte (pre ++ tail') x = (ownsByte (pre ++ tail) x || inRange o l x) :=
  ⟨freeListOrdered_replace hrep hf, fun x => by simp [hown, Bool.or_assoc]⟩

/-- A node grown by the range, in place of the old one. -/
theorem ownsByte_cons_grow {c c' : MemoryEle} {bs : List MemoryEle} {o l : Genoffset}
    (h : ∀ x, inRange c'.offset c'.length x = (inRange c.offset c.length x || inRange o l x))
    (x : Nat) : ownsByte (c' :: bs) x = (ownsByte (c :: bs) x || inRange o l x) := by
  rw [ownsByte_cons, ownsByte_cons, h, Bool.or_right_comm]

/-- One node covering two old ones and the range. -/
theorem ownsByte_cons_join {c d c' : MemoryEle} {bs : List MemoryEle} {o l : Genoffset}
    (h : ∀ x, inRange c'.offset c'.length x =
      (inRange c.offset c.length x || inRange d.offset d.length x || inRange o l x))
    (x : Nat) : ownsByte (c' :: bs) x = (ownsByte (c :: d :: bs) x || inRange o l x) := by
  simp only [ownsByte_cons, h, Bool.or_assoc, Bool.or_comm, Bool.or_left_comm]

/-- The range as a node of its own. -/
theorem ownsByte_cons_range (bs : List MemoryEle) (o l : Genoffset) (x : Nat) :
    ownsByte (⟨o, l⟩ :: bs) x = (ownsByte bs x || inRange o l x) :=
  Bool.or_comm _ _

/-- `insert_merge_buffer` of a range below `b`, the first node: the range grows `b` down or
becomes the first node. -/
theorem insertMergeBuffer_first {post : List MemoryEle} {b : MemoryEle} {o l : Genoffset}
    (hL : L < 2 ^ 64) (hf : freeListOrdered L 0 (b :: post) = true) (hl : 0 < l.toNat)
    (hol : o.toNat + l.toNat ≤ L) (hend : o.toNat + l.toNat ≤ b.offset.toNat) :
    ∃ bs, insertMergeBuffer [] b post o l = some bs ∧ freeListOrdered L 0 bs = true ∧
      ∀ x, ownsByte bs x = (ownsByte (b :: post) x || inRange o l x) := by
  rw [freeListOrdered_cons_iff] at hf
  obtain ⟨-, hbl, hbL, hpost⟩ := hf
  have hnot : ¬(o ≥ b.offset + b.length) := by
    rw [ge_iff_le, u64_le_iff, u64_toNat_add_of_lt (by omega)]; omega
  have hol' : (o + l).toNat = o.toNat + l.toNat := u64_toNat_add_of_lt (by omega)
  by_cases h1 : b.offset = o + l
  · have h1n : b.offset.toNat = o.toNat + l.toNat := by rwa [u64_eq_iff, hol'] at h1
    have hbl' : (b.length + l).toNat = b.length.toNat + l.toNat := u64_toNat_add_of_lt (by omega)
    refine ⟨⟨o, b.length + l⟩ :: post, by simp only [insertMergeBuffer, if_neg hnot, if_pos h1],
      ?_, ownsByte_cons_grow fun x => ?_⟩
    · simp only [freeListOrdered_cons_iff, hbl']
      exact ⟨Nat.zero_le _, by omega, by omega, freeListOrdered_mono (by omega) hpost⟩
    · rw [Bool.eq_iff_iff]
      simp only [Bool.or_eq_true, inRange_eq_true, hbl']
      omega
  · have h1n : b.offset.toNat ≠ o.toNat + l.toNat := by rwa [u64_eq_iff, hol'] at h1
    refine ⟨⟨o, l⟩ :: b :: post, by simp only [insertMergeBuffer, if_neg hnot, if_neg h1],
      ?_, ownsByte_cons_range _ o l⟩
    simp only [freeListOrdered_cons_iff]
    exact ⟨Nat.zero_le _, hl, hol, by omega, hbl, hbL, hpost⟩

/-- `insert_merge_buffer` of a range between `prev` and `b`: it joins `prev` and `b`, grows
one of them, or becomes a node between them. The rewrite stays inside `prev :: b :: post`. -/
theorem insertMergeBuffer_between {rest post : List MemoryEle} {prev b : MemoryEle}
    {o l : Genoffset} (hL : L < 2 ^ 64)
    (hf : freeListOrdered L 0 (rest.reverse ++ prev :: b :: post) = true) (hl : 0 < l.toNat)
    (hol : o.toNat + l.toNat ≤ L) (hpo : prev.offset.toNat + prev.length.toNat ≤ o.toNat)
    (hend : o.toNat + l.toNat ≤ b.offset.toNat) :
    ∃ bs, insertMergeBuffer (prev :: rest) b post o l = some bs ∧ freeListOrdered L 0 bs = true ∧
      ∀ x, ownsByte bs x = (ownsByte (rest.reverse ++ prev :: b :: post) x || inRange o l x) := by
  obtain ⟨lo', -, ht, -⟩ := freeListOrdered_split hf
  simp only [freeListOrdered_cons_iff] at ht
  obtain ⟨-, hpl, -, -, hbl, hbL, -⟩ := ht
  have hnot : ¬(o ≥ b.offset + b.length) := by
    rw [ge_iff_le, u64_le_iff, u64_toNat_add_of_lt (by omega)]; omega
  have hol' : (o + l).toNat = o.toNat + l.toNat := u64_toNat_add_of_lt (by omega)
  have hpe : (prev.offset + prev.length).toNat = prev.offset.toNat + prev.length.toNat :=
    u64_toNat_add_of_lt (by omega)
  have hbl' : (b.length + l).toNat = b.length.toNat + l.toNat := u64_toNat_add_of_lt (by omega)
  obtain ⟨T, hT, hrep, hown⟩ : ∃ T, insertMergeBuffer (prev :: rest) b post o l =
      some (rest.reverse ++ T) ∧
      (∀ lo, freeListOrdered L lo (prev :: b :: post) = true → freeListOrdered L lo T = true) ∧
      ∀ x, ownsByte T x = (ownsByte (prev :: b :: post) x || inRange o l x) := by
    by_cases h1 : b.offset = o + l <;> by_cases h2 : prev.offset + prev.length = o
    · -- `prev`, the range and `b` become one node
      have h1n : b.offset.toNat = o.toNat + l.toNat := by rwa [u64_eq_iff, hol'] at h1
      have h2n : prev.offset.toNat + prev.length.toNat = o.toNat := by rwa [u64_eq_iff, hpe] at h2
      have hm : (prev.length + (b.length + l)).toNat =
          prev.length.toNat + b.length.toNat + l.toNat := by
        rw [u64_toNat_add_of_lt (by omega), hbl', Nat.add_assoc]
      refine ⟨⟨prev.offset, prev.length + (b.length + l)⟩ :: post, ?_, fun lo h => ?_,
        ownsByte_cons_join fun x => ?_⟩
      · simp only [insertMergeBuffer, if_neg hnot, if_pos h1, if_pos h2]
      · simp only [freeListOrdered_cons_iff, hm] at h ⊢
        obtain ⟨h1, -, -, -, -, -, h7⟩ := h
        exact ⟨h1, by omega, by omega, freeListOrdered_mono (by omega) h7⟩
      · rw [Bool.eq_iff_iff]
        simp only [Bool.or_eq_true, inRange_eq_true, hm]
        omega
    · -- the range grows `b` down
      have h1n : b.offset.toNat = o.toNat + l.toNat := by rwa [u64_eq_iff, hol'] at h1
      have h2n : prev.offset.toNat + prev.length.toNat ≠ o.toNat := by rwa [u64_eq_iff, hpe] at h2
      refine ⟨prev :: ⟨o, b.length + l⟩ :: post, ?_, fun lo h => ?_, fun x => ?_⟩
      · simp only [insertMergeBuffer, if_neg hnot, if_pos h1, if_neg h2, List.reverse_cons,
          List.append_assoc, List.singleton_append]
      · simp only [freeListOrdered_cons_iff, hbl'] at h ⊢
        obtain ⟨h1, h2, h3, -, -, -, h7⟩ := h
        exact ⟨h1, h2, h3, by omega, by omega, by omega, freeListOrdered_mono (by omega) h7⟩
      · rw [ownsByte_cons prev, ownsByte_cons prev, Bool.or_assoc, ownsByte_cons_grow fun x => ?_]
        rw [Bool.eq_iff_iff]
        simp only [Bool.or_eq_true, inRange_eq_true, hbl']
        omega
    · -- the range grows `prev` up
      have h1n : b.offset.toNat ≠ o.toNat + l.toNat := by rwa [u64_eq_iff, hol'] at h1
      have h2n : prev.offset.toNat + prev.length.toNat = o.toNat := by rwa [u64_eq_iff, hpe] at h2
      have hm : (prev.length + (if l = 0 then (2048 : UInt64) else 0) + l).toNat =
          prev.length.toNat + l.toNat := by
        rw [if_neg fun h => by rw [h, UInt64.toNat_zero] at hl; omega, u64_toNat_add,
          u64_toNat_add, UInt64.toNat_zero, add_zero, Nat.mod_eq_of_lt (u64_toNat_lt _),
          Nat.mod_eq_of_lt (by omega)]
      refine ⟨⟨prev.offset, prev.length + (if l = 0 then 2048 else 0) + l⟩ :: b :: post, ?_,
        fun lo h => ?_, ownsByte_cons_grow fun x => ?_⟩
      · simp only [insertMergeBuffer, if_neg hnot, if_neg h1, if_pos h2]
      · simp only [freeListOrdered_cons_iff, hm] at h ⊢
        obtain ⟨h1, -, -, -, h5, h6, h7⟩ := h
        exact ⟨h1, by omega, by omega, by omega, h5, h6, h7⟩
      · rw [Bool.eq_iff_iff]
        simp only [Bool.or_eq_true, inRange_eq_true, hm]
        omega
    · -- the range becomes a node between `prev` and `b`
      have h1n : b.offset.toNat ≠ o.toNat + l.toNat := by rwa [u64_eq_iff, hol'] at h1
      have h2n : prev.offset.toNat + prev.length.toNat ≠ o.toNat := by rwa [u64_eq_iff, hpe] at h2
      refine ⟨prev :: ⟨o, l⟩ :: b :: post, ?_, fun lo h => ?_, fun x => ?_⟩
      · simp only [insertMergeBuffer, if_neg hnot, if_neg h1, if_neg h2, List.reverse_cons,
          List.append_assoc, List.singleton_append]
      · simp only [freeListOrdered_cons_iff] at h ⊢
        obtain ⟨h1, h2, h3, -, h5, h6, h7⟩ := h
        exact ⟨h1, h2, h3, by omega, hl, hol, by omega, h5, h6, h7⟩
      · rw [ownsByte_cons prev, ownsByte_cons prev, Bool.or_assoc, ownsByte_cons_range]
  exact ⟨_, hT, merge_of_tail T hf hrep hown⟩

/-- `insert_merge_buffer` of a range at or above the end of `b`, the last node: it grows `b`
up or becomes the last node, provided the test `buffer->offset + length == offset` holds
only where the range starts at the end of `b`. -/
theorem insertMergeBuffer_last {rpre : List MemoryEle} {b : MemoryEle} {o l : Genoffset}
    (hL : L < 2 ^ 64) (hf : freeListOrdered L 0 (rpre.reverse ++ [b]) = true) (hl : 0 < l.toNat)
    (hol : o.toNat + l.toNat ≤ L) (hge : b.offset.toNat + b.length.toNat ≤ o.toNat)
    (htypo : b.offset.toNat + l.toNat = o.toNat → b.offset.toNat + b.length.toNat = o.toNat) :
    ∃ bs, insertMergeBuffer rpre b [] o l = some bs ∧ freeListOrdered L 0 bs = true ∧
      ∀ x, ownsByte bs x = (ownsByte (rpre.reverse ++ [b]) x || inRange o l x) := by
  have hbo : (b.offset + b.length).toNat = b.offset.toNat + b.length.toNat :=
    u64_toNat_add_of_lt (by omega)
  have hafter : o ≥ b.offset + b.length := by rw [ge_iff_le, u64_le_iff, hbo]; exact hge
  have hbl' : (b.length + l).toNat = b.length.toNat + l.toNat := u64_toNat_add_of_lt (by omega)
  -- `b` grown by the range, when the range starts at its end
  have hgrow : b.offset.toNat + b.length.toNat = o.toNat →
      freeListOrdered L 0 (rpre.reverse ++ [⟨b.offset, b.length + l⟩]) = true ∧
      ∀ x, ownsByte (rpre.reverse ++ [⟨b.offset, b.length + l⟩]) x =
        (ownsByte (rpre.reverse ++ [b]) x || inRange o l x) := fun heq =>
    merge_of_tail _ hf (fun lo h => by
        simp only [freeListOrdered_cons_iff, hbl'] at h ⊢
        exact ⟨h.1, by omega, by omega, rfl⟩)
      (ownsByte_cons_grow fun x => by
        rw [Bool.eq_iff_iff]
        simp only [Bool.or_eq_true, inRange_eq_true, hbl']
        omega)
  by_cases h1 : b.offset + l = o
  · have h1n : b.offset.toNat + l.toNat = o.toNat := by
      rwa [u64_eq_iff, u64_toNat_add_of_lt (by omega)] at h1
    exact ⟨_, by simp only [insertMergeBuffer, if_pos hafter, if_pos h1], hgrow (htypo h1n)⟩
  · by_cases h2 : b.offset + b.length = o
    · exact ⟨_, by simp only [insertMergeBuffer, if_pos hafter, if_neg h1, if_pos h2],
        hgrow (by rwa [u64_eq_iff, hbo] at h2)⟩
    · have h2n : b.offset.toNat + b.length.toNat ≠ o.toNat := by rwa [u64_eq_iff, hbo] at h2
      refine ⟨_, by simp only [insertMergeBuffer, if_pos hafter, if_neg h1, if_neg h2],
        merge_of_tail [b, ⟨o, l⟩] hf (fun lo h => ?_) fun x => by simp⟩
      simp only [freeListOrdered_cons_iff] at h ⊢
      exact ⟨h.1, h.2.1, h.2.2.1, by omega, hl, hol, rfl⟩

/-- `insert_merge_buffer` at the node `b` where the scan of `debug_dequeue` stops (the
first node the range starts before, or the last node), on a well-formed list that owns no
byte of the range: the list stays well formed and gains exactly the range's bytes, provided
the lower-boundary test `buffer->offset + length == offset` of the insert-after path holds
only where the range starts at the end of `b`. -/
theorem insertMergeBuffer_spec {rpre post : List MemoryEle} {b : MemoryEle} {o l : Genoffset}
    (hL : L < 2 ^ 64) (hf : freeListOrdered L 0 (rpre.reverse ++ b :: post) = true)
    (hl : 0 < l.toNat) (hol : o.toNat + l.toNat ≤ L)
    (hfree : ∀ x, inRange o l x = true → ownsByte (rpre.reverse ++ b :: post) x = false)
    (hpre : ∀ c ∈ rpre, c.offset.toNat ≤ o.toNat)
    (hstop : o.toNat < b.offset.toNat ∨ (post = [] ∧ b.offset.toNat ≤ o.toNat))
    (htypo : post = [] → b.offset.toNat ≤ o.toNat → b.offset.toNat + l.toNat = o.toNat →
      b.offset.toNat + b.length.toNat = o.toNat) :
    ∃ bs, insertMergeBuffer rpre b post o l = some bs ∧ freeListOrdered L 0 bs = true ∧
      ∀ x, ownsByte bs x = (ownsByte (rpre.reverse ++ b :: post) x || inRange o l x) := by
  -- the range's first byte and, before `b`, its last byte are free
  have hfree' : ∀ c ∈ rpre.reverse ++ b :: post, ∀ x, o.toNat ≤ x → x < o.toNat + l.toNat →
      ¬(c.offset.toNat ≤ x ∧ x < c.offset.toNat + c.length.toNat) := fun c hc x h1 h2 =>
    inRange_eq_false.mp (ownsByte_eq_false_of_mem (hfree x (inRange_eq_true.mpr ⟨h1, h2⟩)) hc)
  have hb : b ∈ rpre.reverse ++ b :: post := List.mem_append_right _ (.head _)
  rcases hstop with hlt | ⟨rfl, hge⟩
  · have hend : o.toNat + l.toNat ≤ b.offset.toNat := by
      by_contra h
      have := (freeListOrdered_mem hf hb).2.1
      exact hfree' b hb b.offset.toNat (by omega) (by omega) ⟨le_rfl, by omega⟩
    rcases rpre with _ | ⟨prev, rest⟩
    · exact insertMergeBuffer_first hL hf hl hol hend
    · have hp : prev ∈ (prev :: rest).reverse ++ b :: post :=
        List.mem_append_left _ (List.mem_reverse.mpr (.head _))
      have hpo : prev.offset.toNat + prev.length.toNat ≤ o.toNat := by
        by_contra h
        exact hfree' prev hp o.toNat le_rfl (by omega) ⟨hpre prev (.head _), by omega⟩
      rw [List.reverse_cons, List.append_assoc, List.singleton_append] at hf ⊢
      exact insertMergeBuffer_between hL hf hl hol hpo hend
  · have hge' : b.offset.toNat + b.length.toNat ≤ o.toNat := by
      by_contra h
      exact hfree' b hb o.toNat le_rfl (by omega) ⟨hge, by omega⟩
    exact insertMergeBuffer_last hL hf hl hol hge' (htypo rfl hge)

/-- Where the scan of `debug_dequeue` stops, when no node it meets contains the range: at
the first node the range's offset is below, or at the last node, with every node passed at
or below the offset. -/
theorem dequeueScan_stop {o l : Genoffset} : ∀ {rpre : List MemoryEle} {b : MemoryEle}
    {post : List MemoryEle}, (∀ c ∈ rpre, c.offset.toNat ≤ o.toNat) →
    (∀ c ∈ b :: post, bufferInBounds o l c.offset c.length = false) →
    ∃ rpre' b' post', rpre'.reverse ++ b' :: post' = rpre.reverse ++ b :: post ∧
      (∀ c ∈ rpre', c.offset.toNat ≤ o.toNat) ∧
      (o.toNat < b'.offset.toNat ∨ (post' = [] ∧ b'.offset.toNat ≤ o.toNat)) ∧
      dequeueScan o l rpre b post = (insertMergeBuffer rpre' b' post' o l).map .ok
  | rpre, b, [], hpre, hdis => by
    refine ⟨rpre, b, [], rfl, hpre, (lt_or_le _ _).imp_right fun h => ⟨rfl, h⟩, ?_⟩
    simp only [dequeueScan, hdis b (.head _), Bool.false_eq_true, if_false]
  | rpre, b, next :: post, hpre, hdis => by
    by_cases hge : o ≥ b.offset
    · obtain ⟨rpre', b', post', heq, hpre', hstop, hscan⟩ :=
        @dequeueScan_stop o l (b :: rpre) next post (fun c hc => by
          rcases List.mem_cons.mp hc with rfl | hc
          · exact hge
          · exact hpre c hc) fun c hc => hdis c (.tail _ hc)
      refine ⟨rpre', b', post', by simp [heq], hpre', hstop, ?_⟩
      simp only [dequeueScan, if_pos hge, hscan]
    · refine ⟨rpre, b, next :: post, rfl, hpre, .inl (by simpa using hge), ?_⟩
      simp only [dequeueScan, if_neg hge, hdis b (.head _), Bool.false_eq_true, if_false]

/-- The tracking part of `debug_dequeue` for a range of a tracked region whose list is well
formed, where the range is nonempty, ends inside the region and shares no byte with the
list: the list gains exactly the range's bytes and stays well formed, provided the
lower-boundary test of the insert-after path holds only where the range starts at the end
of the last node. -/
theorem dequeueTrack_merge {regions : List MemoryList} {buf : CleanqBuf} {ml : MemoryList}
    (hr : findRegion buf.rid regions = some ml)
    (hwf : ml.WellFormed = true) (hl : buf.length ≠ 0)
    (hle : buf.offset.toNat + buf.length.toNat ≤ ml.length.toNat)
    (hfree : ∀ x, inRange buf.offset buf.length x = true → ownsByte ml.buffers x = false)
    (htypo : ∀ c, ml.buffers.getLast? = some c → c.offset.toNat ≤ buf.offset.toNat →
      c.offset.toNat + buf.length.toNat = buf.offset.toNat →
      c.offset.toNat + c.length.toNat = buf.offset.toNat) :
    ∃ buffers, ({ ml with buffers := buffers } : MemoryList).WellFormed = true ∧
      (∀ x, ownsByte buffers x = (ownsByte ml.buffers x || inRange buf.offset buf.length x)) ∧
      dequeueTrack regions buf = some (.ok, setRegion buf.rid { ml with buffers := buffers } regions) := by
  have hl0 : 0 < buf.length.toNat := by
    rw [Ne, u64_eq_iff, UInt64.toNat_zero] at hl; omega
  have hL := u64_toNat_lt ml.length
  -- the region's length stays: the range ends inside it
  have hkeep : (ml.notConsistent && decide (buf.offset + buf.length > ml.length)) = false := by
    simp only [gt_iff_lt, u64_lt_iff, u64_toNat_add_of_lt
      (show buf.offset.toNat + buf.length.toNat < 2 ^ 64 by omega)]
    simp only [Bool.and_eq_false_iff, decide_eq_false_iff_not]
    exact .inr (by omega)
  cases hbs : ml.buffers with
  | nil =>
    refine ⟨[⟨buf.offset, buf.length⟩], ?_, fun x => by simp, ?_⟩
    · simp only [MemoryList.WellFormed, freeListOrdered_cons_iff]
      exact ⟨Nat.zero_le _, hl0, hle, rfl⟩
    · simp only [dequeueTrack, hr, hkeep, Bool.false_eq_true, if_false, hbs]
  | cons b post =>
    rw [MemoryList.WellFormed, hbs] at hwf
    rw [hbs] at hfree htypo
    -- no node contains the range: its first byte is free
    have hdis : ∀ c ∈ b :: post, bufferInBounds buf.offset buf.length c.offset c.length = false :=
      fun c hc => Bool.eq_false_iff.mpr fun hin => by
        have := freeListOrdered_mem hwf hc
        rw [bufferInBounds_iff (by omega) (by omega)] at hin
        exact inRange_eq_false.mp (ownsByte_eq_false_of_mem
          (hfree _ (inRange_eq_true.mpr ⟨le_rfl, by omega⟩)) hc) ⟨hin.1, by omega⟩
    obtain ⟨rpre', b', post', heq, hpre, hstop, hscan⟩ :=
      @dequeueScan_stop buf.offset buf.length [] b post (fun c hc => absurd hc (List.not_mem_nil c)) hdis
    rw [List.reverse_nil, List.nil_append] at heq
    rw [← heq] at hwf hfree
    obtain ⟨bs, hins, hwf', hown⟩ := insertMergeBuffer_spec hL hwf hl0 hle hfree hpre hstop
      fun hp hb hbo => htypo b' (by rw [← heq, hp, List.getLast?_append]; rfl) hb hbo
    refine ⟨bs, hwf', fun x => by rw [hown, ← heq], ?_⟩
    simp only [dequeueTrack, hr, hkeep, Bool.false_eq_true, if_false, hbs, hscan, hins,
      Option.map_some']

/-- `debug_dequeue` of a range of a tracked region that the wrapped queue gives up, where
the region's list is well formed, the range is nonempty, ends inside the region and shares
no byte with the list: the list gains exactly the range's bytes and stays well formed,
provided the lower-boundary test of the insert-after path holds only where the range starts
at the end of the last node. -/
theorem debug_dequeue_merges_returned_range {σ : Type} (inner : Backend σ) (que : DebugQ σ)
    {buf : CleanqBuf} {st : σ} (hdeq : inner.deq que.inner = some (.ok buf, st))
    {ml : MemoryList} (hr : findRegion buf.rid que.regions = some ml)
    (hwf : ml.WellFormed = true) (hl : buf.length ≠ 0)
    (hle : buf.offset.toNat + buf.length.toNat ≤ ml.length.toNat)
    (hfree : ∀ x, inRange buf.offset buf.length x = true → ownsByte ml.buffers x = false)
    (htypo : ∀ c, ml.buffers.getLast? = some c → c.offset.toNat ≤ buf.offset.toNat →
      c.offset.toNat + buf.length.toNat = buf.offset.toNat →
      c.offset.toNat + c.length.toNat = buf.offset.toNat) :
    ∃ buffers, ({ ml with buffers := buffers } : MemoryList).WellFormed = true ∧
      (∀ x, ownsByte buffers x = (ownsByte ml.buffers x || inRange buf.offset buf.length x)) ∧
      debugDequeue inner que =
        some (.ok buf, ⟨setRegion buf.rid { ml with buffers := buffers } que.regions, st⟩) := by
  obtain ⟨bs, hwf', hown, htrack⟩ := dequeueTrack_merge hr hwf hl hle hfree htypo
  refine ⟨bs, hwf', hown, ?_⟩
  rw [debugDequeue_of_deq hdeq, htrack]
  rfl

/-- The block `(0, 1024)` comes back from the loopback queue to a list that owns the rest of
the region. -/
theorem debug_dequeue_merges_first_block :
    loopbackBackend.deq (staleLoopback ⟨0, 1024, 0, 1024, 0, 1⟩) =
        some (.ok ⟨0, 1024, 0, 1024, 0, 1⟩,
          (loopbackDequeue (staleLoopback ⟨0, 1024, 0, 1024, 0, 1⟩)).2) ∧
      findRegion 1 [⟨1, 4096, false, [⟨1024, 3072⟩]⟩] = some ⟨1, 4096, false, [⟨1024, 3072⟩]⟩ ∧
      (⟨1, 4096, false, [⟨1024, 3072⟩]⟩ : MemoryList).WellFormed = true ∧ (1024 : Genoffset) ≠ 0 ∧
      (0 : Genoffset).toNat + (1024 : Genoffset).toNat ≤ (4096 : Genoffset).toNat ∧
      (∀ x, inRange 0 1024 x = true → ownsByte [⟨1024, 3072⟩] x = false) ∧
      (∀ c, [(⟨1024, 3072⟩ : MemoryEle)].getLast? = some c →
        c.offset.toNat ≤ (0 : Genoffset).toNat →
        c.offset.toNat + (1024 : Genoffset).toNat = (0 : Genoffset).toNat →
        c.offset.toNat + c.length.toNat = (0 : Genoffset).toNat) ∧
      ∃ buffers, ({ (⟨1, 4096, false, [⟨1024, 3072⟩]⟩ : MemoryList) with buffers := buffers } :
          MemoryList).WellFormed = true ∧
        (∀ x, ownsByte buffers x = (ownsByte [⟨1024, 3072⟩] x || inRange 0 1024 x)) ∧
        debugDequeue loopbackBackend
            ⟨[⟨1, 4096, false, [⟨1024, 3072⟩]⟩], staleLoopback ⟨0, 1024, 0, 1024, 0, 1⟩⟩ =
          some (.ok ⟨0, 1024, 0, 1024, 0, 1⟩,
            ⟨setRegion 1 { (⟨1, 4096, false, [⟨1024, 3072⟩]⟩ : MemoryList) with buffers := buffers }
                [⟨1, 4096, false, [⟨1024, 3072⟩]⟩],
              (loopbackDequeue (staleLoopback ⟨0, 1024, 0, 1024, 0, 1⟩)).2⟩) := by
  have hfree : ∀ x, inRange 0 1024 x = true → ownsByte [⟨1024, 3072⟩] x = false := fun x hx => by
    rw [inRange_eq_true] at hx
    simp only [ownsByte_cons, ownsByte_nil, Bool.or_false, inRange_eq_false]
    exact fun h => absurd hx.2 (by simp at h ⊢; omega)
  have htypo : ∀ c, [(⟨1024, 3072⟩ : MemoryEle)].getLast? = some c →
      c.offset.toNat ≤ (0 : Genoffset).toNat →
      c.offset.toNat + (1024 : Genoffset).toNat = (0 : Genoffset).toNat →
      c.offset.toNat + c.length.toNat = (0 : Genoffset).toNat := fun c hc h1 => by
    cases hc
    exact absurd h1 (by decide)
  exact ⟨rfl, rfl, rfl, by decide, by decide, hfree, htypo,
    debug_dequeue_merges_returned_range loopbackBackend
      ⟨[⟨1, 4096, false, [⟨1024, 3072⟩]⟩], staleLoopback ⟨0, 1024, 0, 1024, 0, 1⟩⟩ rfl rfl rfl
      (by decide) (by decide) hfree htypo⟩

end Merge

/-! ## Enqueue then dequeue restores the list -/

theorem findRegion_setRegion {rid : RegionId} {ml : MemoryList} (hml : ml.rid = rid) :
    ∀ {regions : List MemoryList}, (findRegion rid regions).isSome →
      findRegion rid (setRegion rid ml regions) = some ml
  | [], h => by simp [findRegion] at h
  | r :: rs, h => by
    simp only [setRegion]
    split
    · rw [findRegion_cons, if_pos hml]
    · rename_i hr
      rw [findRegion_cons, if_neg hr] at h ⊢
      exact findRegion_setRegion hml h

theorem setRegion_setRegion {rid : RegionId} {ml ml' : MemoryList} (hml' : ml'.rid = rid) :
    ∀ regions : List MemoryList,
      setRegion rid ml (setRegion rid ml' regions) = setRegion rid ml regions
  | [] => rfl
  | r :: rs => by
    simp only [setRegion]
    split
    · simp only [setRegion, if_pos hml']
    · rename_i hr
      simp only [setRegion, if_neg hr, setRegion_setRegion hml' rs]

/-- Writing back the list `find_region` found changes nothing. -/
theorem setRegion_of_findRegion {rid : RegionId} {ml : MemoryList} :
    ∀ {regions : List MemoryList}, findRegion rid regions = some ml →
      setRegion rid ml regions = regions
  | [], h => by cases h
  | r :: rs, h => by
    rw [findRegion_cons] at h
    simp only [setRegion]
    split
    · rename_i hr
      rw [if_pos hr, Option.some.injEq] at h
      rw [h]
    · rename_i hr
      rw [if_neg hr] at h
      rw [setRegion_of_findRegion h]

/-- A carved list keeps the typo condition of the list it was carved from: a node of it that
starts below the range starts where a node of the old list starts, since the byte below it is
outside the range and not owned by the carved list. -/
theorem carve_typo_free {L : Nat} {bs bs1 : List MemoryEle} {o l : Genoffset}
    (hwf1 : freeListOrdered L 0 bs1 = true)
    (hown1 : ∀ x, ownsByte bs1 x = (ownsByte bs x && !inRange o l x))
    (htypo : ∀ c ∈ bs, c.offset.toNat + l.toNat ≠ o.toNat) :
    ∀ c ∈ bs1, c.offset.toNat + l.toNat ≠ o.toNat := by
  intro c hcm hco
  have hcl := (freeListOrdered_mem hwf1 hcm).2.1
  have hcown := hown1 c.offset.toNat
  have hc1 : ownsByte bs1 c.offset.toNat = true :=
    List.any_eq_true.mpr ⟨c, hcm, inRange_eq_true.mpr ⟨le_rfl, by omega⟩⟩
  rw [hc1] at hcown
  obtain ⟨c0, hc0, hin0⟩ := List.any_eq_true.mp (Bool.and_eq_true_iff.mp hcown.symm).1
  rw [inRange_eq_true] at hin0
  refine htypo c0 hc0 ?_
  suffices c0.offset.toNat = c.offset.toNat by omega
  by_contra hne
  -- otherwise `c0` owns the byte below `c`, which the range does not cover
  have hb := hown1 (c.offset.toNat - 1)
  have hb0 : ownsByte bs (c.offset.toNat - 1) = true :=
    List.any_eq_true.mpr ⟨c0, hc0, inRange_eq_true.mpr ⟨by omega, by omega⟩⟩
  have hbr : inRange o l (c.offset.toNat - 1) = false := inRange_eq_false.mpr (by omega)
  rw [freeListOrdered_below_free hwf1 hcm (by omega), hb0, hbr] at hb
  cases hb

/-- `debug_enqueue` of a nonempty range, not wrapping, that the well-formed list of its
region owns, then `debug_dequeue` once the wrapped queue gives the range back: the list is
restored exactly, unless a node starts `length` bytes below the range (where the test
`buffer->offset + length == offset` of the insert-after path can fire). -/
theorem debug_enqueue_dequeue_restores_list {σ : Type} (inner : Backend σ) (que : DebugQ σ)
    {buf : CleanqBuf} {ml : MemoryList} {st1 st2 : σ}
    (hr : findRegion buf.rid que.regions = some ml) (hwf : ml.WellFormed = true)
    (hl : buf.length ≠ 0) (hwrap : buf.offset.toNat + buf.length.toNat < 2 ^ 64)
    (hown : ∀ x, inRange buf.offset buf.length x = true → ownsByte ml.buffers x = true)
    (htypo : ∀ c ∈ ml.buffers, c.offset.toNat + buf.length.toNat ≠ buf.offset.toNat)
    (henq : inner.enq que.inner buf = some (.ok, st1))
    (hdeq : inner.deq st1 = some (.ok buf, st2)) :
    ∃ que1, debugEnqueue inner que buf = some (.ok, que1) ∧
      debugDequeue inner que1 = some (.ok buf, ⟨que.regions, st2⟩) := by
  have hl0 : 0 < buf.length.toNat := by
    rw [Ne, u64_eq_iff, UInt64.toNat_zero] at hl; omega
  obtain ⟨bs1, hwf1, hown1, hcarve⟩ := debugEnqueue_carve inner que hr hwf hl hwrap hown
  simp only [henq, Option.map_some', if_true] at hcarve
  refine ⟨_, hcarve, ?_⟩
  have hml := findRegion_rid hr
  -- the range's last byte is owned, so the range ends inside the region
  have hle : buf.offset.toNat + buf.length.toNat ≤ ml.length.toNat := by
    have := (freeListOrdered_owns hwf (hown (buf.offset.toNat + buf.length.toNat - 1)
      (inRange_eq_true.mpr ⟨by omega, by omega⟩))).2
    omega
  have hfree1 : ∀ x, inRange buf.offset buf.length x = true → ownsByte bs1 x = false :=
    fun x hx => by rw [hown1, hx, Bool.not_true, Bool.and_false]
  obtain ⟨bs2, hwf2, hown2, htrack⟩ := dequeueTrack_merge
    (@findRegion_setRegion buf.rid { ml with buffers := bs1 } hml que.regions (by rw [hr]; rfl))
    hwf1 hl hle hfree1 fun c hc _ hco =>
      absurd hco (carve_typo_free hwf1 hown1 htypo c (List.mem_of_mem_getLast? hc))
  have hbs : bs2 = ml.buffers := freeListOrdered_ext hwf2 hwf fun x => by
    rw [hown2, hown1]
    cases hx : inRange buf.offset buf.length x
    · simp
    · simp [hown x hx]
  rw [debugDequeue_of_deq hdeq, htrack, hbs,
    @setRegion_setRegion buf.rid _ { ml with buffers := bs1 } hml]
  exact congrArg some (Prod.ext rfl (congrArg (DebugQ.mk · st2) (setRegion_of_findRegion hr)))

/-- The first block of a fresh region, through the loopback queue and back. -/
theorem debug_enqueue_dequeue_restores_first_block :
    findRegion (⟨0, 1024, 0, 1024, 0, 1⟩ : CleanqBuf).rid [wholeRegion 1 4096 false] =
        some (wholeRegion 1 4096 false) ∧
      (wholeRegion 1 4096 false).WellFormed = true ∧ (1024 : Genoffset) ≠ 0 ∧
      (0 : Genoffset).toNat + (1024 : Genoffset).toNat < 2 ^ 64 ∧
      (∀ x, inRange 0 1024 x = true → ownsByte (wholeRegion 1 4096 false).buffers x = true) ∧
      (∀ c ∈ (wholeRegion 1 4096 false).buffers,
        c.offset.toNat + (1024 : Genoffset).toNat ≠ (0 : Genoffset).toNat) ∧
      loopbackBackend.enq loopbackQueueCreate ⟨0, 1024, 0, 1024, 0, 1⟩ =
        some (.ok, staleLoopback ⟨0, 1024, 0, 1024, 0, 1⟩) ∧
      loopbackBackend.deq (staleLoopback ⟨0, 1024, 0, 1024, 0, 1⟩) =
        some (.ok ⟨0, 1024, 0, 1024, 0, 1⟩,
          (loopbackDequeue (staleLoopback ⟨0, 1024, 0, 1024, 0, 1⟩)).2) ∧
      ∃ que1, debugEnqueue loopbackBackend ⟨[wholeRegion 1 4096 false], loopbackQueueCreate⟩
          ⟨0, 1024, 0, 1024, 0, 1⟩ = some (.ok, que1) ∧
        debugDequeue loopbackBackend que1 = some (.ok ⟨0, 1024, 0, 1024, 0, 1⟩,
          ⟨[wholeRegion 1 4096 false], (loopbackDequeue (staleLoopback ⟨0, 1024, 0, 1024, 0, 1⟩)).2⟩) := by
  have hown : ∀ x, inRange 0 1024 x = true →
      ownsByte (wholeRegion 1 4096 false).buffers x = true := fun x hx => by
    have h1024 : (1024 : Genoffset).toNat = 1024 := rfl
    have h4096 : (4096 : Genoffset).toNat = 4096 := rfl
    rw [inRange_eq_true] at hx
    simp only [wholeRegion, ownsByte_cons, ownsByte_nil, Bool.or_false, inRange_eq_true]
    omega
  have htypo : ∀ c ∈ (wholeRegion 1 4096 false).buffers,
      c.offset.toNat + (1024 : Genoffset).toNat ≠ (0 : Genoffset).toNat := by decide
  exact ⟨rfl, rfl, by decide, by decide, hown, htypo, rfl, rfl,
    debug_enqueue_dequeue_restores_list loopbackBackend ⟨[wholeRegion 1 4096 false], loopbackQueueCreate⟩
      rfl rfl (by decide) (by decide) hown htypo rfl rfl⟩

/-! ## `debug_deregister` refuses while a byte is in flight -/

/-- The search of `debug_deregister` on a tracked region with a nonempty list: it drops the
first list of the region when that list is the one range `(0, length)`, and answers
`REGION_DESTROY` otherwise. -/
theorem deregisterFind_of_findRegion {rid : RegionId} {ml : MemoryList} (hne : ml.buffers ≠ []) :
    ∀ {regions : List MemoryList}, findRegion rid regions = some ml →
      deregisterFind rid regions = some (if ml.buffers = [⟨0, ml.length⟩]
        then .ok (regions.erase ml) else .error .regionDestroy)
  | [], h => by cases h
  | r :: rs, h => by
    rw [findRegion_cons] at h
    by_cases hr : r.rid = rid
    · rw [if_pos hr, Option.some.injEq] at h
      subst h
      obtain ⟨rid', len, nc, _ | ⟨⟨o, l⟩, bs⟩⟩ := r
      · exact absurd rfl hne
      dsimp only at hr
      simp only [deregisterFind, hr, if_true, List.erase_cons_head, List.cons.injEq,
        MemoryEle.mk.injEq, List.isEmpty_iff, Bool.and_eq_true, decide_eq_true_eq, and_assoc,
        apply_ite some]
    · rw [if_neg hr] at h
      have hne' : ¬(r == ml) = true := by
        rw [beq_iff_eq]; rintro rfl; exact hr (findRegion_rid h)
      simp only [deregisterFind, hr, if_false, deregisterFind_of_findRegion hne h, Option.map_some',
        List.erase_cons_tail hne']
      split <;> rfl

/-- A nonempty well-formed list owns every byte of its region exactly when it is the one
range `(0, length)`. -/
theorem WellFormed.eq_whole_iff {ml : MemoryList} (hwf : ml.WellFormed = true)
    (hne : ml.buffers ≠ []) :
    ml.buffers = [⟨0, ml.length⟩] ↔ ∀ x, x < ml.length.toNat → ownsByte ml.buffers x = true := by
  obtain ⟨c, hc⟩ := List.exists_mem_of_ne_nil _ hne
  have hc' := freeListOrdered_mem hwf hc
  constructor
  · intro h x hx
    rw [h, ownsByte_cons, inRange_eq_true.mpr ⟨by simp, by simpa using hx⟩]
    rfl
  · intro h
    have hwhole : freeListOrdered ml.length.toNat 0 [⟨0, ml.length⟩] = true := by
      simp [freeListOrdered]; omega
    refine freeListOrdered_ext hwf hwhole fun x => ?_
    rw [Bool.eq_iff_iff, ownsByte_cons, ownsByte_nil, Bool.or_false, inRange_eq_true]
    simp only [UInt64.toNat_zero, Nat.zero_le, true_and, zero_add]
    exact ⟨fun hx => (freeListOrdered_owns hwf hx).2, h x⟩

/-- `debug_deregister` of a tracked region whose list is well formed and nonempty. If the
list owns every byte of the region (no buffer of it is in flight), the call goes to the
wrapped queue and, when that accepts it, the region's list is dropped. If some byte of the
region is not owned, the call answers `REGION_DESTROY` and changes nothing. -/
theorem debugDeregister_of_tracked {σ : Type} (inner : Backend σ) (que : DebugQ σ)
    {rid : RegionId} {ml : MemoryList} (hr : findRegion rid que.regions = some ml)
    (hwf : ml.WellFormed = true) (hne : ml.buffers ≠ []) :
    ((∀ x, x < ml.length.toNat → ownsByte ml.buffers x = true) →
      debugDeregister inner que rid = (inner.dereg que.inner rid).map fun (err, st) =>
        if err = .ok then (.ok, ⟨que.regions.erase ml, st⟩) else (err, { que with inner := st })) ∧
    ((∃ x, x < ml.length.toNat ∧ ownsByte ml.buffers x = false) →
      debugDeregister inner que rid = some (.regionDestroy, que)) := by
  refine ⟨fun h => ?_, fun ⟨x, hx, hnx⟩ => ?_⟩
  · rw [debugDeregister, deregisterFind_of_findRegion hne hr,
      if_pos ((WellFormed.eq_whole_iff hwf hne).mpr h), Option.some_bind]
  · have hnot : ml.buffers ≠ [⟨0, ml.length⟩] := fun h' => by
      rw [(WellFormed.eq_whole_iff hwf hne).mp h' x hx] at hnx; cases hnx
    rw [debugDeregister, deregisterFind_of_findRegion hne hr, if_neg hnot, Option.some_bind]

/-! ## `debug_register` then `debug_deregister` -/

/-- The search of `debug_deregister` finds a region appended behind regions with other ids,
and drops it when its list is still the whole region. -/
theorem deregisterFind_append_whole {rid : RegionId} {len : Genoffset} {nc : Bool} :
    ∀ {regions : List MemoryList}, findRegion rid regions = none →
      deregisterFind rid (regions ++ [wholeRegion rid len nc]) = some (.ok regions)
  | [], _ => by simp [deregisterFind, wholeRegion]
  | r :: rs, h => by
    rw [findRegion_cons] at h
    split at h
    · cases h
    · rw [List.cons_append, deregisterFind, if_neg ‹_›, deregisterFind_append_whole h]
      rfl

/-- On a debug queue that does not track `rid`, registering `rid` and deregistering it at
once, with the wrapped queue accepting both, gives back the tracked regions unchanged. -/
theorem debug_register_deregister_restores {σ : Type} (inner : Backend σ) (que : DebugQ σ)
    {cap : Capref} {rid : RegionId} {st1 st2 : σ} (hfresh : findRegion rid que.regions = none)
    (hreg : inner.reg que.inner cap rid = some (.ok, st1))
    (hdereg : inner.dereg st1 rid = some (.ok, st2)) :
    ∃ que1, debugRegister inner que cap rid = some (.ok, que1) ∧
      debugDeregister inner que1 rid = some (.ok, ⟨que.regions, st2⟩) := by
  refine ⟨⟨que.regions ++ [wholeRegion rid cap.len false], st1⟩, ?_, ?_⟩
  · simp only [debugRegister, hreg, Option.map_some', if_true]
  · simp only [debugDeregister, deregisterFind_append_whole hfresh, Option.some_bind, hdereg,
      Option.map_some', if_true]

/-- Region `2` registered and deregistered beside region `1`, over the loopback queue. -/
theorem debug_register_deregister_second_region :
    findRegion 2 [wholeRegion 1 4096 false] = none ∧
      loopbackBackend.reg loopbackQueueCreate ⟨0, 0x20000, 8192⟩ 2 = some (.ok, loopbackQueueCreate) ∧
      loopbackBackend.dereg loopbackQueueCreate 2 = some (.ok, loopbackQueueCreate) ∧
      ∃ que1, debugRegister loopbackBackend ⟨[wholeRegion 1 4096 false], loopbackQueueCreate⟩
          ⟨0, 0x20000, 8192⟩ 2 = some (.ok, que1) ∧
        debugDeregister loopbackBackend que1 2 =
          some (.ok, ⟨[wholeRegion 1 4096 false], loopbackQueueCreate⟩) :=
  ⟨rfl, rfl, rfl, debug_register_deregister_restores loopbackBackend
    ⟨[wholeRegion 1 4096 false], loopbackQueueCreate⟩ rfl rfl rfl⟩

end CleanQ
