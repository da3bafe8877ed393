import Mathlib.Data.Nat.Bitwise

/-!
# CleanQ: the types every layer shares

`errval_t`, `regionid_t`, `genoffset_t`, `struct capref` and `struct cleanq_buf` of
`cleanq.h`. Machine words stay machine words: `uint64_t` is `UInt64`, `regionid_t` is
`UInt32` and the pool's counters are `UInt16`, so every sum the code computes wraps as
it does in C. The lemmas at the end move comparisons and sums of words to `Nat`, where
`omega` decides them.

A C run that dereferences `NULL`, writes outside an array or loops for ever has no next
state: the models return `Option`, with `none` for such a run.
-/

namespace CleanQ

/-- `errval_t`. -/
inductive Errval
  | ok
  | initQueue
  | bufferId
  | bufferNotInRegion
  | bufferAlreadyInUse
  | invalidBufferArgs
  | invalidRegionId
  | regionDestroy
  | invalidRegionArgs
  | queueEmpty
  | queueFull
  | bufferNotInUse
  | mallocFail
  deriving DecidableEq, Repr

instance decEqExcept {ε α : Type} [DecidableEq ε] [DecidableEq α] : DecidableEq (Except ε α)
  | .error a, .error b => decidable_of_iff (a = b) (by simp)
  | .ok a, .ok b => decidable_of_iff (a = b) (by simp)
  | .error _, .ok _ => isFalse (by simp)
  | .ok _, .error _ => isFalse (by simp)

abbrev RegionId := UInt32
abbrev Genoffset := UInt64

/-- `struct capref`; the pointer `vaddr` is kept as its 64-bit value. -/
structure Capref where
  vaddr : UInt64
  paddr : UInt64
  len : UInt64
  deriving DecidableEq, Repr

/-- `struct cleanq_buf`, the descriptor a queue hands over. -/
structure CleanqBuf where
  offset : Genoffset
  length : Genoffset
  validData : Genoffset
  validLength : Genoffset
  flags : UInt64
  rid : RegionId
  deriving DecidableEq, Repr

/-- `CLEANQ_FLAG_LAST`, the end-of-chain bit of a descriptor's flags. -/
def cleanqFlagLast : UInt64 := (1 : UInt64) <<< 30

/-! ## Machine words as naturals -/

@[simp] theorem u64_le_iff {a b : UInt64} : a ≤ b ↔ a.toNat ≤ b.toNat := Iff.rfl

@[simp] theorem u64_lt_iff {a b : UInt64} : a < b ↔ a.toNat < b.toNat := Iff.rfl

@[simp] theorem u16_lt_iff {a b : UInt16} : a < b ↔ a.toNat < b.toNat := Iff.rfl

@[simp] theorem u32_le_iff {a b : UInt32} : a ≤ b ↔ a.toNat ≤ b.toNat := Iff.rfl

theorem u64_toNat_lt (a : UInt64) : a.toNat < 2 ^ 64 := a.toBitVec.isLt

theorem u32_toNat_lt (a : UInt32) : a.toNat < 2 ^ 32 := a.toBitVec.isLt

theorem u16_toNat_lt (a : UInt16) : a.toNat < 2 ^ 16 := a.toBitVec.isLt

theorem u64_eq_iff {a b : UInt64} : a = b ↔ a.toNat = b.toNat :=
  ⟨congrArg _, UInt64.toNat.inj⟩

theorem u32_eq_iff {a b : UInt32} : a = b ↔ a.toNat = b.toNat :=
  ⟨congrArg _, UInt32.toNat.inj⟩

theorem u16_eq_iff {a b : UInt16} : a = b ↔ a.toNat = b.toNat :=
  ⟨congrArg _, UInt16.toNat.inj⟩

@[simp] theorem u16_toNat_toUInt32 (a : UInt16) : a.toUInt32.toNat = a.toNat := rfl

@[simp] theorem u16_toNat_toUInt64 (a : UInt16) : a.toUInt64.toNat = a.toNat := rfl

@[simp] theorem u32_toNat_toUInt64 (a : UInt32) : a.toUInt64.toNat = a.toNat := rfl

@[simp] theorem u64_toNat_toUInt32 (a : UInt64) : a.toUInt32.toNat = a.toNat % 2 ^ 32 := rfl

@[simp] theorem u64_toNat_toUInt16 (a : UInt64) : a.toUInt16.toNat = a.toNat % 2 ^ 16 := rfl

theorem u64_toNat_add (a b : UInt64) : (a + b).toNat = (a.toNat + b.toNat) % 2 ^ 64 := rfl

theorem u64_toNat_sub (a b : UInt64) :
    (a - b).toNat = (2 ^ 64 - b.toNat + a.toNat) % 2 ^ 64 := rfl

theorem u64_toNat_land (a b : UInt64) : (a &&& b).toNat = a.toNat &&& b.toNat := by
  show (a.toBitVec &&& b.toBitVec).toNat = _
  rw [BitVec.toNat_and]; rfl

theorem u32_toNat_land (a b : UInt32) : (a &&& b).toNat = a.toNat &&& b.toNat := by
  show (a.toBitVec &&& b.toBitVec).toNat = _
  rw [BitVec.toNat_and]; rfl

theorem u32_toNat_add (a b : UInt32) : (a + b).toNat = (a.toNat + b.toNat) % 2 ^ 32 := rfl

@[simp] theorem nat_toNat_toUInt32 (n : Nat) : n.toUInt32.toNat = n % 2 ^ 32 := rfl

@[simp] theorem nat_toNat_toUInt16 (n : Nat) : n.toUInt16.toNat = n % 2 ^ 16 := rfl

theorem u32_toNat_sub (a b : UInt32) :
    (a - b).toNat = (2 ^ 32 - b.toNat + a.toNat) % 2 ^ 32 := rfl

theorem u16_toNat_add (a b : UInt16) : (a + b).toNat = (a.toNat + b.toNat) % 2 ^ 16 := rfl

theorem u16_toNat_sub (a b : UInt16) :
    (a - b).toNat = (2 ^ 16 - b.toNat + a.toNat) % 2 ^ 16 := rfl

theorem u16_toNat_mul (a b : UInt16) : (a * b).toNat = a.toNat * b.toNat % 2 ^ 16 := rfl

@[simp] theorem u32_toNat_toUInt16 (a : UInt32) : a.toUInt16.toNat = a.toNat % 2 ^ 16 := rfl

theorem u64_toNat_add_of_lt {a b : UInt64} (h : a.toNat + b.toNat < 2 ^ 64) :
    (a + b).toNat = a.toNat + b.toNat := by
  rw [u64_toNat_add, Nat.mod_eq_of_lt h]

theorem u64_toNat_sub_of_le {a b : UInt64} (h : b.toNat ≤ a.toNat) :
    (a - b).toNat = a.toNat - b.toNat := by
  have := u64_toNat_lt a
  rw [u64_toNat_sub, show 2 ^ 64 - b.toNat + a.toNat = a.toNat - b.toNat + 2 ^ 64 by omega,
    Nat.add_mod_right, Nat.mod_eq_of_lt (by omega)]

theorem u64_sum_le_iff {a b c : UInt64} (h : a.toNat + b.toNat < 2 ^ 64) :
    a + b ≤ c ↔ a.toNat + b.toNat ≤ c.toNat := by
  rw [u64_le_iff, u64_toNat_add, Nat.mod_eq_of_lt h]

/-- Masking with `2^k - 1` keeps the residue modulo `2^k`, for every width of word. -/
theorem land_pred_eq_mod {x n : Nat} (hn : ∃ k, n = 2 ^ k) : x &&& (n - 1) = x % n := by
  obtain ⟨k, rfl⟩ := hn
  exact Nat.and_pow_two_sub_one_eq_mod x k

end CleanQ
