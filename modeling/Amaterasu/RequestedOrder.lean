import Amaterasu.KHeap.Blocks
import Amaterasu.PhysicalMemory.Defs

/-! `requestedOrder` of the two allocators as the `char` of `AllocatePageFrames` and the `int` of
`kmalloc` hold it. No value is cut off, so that the allocators go on with `ceilLog2`. -/

namespace Amaterasu

/-- The two statements that compute `requestedOrder`, a signed variable of `w` bits. -/
def storedOrder (w n : Nat) : Option (BitVec w) := do
  let requestedOrder := BitVec.ofNat w (← log2 n)
  return if pow 2 (toUnsigned64 requestedOrder.toInt) < n then requestedOrder + 1
    else requestedOrder

/-- `char requestedOrder` of `AllocatePageFrames`. -/
def PageFrames.requestedOrder (requestedPageNumber : BitVec 32) : Option (BitVec 8) :=
  storedOrder 8 (toUnsigned64 requestedPageNumber.toInt)

/-- `int requestedOrder` of `kmalloc`. -/
def KHeap.requestedOrder (size : BitVec 32) : Option (BitVec 32) :=
  storedOrder 32 (KHeap.blockNumber size.toNat)

/-! ## The loops of `util.c` -/

/-- The loop of `pow` has ended after 64 rounds. -/
theorem powLoop_eq_pow {x n : Nat} (hn : n < 2 ^ 64) {fuel : Nat} (hf : 64 ≤ fuel) :
    powLoop fuel x n 1 = pow x n := by
  have hfuel : n < 2 ^ fuel := hn.trans_le (Nat.pow_le_pow_right (by decide) hf)
  rw [pow_eq x n hn, powLoop_eq fuel x n 1 hfuel (by decide), Nat.one_mul]

theorem log2_floor {x : Nat} (hx : 0 < x) (hb : x < 2 ^ 64) :
    ∃ k, log2 x = some k ∧ 2 ^ k ≤ x ∧ x < 2 ^ (k + 1) :=
  ⟨Nat.log 2 x, log2_eq hx hb, Nat.pow_log_le_self 2 hx.ne',
    Nat.lt_pow_succ_log_self (by decide) x⟩

/-! ## The stored order -/

/-- Eight bits with a sign hold every order up to 64. -/
theorem toInt_ofNat_order {w k : Nat} (hw : 8 ≤ w) (hk : k ≤ 64) :
    (BitVec.ofNat w k).toInt = k := by
  have hpow : 2 ^ 8 ≤ 2 ^ w := Nat.pow_le_pow_right (by decide) hw
  have hnat : (BitVec.ofNat w k).toNat = k := by
    rw [BitVec.toNat_ofNat, Nat.mod_eq_of_lt (by omega)]
  rw [BitVec.toInt_eq_toNat_of_lt (by omega), hnat]

/-- The variable goes through the values of `ceilLog2`. -/
theorem storedOrder_eq {w n : Nat} (hw : 8 ≤ w) (hn : n < 2 ^ 64) :
    storedOrder w n = (ceilLog2 n).map (BitVec.ofNat w) := by
  rcases Nat.eq_zero_or_pos n with rfl | hpos
  · unfold storedOrder ceilLog2 log2
    rw [log2Loop_zero]
    rfl
  · have hlog : Nat.log 2 n < 64 := Nat.log_lt_of_lt_pow (by omega) hn
    have hint := toInt_ofNat_order hw hlog.le
    have hback : toUnsigned64 (BitVec.ofNat w (Nat.log 2 n)).toInt = Nat.log 2 n := by
      rw [hint, toUnsigned64_of_nonneg (by omega) (by omega), Int.toNat_natCast]
    rw [storedOrder, ceilLog2, log2_eq hpos hn]
    simp only [Option.bind_eq_bind, Option.bind_some, Option.pure_def, Option.map_some, hback]
    split_ifs
    · rw [BitVec.ofNat_add]
      rfl
    · rfl

theorem storedOrder_isLeast {w n : Nat} (hw : 8 ≤ w) (hpos : 0 < n) (hn : n < 2 ^ 64) :
    ∃ v k, storedOrder w n = some v ∧ v.toInt = (k : Nat) ∧ IsLeast {j | n ≤ 2 ^ j} k := by
  have hle : Nat.clog 2 n ≤ 64 := (Nat.clog_le_iff_le_pow (by decide)).mpr hn.le
  refine ⟨BitVec.ofNat w (Nat.clog 2 n), Nat.clog 2 n, ?_, toInt_ofNat_order hw hle,
    clog_isLeast n⟩
  rw [storedOrder_eq hw hn, ceilLog2_eq hpos hn]
  rfl

/-- The order that the model of `AllocatePageFrames` goes on with is the one in the variable. -/
theorem PageFrames.requestedOrder_eq (n : BitVec 32) :
    requestedOrder n = (ceilLog2 (toUnsigned64 n.toInt)).map (BitVec.ofNat 8) :=
  storedOrder_eq le_rfl (toUnsigned64_lt _)

theorem KHeap.requestedOrder_eq (size : BitVec 32) :
    requestedOrder size = (ceilLog2 (blockNumber size.toNat)).map (BitVec.ofNat 32) :=
  storedOrder_eq (by decide) (blockNumber_lt size.isLt)

/-- `pow` and `log2` over their whole range, and the order of every request of either allocator. -/
theorem requestedOrder_isLeast :
    (∀ x n : BitVec 64, pow x.toNat n.toNat = x.toNat ^ n.toNat % 2 ^ 64 ∧
      ∀ fuel ≥ 64, powLoop fuel x.toNat n.toNat 1 = pow x.toNat n.toNat) ∧
    (∀ x : BitVec 64, x ≠ 0 → ∃ k, log2 x.toNat = some k ∧ 2 ^ k ≤ x.toNat ∧
      x.toNat < 2 ^ (k + 1)) ∧
    (∀ n : BitVec 32, 1 ≤ n.toInt → ∃ v k, PageFrames.requestedOrder n = some v ∧
      v.toInt = (k : Nat) ∧ IsLeast {j : Nat | n.toInt ≤ 2 ^ j} k) ∧
    ∀ size : BitVec 32, size ≠ 0 → ∃ v k, KHeap.requestedOrder size = some v ∧
      v.toInt = (k : Nat) ∧ IsLeast {j | KHeap.blockNumber size.toNat ≤ 2 ^ j} k ∧
      IsLeast {m | size.toNat ≤ kHeapBlockSize * m} (KHeap.blockNumber size.toNat) := by
  refine ⟨fun x n => ⟨pow_eq _ _ n.isLt, fun fuel hf => powLoop_eq_pow n.isLt hf⟩,
    fun x hx => log2_floor ?_ x.isLt, fun n hn => ?_, fun size hs => ?_⟩
  · exact Nat.pos_of_ne_zero fun h => hx (BitVec.eq_of_toNat_eq h)
  · have hlt := BitVec.toInt_lt (x := n)
    have hn' : toUnsigned64 n.toInt = n.toInt.toNat :=
      toUnsigned64_of_nonneg (by omega) (by omega)
    obtain ⟨v, k, hv, hint, hk⟩ := storedOrder_isLeast (w := 8) (n := n.toInt.toNat) le_rfl
      (by omega) (by omega)
    have hset : {j : Nat | n.toInt ≤ 2 ^ j} = {j | n.toInt.toNat ≤ 2 ^ j} := by
      ext j
      have hpow : ((2 ^ j : Nat) : Int) = 2 ^ j := by push_cast; rfl
      rw [Set.mem_ofPred_eq, Set.mem_ofPred_eq, ← hpow]
      omega
    refine ⟨v, k, ?_, hint, hset ▸ hk⟩
    rw [PageFrames.requestedOrder, hn', hv]
  · have hpos : 1 ≤ size.toNat :=
      Nat.pos_of_ne_zero fun h => hs (BitVec.eq_of_toNat_eq h)
    obtain ⟨v, k, hv, hint, hk⟩ := storedOrder_isLeast (w := 32) (by decide)
      (KHeap.blockNumber_pos hpos) (KHeap.blockNumber_lt size.isLt)
    exact ⟨v, k, hv, hint, hk, KHeap.blockNumber_isLeast _⟩

theorem requestedOrder_isLeast_three : ∃ v k, PageFrames.requestedOrder 3 = some v ∧
    v.toInt = (k : Nat) ∧ IsLeast {j : Nat | (3 : BitVec 32).toInt ≤ 2 ^ j} k :=
  requestedOrder_isLeast.2.2.1 3 (by decide)

end Amaterasu
