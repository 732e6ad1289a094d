import Mathlib.Data.Nat.Log
import Mathlib.Data.Nat.ModEq
import Mathlib.Order.Bounds.Basic
import Mathlib.Tactic.Ring

/-! The order arithmetic of `util.c` over `unsigned long long`, and the search for a list that
both buddy allocators start with. -/

namespace Amaterasu

/-- The conversion of a C `int` to `unsigned long long`. -/
def toUnsigned64 (n : Int) : Nat := (n % 2 ^ 64).toNat

def powLoop : Nat → Nat → Nat → Nat → Nat
  | 0, _, _, ret => ret
  | fuel + 1, x, n, ret =>
    if n = 0 then ret
    else powLoop fuel (x * x % 2 ^ 64) (n / 2) (if n % 2 = 1 then ret * x % 2 ^ 64 else ret)

/-- `pow`: square and multiply. A 64-bit exponent is exhausted after 64 halvings. -/
def pow (x n : Nat) : Nat := powLoop 64 x n 1

def log2Loop : Nat → Nat → Nat → Option Nat
  | 0, _, _ => none
  | fuel + 1, x, ret => if x = 1 then some ret else log2Loop fuel (x / 2) (ret + 1)

/-- `log2`: halve until 1 is left. `none` is the loop that never sees a 1, which for a
64-bit value is decided after 64 rounds. -/
def log2 (x : Nat) : Option Nat := log2Loop 64 x 0

theorem powLoop_eq (fuel x n ret : Nat) (hn : n < 2 ^ fuel) (hr : ret < 2 ^ 64) :
    powLoop fuel x n ret = ret * x ^ n % 2 ^ 64 := by
  induction fuel generalizing x n ret with
  | zero =>
    obtain rfl : n = 0 := by omega
    rw [powLoop, Nat.pow_zero, Nat.mul_one, Nat.mod_eq_of_lt hr]
  | succ fuel ih =>
    rw [powLoop]
    split_ifs with h0 h1
    · rw [h0, Nat.pow_zero, Nat.mul_one, Nat.mod_eq_of_lt hr]
    · have hn2 : n = 2 * (n / 2) + 1 := by omega
      rw [ih _ _ _ (by omega) (Nat.mod_lt _ (by omega))]
      calc ret * x % 2 ^ 64 * (x * x % 2 ^ 64) ^ (n / 2) % 2 ^ 64
          = ret * x * (x * x) ^ (n / 2) % 2 ^ 64 :=
            (Nat.mod_modEq _ _).mul ((Nat.mod_modEq _ _).pow _)
        _ = ret * x ^ n % 2 ^ 64 := by
          conv_rhs => rw [hn2, Nat.pow_succ, Nat.pow_mul, Nat.pow_two]
          ring_nf
    · have hn2 : n = 2 * (n / 2) := by omega
      rw [ih _ _ _ (by omega) hr]
      calc ret * (x * x % 2 ^ 64) ^ (n / 2) % 2 ^ 64
          = ret * (x * x) ^ (n / 2) % 2 ^ 64 :=
            (Nat.ModEq.refl _).mul ((Nat.mod_modEq _ _).pow _)
        _ = ret * x ^ n % 2 ^ 64 := by
          conv_rhs => rw [hn2, Nat.pow_mul, Nat.pow_two]

theorem pow_eq (x n : Nat) (hn : n < 2 ^ 64) : pow x n = x ^ n % 2 ^ 64 := by
  rw [pow, powLoop_eq 64 x n 1 hn (by decide), Nat.one_mul]

theorem pow_two_eq {k : Nat} (hk : k < 64) : pow 2 k = 2 ^ k := by
  rw [pow_eq 2 k (by omega), Nat.mod_eq_of_lt (Nat.pow_lt_pow_right (by omega) hk)]

theorem log2Loop_eq (fuel x ret : Nat) (hx : 0 < x) (hf : x < 2 ^ fuel) :
    log2Loop fuel x ret = some (ret + Nat.log 2 x) := by
  induction fuel generalizing x ret with
  | zero => omega
  | succ fuel ih =>
    rw [log2Loop]
    split_ifs with h1
    · rw [h1, Nat.log_one_right, Nat.add_zero]
    · have hlog : Nat.log 2 x = Nat.log 2 (x / 2) + 1 :=
        Nat.log_of_one_lt_of_le (by omega) (by omega)
      rw [ih (x / 2) (ret + 1) (by omega) (by omega), hlog, Nat.add_assoc, Nat.add_comm 1]

theorem log2_eq {x : Nat} (hx : 0 < x) (hb : x < 2 ^ 64) : log2 x = some (Nat.log 2 x) := by
  rw [log2, log2Loop_eq 64 x 0 hx hb, Nat.zero_add]

/-- Halving never turns 0 into 1, however long the loop runs. -/
theorem log2Loop_zero (fuel ret : Nat) : log2Loop fuel 0 ret = none := by
  induction fuel generalizing ret with
  | zero => rfl
  | succ fuel ih =>
    rw [log2Loop, if_neg Nat.zero_ne_one]
    exact ih (ret + 1)

theorem toUnsigned64_lt (n : Int) : toUnsigned64 n < 2 ^ 64 := by
  unfold toUnsigned64
  omega

theorem toUnsigned64_of_nonneg {n : Int} (h0 : 0 ≤ n) (hn : n < 2 ^ 64) :
    toUnsigned64 n = n.toNat := by
  rw [toUnsigned64, Int.emod_eq_of_lt h0 hn]

/-- The order both allocators compute: the floor logarithm, raised by one when its power
falls short. -/
def ceilLog2 (n : Nat) : Option Nat := do
  let k ← log2 n
  return if pow 2 k < n then k + 1 else k

theorem ceilLog2_eq {n : Nat} (hn : 0 < n) (hb : n < 2 ^ 64) :
    ceilLog2 n = some (Nat.clog 2 n) := by
  have hlog : Nat.log 2 n < 64 := Nat.log_lt_of_lt_pow (by omega) hb
  rw [ceilLog2, log2_eq hn hb]
  simp only [Option.bind_eq_bind, Option.bind_some, Option.pure_def, pow_two_eq hlog,
    Option.some.injEq]
  have hle : 2 ^ Nat.log 2 n ≤ n := Nat.pow_log_le_self 2 (by omega)
  have hlt : n < 2 ^ (Nat.log 2 n + 1) := Nat.lt_pow_succ_log_self (by omega) n
  split_ifs with h
  · exact le_antisymm ((Nat.lt_clog_iff_pow_lt (by omega)).mpr h)
      ((Nat.clog_le_iff_le_pow (by omega)).mpr hlt.le)
  · have heq : n = 2 ^ Nat.log 2 n := by omega
    conv_rhs => rw [heq]
    rw [Nat.clog_pow 2 _ (by omega)]

/-- The order is found exactly for a positive size. -/
theorem ceilLog2_isSome_iff {n : Nat} (hb : n < 2 ^ 64) : (ceilLog2 n).isSome ↔ n ≠ 0 := by
  constructor
  · rintro h rfl
    unfold ceilLog2 log2 at h
    rw [log2Loop_zero] at h
    cases h
  · intro h
    rw [ceilLog2_eq (Nat.pos_of_ne_zero h) hb]
    rfl

theorem clog_isLeast (n : Nat) : IsLeast {k | n ≤ 2 ^ k} (Nat.clog 2 n) :=
  ⟨Nat.le_pow_clog (by omega) n, fun _ hk => (Nat.clog_le_iff_le_pow (by omega)).mpr hk⟩

/-- The outer loop of both allocators up to the first order whose list is not empty, where
`left` counts the orders left. -/
def firstNonempty (lists : Nat → Option Nat) : Nat → Nat → Option Nat
  | 0, _ => none
  | left + 1, currentOrder =>
    if (lists currentOrder).isSome then some currentOrder
    else firstNonempty lists left (currentOrder + 1)

theorem firstNonempty_none {lists : Nat → Option Nat} {left k : Nat}
    (h : firstNonempty lists left k = none) : ∀ j, k ≤ j → j < k + left → lists j = none := by
  induction left generalizing k with
  | zero => omega
  | succ left ih =>
    rw [firstNonempty] at h
    split_ifs at h with hk
    intro j hkj hj
    rcases Nat.eq_or_lt_of_le hkj with rfl | hlt
    · simpa using hk
    · exact ih h j hlt (by omega)

theorem firstNonempty_some {lists : Nat → Option Nat} {left k d : Nat}
    (h : firstNonempty lists left k = some d) :
    k ≤ d ∧ d < k + left ∧ (∃ i, lists d = some i) ∧ ∀ j, k ≤ j → j < d → lists j = none := by
  induction left generalizing k with
  | zero => cases h
  | succ left ih =>
    rw [firstNonempty] at h
    split_ifs at h with hk
    · obtain rfl := Option.some.inj h
      exact ⟨le_rfl, by omega, Option.isSome_iff_exists.mp hk, fun j h1 h2 => by omega⟩
    · obtain ⟨h1, h2, h3, h4⟩ := ih h
      refine ⟨by omega, by omega, h3, fun j hkj hj => ?_⟩
      rcases Nat.eq_or_lt_of_le hkj with rfl | hlt
      · simpa using hk
      · exact h4 j hlt hj

end Amaterasu
