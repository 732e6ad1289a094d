import Mathlib.Logic.Function.Basic
import Mathlib.Tactic.IntervalCases

/-! Byte memory with little-endian 64-bit words, and the updates of an array of words. -/

abbrev ByteMemory := Nat → BitVec 8

namespace ByteMemory
open Function

def readWord (m : ByteMemory) (a : Nat) : BitVec 64 :=
  m (a + 7) ++ m (a + 6) ++ m (a + 5) ++ m (a + 4) ++ m (a + 3) ++ m (a + 2) ++ m (a + 1) ++ m a

def readShort (m : ByteMemory) (a : Nat) : BitVec 16 := m (a + 1) ++ m a

def readInt (m : ByteMemory) (a : Nat) : BitVec 32 := m (a + 3) ++ m (a + 2) ++ m (a + 1) ++ m a

def writeWord (m : ByteMemory) (a : Nat) (w : BitVec 64) : ByteMemory := fun x =>
  if a ≤ x ∧ x < a + 8 then w.extractLsb' (8 * (x - a)) 8 else m x

def writeInt (m : ByteMemory) (a : Nat) (v : BitVec 32) : ByteMemory := fun x =>
  if a ≤ x ∧ x < a + 4 then v.extractLsb' (8 * (x - a)) 8 else m x

def writeWords (m : ByteMemory) (a : Nat) : List (BitVec 64) → ByteMemory
  | [] => m
  | w :: ws => writeWords (m.writeWord a w) (a + 8) ws

/-- Copies `n` bytes, the lowest first. -/
def copy (m : ByteMemory) (dst src : Nat) : Nat → ByteMemory
  | 0 => m
  | n + 1 => update (copy m dst src n) (dst + n) (copy m dst src n (src + n))

/-- Replaces the words `0`, …, `n - 1` of the array at `a`, word `i` by `f i` of what it was. -/
def modifyWords (m : ByteMemory) (a : Nat) (f : Nat → BitVec 64 → BitVec 64) : Nat → ByteMemory
  | 0 => m
  | n + 1 =>
    let m := modifyWords m a f n
    m.writeWord (a + 8 * n) (f n (m.readWord (a + 8 * n)))

variable {m m' : ByteMemory} {a b x n : Nat} {w : BitVec 64}

theorem readWord_congr (h : ∀ i < 8, m (a + i) = m' (a + i)) : m.readWord a = m'.readWord a := by
  unfold readWord
  have h0 : m a = m' a := h 0 (by decide)
  rw [h 7 (by decide), h 6 (by decide), h 5 (by decide), h 4 (by decide), h 3 (by decide),
    h 2 (by decide), h 1 (by decide), h0]

theorem readShort_congr (h : ∀ i < 2, m (a + i) = m' (a + i)) : m.readShort a = m'.readShort a := by
  unfold readShort
  have h0 : m a = m' a := h 0 (by decide)
  rw [h 1 (by decide), h0]

theorem readInt_congr (h : ∀ i < 4, m (a + i) = m' (a + i)) : m.readInt a = m'.readInt a := by
  unfold readInt
  have h0 : m a = m' a := h 0 (by decide)
  rw [h 3 (by decide), h 2 (by decide), h 1 (by decide), h0]

theorem writeWord_inside {i : Nat} (h : i < 8) :
    m.writeWord a w (a + i) = w.extractLsb' (8 * i) 8 := by
  unfold writeWord
  rw [if_pos ⟨Nat.le_add_right a i, by omega⟩, Nat.add_sub_cancel_left]

theorem writeWord_outside (h : x < a ∨ a + 8 ≤ x) : m.writeWord a w x = m x := by
  unfold writeWord
  rw [if_neg (by omega)]

theorem readWord_writeWord_self : (m.writeWord a w).readWord a = w := by
  have h0 : m.writeWord a w a = w.extractLsb' (8 * 0) 8 := writeWord_inside (i := 0) (by decide)
  unfold readWord
  rw [h0, writeWord_inside (by decide), writeWord_inside (by decide), writeWord_inside (by decide),
    writeWord_inside (by decide), writeWord_inside (by decide), writeWord_inside (by decide),
    writeWord_inside (by decide)]
  rw [BitVec.extractLsb'_append_extractLsb'_eq_extractLsb' (by rfl),
    BitVec.extractLsb'_append_extractLsb'_eq_extractLsb' (by rfl),
    BitVec.extractLsb'_append_extractLsb'_eq_extractLsb' (by rfl),
    BitVec.extractLsb'_append_extractLsb'_eq_extractLsb' (by rfl),
    BitVec.extractLsb'_append_extractLsb'_eq_extractLsb' (by rfl),
    BitVec.extractLsb'_append_extractLsb'_eq_extractLsb' (by rfl),
    BitVec.extractLsb'_append_extractLsb'_eq_extractLsb' (by rfl)]
  exact BitVec.extractLsb'_eq_self

theorem readWord_writeWord_of_disjoint (h : a + 8 ≤ b ∨ b + 8 ≤ a) :
    (m.writeWord b w).readWord a = m.readWord a := by
  apply readWord_congr
  intro i hi
  apply writeWord_outside
  omega

theorem copy_outside {dst src : Nat} (h : x < dst ∨ dst + n ≤ x) : m.copy dst src n x = m x := by
  induction n with
  | zero => rfl
  | succ n ih =>
    show update _ _ _ x = _
    rw [update_of_ne (by omega), ih (by omega)]

/-- A copy between disjoint regions reads the memory it started from. -/
theorem copy_inside {dst src i : Nat} (h : dst + n ≤ src ∨ src + n ≤ dst) (hi : i < n) :
    m.copy dst src n (dst + i) = m (src + i) := by
  induction n with
  | zero => exact absurd hi (Nat.not_lt_zero i)
  | succ n ih =>
    show update _ _ _ (dst + i) = _
    by_cases hin : i = n
    · rw [hin, update_self, copy_outside (by omega)]
    · rw [update_of_ne (by omega), ih (by omega) (by omega)]

variable {f : Nat → BitVec 64 → BitVec 64}

theorem modifyWords_outside (h : x < a ∨ a + 8 * n ≤ x) : m.modifyWords a f n x = m x := by
  induction n with
  | zero => rfl
  | succ n ih =>
    show writeWord _ _ _ x = _
    rw [writeWord_outside (by omega), ih (by omega)]

theorem readWord_modifyWords_of_disjoint (h : b + 8 ≤ a ∨ a + 8 * n ≤ b) :
    (m.modifyWords a f n).readWord b = m.readWord b := by
  apply readWord_congr
  intro i hi
  apply modifyWords_outside
  omega

theorem readWord_modifyWords {i : Nat} (hi : i < n) :
    (m.modifyWords a f n).readWord (a + 8 * i) = f i (m.readWord (a + 8 * i)) := by
  induction n with
  | zero => exact absurd hi (Nat.not_lt_zero i)
  | succ n ih =>
    show (writeWord _ _ _).readWord _ = _
    by_cases hin : i = n
    · rw [hin, readWord_writeWord_self, readWord_modifyWords_of_disjoint (by omega)]
    · rw [readWord_writeWord_of_disjoint (by omega), ih (by omega)]

end ByteMemory
