import Mathlib.Data.BitVec
import Mathlib.Data.Nat.Init

/-! A high precision event timer: a counter and the first of its timers, with edge-triggered
interrupts. Writes to the counter while it counts are left out. -/

namespace EventTimer

/-- `period` is what was last written to the register of the comparator. -/
structure Registers where
  capabilities : BitVec 64
  config : BitVec 64
  counter : BitVec 64
  timerConfig : BitVec 64
  comparator : BitVec 64
  period : BitVec 64

namespace Registers

def counts (b : Registers) : Bool := b.config.getLsbD 0

/-- The interrupts take the place of those of the old timer. -/
def replaces (b : Registers) : Bool := b.config.getLsbD 1

def interrupts (b : Registers) : Bool := b.timerConfig.getLsbD 2

def periodic (b : Registers) : Bool := b.timerConfig.getLsbD 3 && b.timerConfig.getLsbD 4

/-- The interrupts are messages on the bus, and no line is raised. -/
def messages (b : Registers) : Bool := b.timerConfig.getLsbD 14 && b.timerConfig.getLsbD 15

def counterBits (b : Registers) : Nat := if b.capabilities.getLsbD 13 then 64 else 32

def timerBits (b : Registers) : Nat :=
  if b.timerConfig.getLsbD 5 && !b.timerConfig.getLsbD 8 then 64 else 32

/-- What a write leaves of the timer's configuration: its capabilities. -/
def readOnly : BitVec 64 := 0xffffffff00008030

def setComparator : BitVec 64 := 0x40

def read (b : Registers) (offset : Nat) : BitVec 64 :=
  if offset = 0 then b.capabilities
  else if offset = 0x10 then b.config
  else if offset = 0xf0 then b.counter
  else if offset = 0x100 then b.timerConfig
  else if offset = 0x108 then b.comparator
  else 0

def write (b : Registers) (offset : Nat) (v : BitVec 64) : Registers :=
  if offset = 0x10 then { b with config := v }
  else if offset = 0xf0 then { b with counter := v }
  else if offset = 0x100 then
    { b with timerConfig := b.timerConfig &&& readOnly ||| v &&& ~~~readOnly }
  else if offset = 0x108 then
    if b.periodic then
      { b with
        period := v
        comparator := if b.timerConfig.getLsbD 6 then v else b.comparator
        timerConfig := b.timerConfig &&& ~~~setComparator }
    else { b with period := v, comparator := v }
  else b

def count (b : Registers) : Registers :=
  { b with counter := BitVec.ofNat 64 ((b.counter.toNat + 1) % 2 ^ b.counterBits) }

/-- The comparator has been reached. -/
def hits (b : Registers) : Bool :=
  b.counter.toNat % 2 ^ b.timerBits = b.comparator.toNat % 2 ^ b.timerBits

/-- One period of the clock. -/
def tick (b : Registers) : Registers :=
  if b.counts then
    let b := b.count
    if b.hits && b.periodic then { b with comparator := b.comparator + b.period } else b
  else b

/-- The interrupt's line is raised in the period. -/
def raises (b : Registers) : Bool :=
  b.counts && b.count.hits && b.interrupts && b.replaces && !b.messages

/-- `t` periods after the counter has been started at zero, with interrupts every `c` periods. -/
structure Ticking (b : Registers) (c t : Nat) : Prop where
  counts : b.counts = true
  replaces : b.replaces = true
  interrupts : b.interrupts = true
  periodic : b.periodic = true
  line : b.messages = false
  bits : b.timerBits ≤ b.counterBits
  positive : 0 < c
  small : c < 2 ^ b.timerBits
  period : b.period.toNat = c
  counter : b.counter.toNat % 2 ^ b.timerBits = t % 2 ^ b.timerBits
  comparator : b.comparator.toNat % 2 ^ b.timerBits = c * (t / c + 1) % 2 ^ b.timerBits

variable {b : Registers} {c t : Nat}

theorem getLsbD_write (b : Registers) (v : BitVec 64) {i : Nat} (hi : i < 64) :
    (b.write 0x100 v).timerConfig.getLsbD i =
      if readOnly.getLsbD i then b.timerConfig.getLsbD i else v.getLsbD i := by
  show (b.timerConfig &&& readOnly ||| v &&& ~~~readOnly).getLsbD i = _
  rw [BitVec.getLsbD_or, BitVec.getLsbD_and, BitVec.getLsbD_and, BitVec.getLsbD_not,
    decide_eq_true hi, Bool.true_and]
  cases readOnly.getLsbD i <;> simp

theorem write_comparator (h : b.periodic = true) (hset : b.timerConfig.getLsbD 6 = true)
    (v : BitVec 64) : b.write 0x108 v = { b with
      period := v
      comparator := v
      timerConfig := b.timerConfig &&& ~~~setComparator } := by
  show (if b.periodic then _ else _) = _
  rw [if_pos h, hset]
  rfl

theorem getLsbD_clear (e : BitVec 64) {i : Nat} (hi : i < 64) (hi6 : i ≠ 6) :
    (e &&& ~~~setComparator).getLsbD i = e.getLsbD i := by
  have hall : ∀ i < 64, i ≠ 6 → setComparator.getLsbD i = false := by decide
  rw [BitVec.getLsbD_and, BitVec.getLsbD_not, hall i hi hi6, decide_eq_true hi]
  exact Bool.and_true _

theorem tick_of_not_counts (h : b.counts = false) : b.tick = b := by
  unfold tick
  rw [h]
  rfl

theorem raises_of_not_counts (h : b.counts = false) : b.raises = false := by
  unfold raises
  rw [h]
  rfl

theorem pow_timerBits_dvd (b : Registers) : 2 ^ b.timerBits ∣ 2 ^ 64 := by
  apply Nat.pow_dvd_pow
  unfold timerBits
  split_ifs <;> decide

theorem counterBits_le (b : Registers) : b.counterBits ≤ 64 := by
  unfold counterBits
  split_ifs <;> decide

theorem Ticking.count (h : b.Ticking c t) :
    b.count.counter.toNat % 2 ^ b.timerBits = (t + 1) % 2 ^ b.timerBits := by
  have hlt : (b.counter.toNat + 1) % 2 ^ b.counterBits < 2 ^ 64 :=
    (Nat.mod_lt _ (Nat.two_pow_pos _)).trans_le (Nat.pow_le_pow_right Nat.two_pos b.counterBits_le)
  unfold Registers.count
  rw [BitVec.toNat_ofNat, Nat.mod_eq_of_lt hlt, Nat.mod_mod_of_dvd _ (Nat.pow_dvd_pow 2 h.bits)]
  exact Nat.ModEq.add_right 1 h.counter

/-- The counter and the next multiple are less than a full turn of the counter apart. -/
theorem Ticking.hits_iff (h : b.Ticking c t) : b.count.hits = true ↔ c ∣ t + 1 := by
  have hhits : b.count.hits = true ↔
      (t + 1) % 2 ^ b.timerBits = c * (t / c + 1) % 2 ^ b.timerBits := by
    rw [← h.count, ← h.comparator]
    exact decide_eq_true_iff
  have hdiv : c * (t / c) + t % c = t := Nat.div_add_mod t c
  have hmod : t % c < c := Nat.mod_lt t h.positive
  rw [hhits]
  constructor
  · intro heq
    have hle : t + 1 ≤ c * (t / c + 1) := by
      rw [Nat.mul_succ]
      omega
    have hgap : (c * (t / c + 1) - (t + 1)) % 2 ^ b.timerBits = 0 :=
      Nat.sub_mod_eq_zero_of_mod_eq heq.symm
    have hlt : c * (t / c + 1) - (t + 1) < 2 ^ b.timerBits := by
      have hsmall := h.small
      rw [Nat.mul_succ]
      omega
    rw [Nat.mod_eq_of_lt hlt] at hgap
    have hmultiple : t + 1 = c * (t / c + 1) := by omega
    exact hmultiple ▸ Nat.dvd_mul_right c _
  · intro hdvd
    have hsucc : (t + 1) / c = t / c + 1 := by rw [Nat.succ_div, if_pos hdvd]
    rw [← hsucc, Nat.mul_div_cancel' hdvd]

theorem Ticking.raises_iff (h : b.Ticking c t) : b.raises = true ↔ c ∣ t + 1 := by
  unfold raises
  rw [h.counts, h.interrupts, h.replaces, h.line, Bool.true_and, Bool.and_true, Bool.and_true,
    Bool.not_false, Bool.and_true]
  exact h.hits_iff

theorem Ticking.tick (h : b.Ticking c t) : b.tick.Ticking c (t + 1) := by
  have htick : b.tick = if b.count.hits then
      { b.count with comparator := b.comparator + b.period } else b.count := by
    unfold Registers.tick
    rw [if_pos h.counts]
    dsimp only
    rw [show b.count.periodic = true from h.periodic, Bool.and_true]
    rfl
  have hcomparator : ∀ v : BitVec 64,
      v.toNat % 2 ^ b.timerBits = c * ((t + 1) / c + 1) % 2 ^ b.timerBits →
      ({ b.count with comparator := v } : Registers).Ticking c (t + 1) := fun v hv =>
    ⟨h.counts, h.replaces, h.interrupts, h.periodic, h.line, h.bits, h.positive, h.small,
      h.period, h.count, hv⟩
  rw [htick]
  split_ifs with hhits
  · have hdvd := h.hits_iff.mp hhits
    apply hcomparator
    rw [Nat.succ_div, if_pos hdvd, BitVec.toNat_add, Nat.mod_mod_of_dvd _ b.pow_timerBits_dvd,
      h.period, Nat.mul_succ c (t / c + 1)]
    exact Nat.ModEq.add_right c h.comparator
  · have hdvd := mt h.hits_iff.mpr hhits
    refine hcomparator b.comparator ?_
    rw [Nat.succ_div, if_neg hdvd, Nat.add_zero]
    exact h.comparator

end Registers

end EventTimer
