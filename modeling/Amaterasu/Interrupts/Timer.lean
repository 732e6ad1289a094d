import Amaterasu.Console.Screen
import Amaterasu.Library.BitField
import Amaterasu.Library.ByteMemory
import Amaterasu.Library.EventTimer

/-! `acpi.c` and `hpet.c`: the table that the firmware gives, and the timer it tells of. -/

namespace Amaterasu
open BitField EventTimer

/-! ## Tables -/

def sizeofSDTH : BitVec 64 := 36

def sdtLength (m : ByteMemory) (sdt : BitVec 64) : BitVec 32 := m.readInt (sdt + 4).toNat

def sdtSignature (m : ByteMemory) (sdt : BitVec 64) : List (BitVec 8) :=
  (List.range 4).map fun i => m (sdt + BitVec.ofNat 64 i).toNat

def xsdtEntry (m : ByteMemory) (xsdt i : BitVec 64) : BitVec 64 :=
  m.readWord (xsdt + sizeofSDTH + 8 * i).toNat

def findSDTLoop (m : ByteMemory) (xsdt : BitVec 64) (findSignature : List (BitVec 8)) :
    Nat → BitVec 64 → BitVec 64
  | 0, _ => 0
  | left + 1, i =>
    let sdt := xsdtEntry m xsdt i
    if sdtSignature m sdt = findSignature then sdt
    else findSDTLoop m xsdt findSignature left (i + 1)

def findSDT (m : ByteMemory) (xsdt : BitVec 64) (findSignature : List (BitVec 8)) : BitVec 64 :=
  let length := sdtLength m xsdt
  let entryNum := (length.setWidth 64 - sizeofSDTH) / 8
  findSDTLoop m xsdt findSignature entryNum.toNat 0

/-- The XSDT holds these tables. -/
structure Lists (m : ByteMemory) (xsdt : BitVec 64) (tables : List (BitVec 64)) : Prop where
  length : (sdtLength m xsdt).toNat = 36 + 8 * tables.length
  entry : ∀ i (h : i < tables.length), xsdtEntry m xsdt (BitVec.ofNat 64 i) = tables[i]

section Tables
variable {m : ByteMemory} {xsdt : BitVec 64} {tables : List (BitVec 64)}
  {findSignature : List (BitVec 8)}

/-- By induction on the tables that are left. -/
theorem findSDTLoop_eq (i : Nat)
    (h : ∀ j (hj : j < tables.length), xsdtEntry m xsdt (BitVec.ofNat 64 (i + j)) = tables[j]) :
    findSDTLoop m xsdt findSignature tables.length (BitVec.ofNat 64 i) =
      (tables.find? fun sdt => sdtSignature m sdt = findSignature).getD 0 := by
  induction tables generalizing i with
  | nil => rfl
  | cons sdt tables ih =>
    have hhead : xsdtEntry m xsdt (BitVec.ofNat 64 i) = sdt := h 0 (Nat.succ_pos _)
    have hrest := ih (i + 1) fun j hj => by
      rw [Nat.add_assoc, Nat.add_comm 1 j]
      exact h (j + 1) (Nat.succ_lt_succ hj)
    have hnext : BitVec.ofNat 64 i + 1 = BitVec.ofNat 64 (i + 1) := (BitVec.ofNat_add i 1).symm
    rw [List.length_cons, findSDTLoop, hhead, hnext, List.find?_cons]
    by_cases hsig : sdtSignature m sdt = findSignature
    · rw [if_pos hsig, decide_eq_true hsig]
      rfl
    · rw [if_neg hsig, decide_eq_false hsig]
      exact hrest

theorem findSDT_eq (h : Lists m xsdt tables) : findSDT m xsdt findSignature =
    (tables.find? fun sdt => sdtSignature m sdt = findSignature).getD 0 := by
  have hentryNum : (((sdtLength m xsdt).setWidth 64 - sizeofSDTH) / 8).toNat = tables.length := by
    have hlength := h.length
    have hlt := (sdtLength m xsdt).isLt
    have hsub : ((sdtLength m xsdt).setWidth 64 - sizeofSDTH).toNat = 8 * tables.length := by
      rw [BitVec.toNat_sub, BitVec.toNat_setWidth]
      show (2 ^ 64 - 36 + _) % 2 ^ 64 = _
      omega
    rw [BitVec.toNat_udiv, hsub]
    exact Nat.mul_div_cancel_left _ (by decide)
  unfold findSDT
  dsimp only
  rw [hentryNum]
  refine findSDTLoop_eq 0 fun j hj => ?_
  rw [Nat.zero_add]
  exact h.entry j hj

end Tables

/-! ## The timer -/

def usToFs : BitVec 64 := 1000000000

/-- In microseconds. -/
def schedulerPeriod : BitVec 64 := 5 * 1000

def gcidrOffset : BitVec 64 := 0
def gcrOffset : BitVec 64 := 0x10
def mcrOffset : BitVec 64 := 0xf0
def tnccrOffset : BitVec 64 := 0x100
def tncrOffset : BitVec 64 := 0x108

namespace GCIDR

def counterClkPeriod : BitField := ⟨32, 32⟩

end GCIDR

namespace GCR

def enableCnf : BitField := ⟨0, 1⟩
def legRtCnf : BitField := ⟨1, 1⟩

end GCR

namespace TNCCR

def reserved1 : BitField := ⟨0, 1⟩
def intTypeCnf : BitField := ⟨1, 1⟩
def intEnbCnf : BitField := ⟨2, 1⟩
def typeCnf : BitField := ⟨3, 1⟩
def valSetCnf : BitField := ⟨6, 1⟩
def reserved2 : BitField := ⟨7, 1⟩
def mode32Cnf : BitField := ⟨8, 1⟩
def fsbEnCnf : BitField := ⟨14, 1⟩
def reserved3 : BitField := ⟨16, 16⟩

end TNCCR

/-- The firmware's tables and the timer, whose registers are in a page at `deviceBase`. -/
structure Platform where
  memory : ByteMemory
  xsdt : BitVec 64
  deviceBase : BitVec 64
  device : Registers
  hpetBaseAddress : BitVec 64
  hpetCLKPeriod : BitVec 64

namespace Platform

/-- The address of the XSDT stands in the RSDP. -/
def acpiInit (p : Platform) (rsdtAddress : BitVec 64) : Platform :=
  { p with xsdt := p.memory.readWord (rsdtAddress + 24).toNat }

def readRegister (p : Platform) (offset : BitVec 64) : BitVec 64 :=
  let a := p.hpetBaseAddress + offset
  if (a - p.deviceBase).toNat < 0x400 then p.device.read (a - p.deviceBase).toNat
  else p.memory.readWord a.toNat

def writeRegister (p : Platform) (offset v : BitVec 64) : Platform :=
  let a := p.hpetBaseAddress + offset
  if (a - p.deviceBase).toNat < 0x400 then
    { p with device := p.device.write (a - p.deviceBase).toNat v }
  else { p with memory := p.memory.writeWord a.toNat v }

def hpetInit (p : Platform) : Platform :=
  let hpetTable := findSDT p.memory p.xsdt ("HPET".toList.map ascii)
  let p := { p with hpetBaseAddress := p.memory.readWord (hpetTable + 44).toNat }
  -- stop hpet
  let gcr := p.readRegister gcrOffset
  let p := p.writeRegister gcrOffset (assign gcr [⟨GCR.enableCnf, 0⟩, ⟨GCR.legRtCnf, 1⟩])
  let gcidr := p.readRegister gcidrOffset
  let p := { p with hpetCLKPeriod := (GCIDR.counterClkPeriod.get gcidr).setWidth 64 }
  let tnccr := p.readRegister tnccrOffset
  p.writeRegister tnccrOffset (assign tnccr [⟨TNCCR.intTypeCnf, 0⟩, ⟨TNCCR.intEnbCnf, 1⟩,
    ⟨TNCCR.typeCnf, 1⟩, ⟨TNCCR.valSetCnf, 0⟩, ⟨TNCCR.mode32Cnf, 0⟩, ⟨TNCCR.fsbEnCnf, 0⟩,
    ⟨TNCCR.reserved1, 0⟩, ⟨TNCCR.reserved2, 0⟩, ⟨TNCCR.reserved3, 0⟩])

/-- There is no result where the division has none. -/
def hpetStartPeriodicTimer (p : Platform) (us : BitVec 64) : Option Platform :=
  let tnccr := p.readRegister tnccrOffset
  let p := p.writeRegister tnccrOffset (assign tnccr [⟨TNCCR.valSetCnf, 1⟩])
  if p.hpetCLKPeriod = 0 then none
  else
    let clockCount := us * usToFs / p.hpetCLKPeriod
    let p := p.writeRegister tncrOffset clockCount
    let p := p.writeRegister mcrOffset 0
    let gcr := p.readRegister gcrOffset
    some (p.writeRegister gcrOffset (assign gcr [⟨GCR.enableCnf, 1⟩]))

def schedulerStart (p : Platform) : Option Platform := p.hpetStartPeriodicTimer schedulerPeriod

/-- What the firmware must give: the tables, and a timer 0 that can be periodic. -/
structure Firmware (p : Platform) (tables : List (BitVec 64)) (hpetTable : BitVec 64) : Prop where
  lists : Lists p.memory p.xsdt tables
  first : tables.find? (fun sdt => sdtSignature p.memory sdt = "HPET".toList.map ascii) =
    some hpetTable
  base : p.memory.readWord (hpetTable + 44).toNat = p.deviceBase
  periodic : p.device.timerConfig.getLsbD 4 = true
  bits : p.device.timerConfig.getLsbD 5 = true → p.device.capabilities.getLsbD 13 = true

/-- The length of the clock's period in femtoseconds. -/
def clkPeriod (b : Registers) : Nat := (GCIDR.counterClkPeriod.get b.capabilities).toNat

/-- After `HPETInit`: the timer is set up, and the counter does not count. -/
structure Halted (p : Platform) : Prop where
  base : p.hpetBaseAddress = p.deviceBase
  clkPeriod : p.hpetCLKPeriod.toNat = Platform.clkPeriod p.device
  counts : p.device.counts = false
  replaces : p.device.replaces = true
  interrupts : p.device.interrupts = true
  periodic : p.device.periodic = true
  line : p.device.messages = false
  bits : p.device.timerBits ≤ p.device.counterBits

section Driver
variable {p : Platform} {tables : List (BitVec 64)} {hpetTable us offset : BitVec 64}

theorem readRegister_eq (h : p.hpetBaseAddress = p.deviceBase) (ho : offset.toNat < 0x400) :
    p.readRegister offset = p.device.read offset.toNat := by
  have hoffset : p.hpetBaseAddress + offset - p.deviceBase = offset := by
    rw [h, BitVec.add_comm, BitVec.add_sub_cancel]
  unfold readRegister
  dsimp only
  rw [hoffset, if_pos ho]

theorem writeRegister_eq (h : p.hpetBaseAddress = p.deviceBase) (ho : offset.toNat < 0x400)
    (v : BitVec 64) :
    p.writeRegister offset v = { p with device := p.device.write offset.toNat v } := by
  have hoffset : p.hpetBaseAddress + offset - p.deviceBase = offset := by
    rw [h, BitVec.add_comm, BitVec.add_sub_cancel]
  unfold writeRegister
  dsimp only
  rw [hoffset, if_pos ho]

theorem hpetInit_eq (h : Firmware p tables hpetTable) : p.hpetInit =
    { p with
      hpetBaseAddress := p.deviceBase
      hpetCLKPeriod := (GCIDR.counterClkPeriod.get p.device.capabilities).setWidth 64
      device := (p.device.write 0x10
          (assign p.device.config [⟨GCR.enableCnf, 0⟩, ⟨GCR.legRtCnf, 1⟩])).write 0x100
        (assign p.device.timerConfig [⟨TNCCR.intTypeCnf, 0⟩, ⟨TNCCR.intEnbCnf, 1⟩,
          ⟨TNCCR.typeCnf, 1⟩, ⟨TNCCR.valSetCnf, 0⟩, ⟨TNCCR.mode32Cnf, 0⟩, ⟨TNCCR.fsbEnCnf, 0⟩,
          ⟨TNCCR.reserved1, 0⟩, ⟨TNCCR.reserved2, 0⟩, ⟨TNCCR.reserved3, 0⟩]) } := by
  have hfind : findSDT p.memory p.xsdt ("HPET".toList.map ascii) = hpetTable := by
    rw [findSDT_eq h.lists, h.first]
    rfl
  have hgcr : gcrOffset.toNat < 0x400 := by decide
  have hgcidr : gcidrOffset.toNat < 0x400 := by decide
  have htnccr : tnccrOffset.toNat < 0x400 := by decide
  unfold hpetInit
  dsimp only
  rw [hfind, h.base]
  simp only [readRegister_eq, writeRegister_eq, hgcr, hgcidr, htnccr]
  rfl

theorem hpetInit_halted (h : Firmware p tables hpetTable) : p.hpetInit.Halted := by
  rw [hpetInit_eq h]
  generalize hconfig : assign p.device.config _ = config
  generalize htimer : assign p.device.timerConfig _ = timerConfig
  have hold : ∀ i < 64, Registers.readOnly.getLsbD i = true →
      ((p.device.write 0x10 config).write 0x100 timerConfig).timerConfig.getLsbD i =
        p.device.timerConfig.getLsbD i := fun i hi hro =>
    (Registers.getLsbD_write _ _ hi).trans (if_pos hro)
  have hnew : ∀ i < 64, Registers.readOnly.getLsbD i = false →
      ((p.device.write 0x10 config).write 0x100 timerConfig).timerConfig.getLsbD i =
        timerConfig.getLsbD i := fun i hi hro =>
    (Registers.getLsbD_write _ _ hi).trans (if_neg (ne_true_of_eq_false hro))
  refine ⟨rfl, ?_, ?_, ?_, ?_, ?_, ?_, ?_⟩
  · exact BitVec.toNat_setWidth_of_le (by decide)
  · show config.getLsbD 0 = false
    rw [← hconfig]
    exact getLsbD_assign_of_mem (v := 0) (by decide) List.mem_cons_self (by decide)
  · show config.getLsbD 1 = true
    rw [← hconfig]
    exact getLsbD_assign_of_mem (v := 1) (by decide)
      (List.mem_cons_of_mem _ List.mem_cons_self) (by decide)
  · unfold Registers.interrupts
    rw [hnew 2 (by decide) (by decide), ← htimer]
    exact getLsbD_assign_of_mem (v := 1) (by decide) (by simp [TNCCR.intEnbCnf]) (by decide)
  · unfold Registers.periodic
    rw [hnew 3 (by decide) (by decide), hold 4 (by decide) (by decide), h.periodic, ← htimer,
      Bool.and_true]
    exact getLsbD_assign_of_mem (v := 1) (by decide) (by simp [TNCCR.typeCnf]) (by decide)
  · unfold Registers.messages
    rw [hnew 14 (by decide) (by decide), ← htimer, getLsbD_assign_of_mem (v := 0) (by decide)
      (by simp [TNCCR.fsbEnCnf]) (by decide)]
    rfl
  · unfold Registers.timerBits Registers.counterBits
    rw [hold 5 (by decide) (by decide)]
    show _ ≤ if p.device.capabilities.getLsbD 13 = true then 64 else 32
    cases hsize : p.device.timerConfig.getLsbD 5 with
    | false =>
      rw [Bool.false_and, if_neg Bool.false_ne_true]
      split_ifs <;> decide
    | true =>
      rw [h.bits hsize, if_pos rfl]
      split_ifs <;> decide

theorem opened_bit (b : Registers) {i : Nat} (hi : i < 64) :
    (b.write 0x100 (assign b.timerConfig [⟨TNCCR.valSetCnf, 1⟩])).timerConfig.getLsbD i =
      if i = 6 then true else b.timerConfig.getLsbD i := by
  rw [Registers.getLsbD_write _ _ hi]
  by_cases hi6 : i = 6
  · subst hi6
    exact getLsbD_assign_of_mem (v := 1) (by decide) List.mem_cons_self hi
  · have hapart : i + 1 ≤ 6 ∨ 7 ≤ i := by omega
    rw [if_neg hi6]
    split_ifs
    · rfl
    · exact getLsbD_assign_of_apart hi fun part hpart => List.mem_singleton.mp hpart ▸ hapart

/-- What `HPETStartPeriodicTimer` leaves in the registers. -/
def started (b : Registers) (clockCount : BitVec 64) : Registers where
  capabilities := b.capabilities
  config := assign b.config [⟨GCR.enableCnf, 1⟩]
  counter := 0
  timerConfig := (b.write 0x100 (assign b.timerConfig [⟨TNCCR.valSetCnf, 1⟩])).timerConfig &&&
    ~~~Registers.setComparator
  comparator := clockCount
  period := clockCount

theorem started_bit (b : Registers) (clockCount : BitVec 64) {i : Nat} (hi : i < 64)
    (hi6 : i ≠ 6) :
    (started b clockCount).timerConfig.getLsbD i = b.timerConfig.getLsbD i := by
  unfold started
  rw [Registers.getLsbD_clear _ hi hi6, opened_bit b hi, if_neg hi6]

theorem hpetStartPeriodicTimer_eq (h : p.Halted) (hclk : 0 < clkPeriod p.device) :
    p.hpetStartPeriodicTimer us =
      some { p with device := started p.device (us * usToFs / p.hpetCLKPeriod) } := by
  have hne : p.hpetCLKPeriod ≠ 0 := by
    intro heq
    have hzero := h.clkPeriod
    rw [heq] at hzero
    exact absurd hzero.symm hclk.ne'
  have hgcr : gcrOffset.toNat < 0x400 := by decide
  have hmcr : mcrOffset.toNat < 0x400 := by decide
  have htnccr : tnccrOffset.toNat < 0x400 := by decide
  have htncr : tncrOffset.toNat < 0x400 := by decide
  generalize hopened : p.device.write 0x100 (assign p.device.timerConfig [⟨TNCCR.valSetCnf, 1⟩]) = b
  have hperiodic : b.periodic = true := by
    have hp := h.periodic
    unfold Registers.periodic at hp ⊢
    rw [← hopened, opened_bit _ (by decide), opened_bit _ (by decide)]
    exact hp
  have hset : b.timerConfig.getLsbD 6 = true := by
    rw [← hopened, opened_bit _ (by decide)]
    rfl
  unfold hpetStartPeriodicTimer
  simp only [readRegister_eq, writeRegister_eq, h.base, hgcr, hmcr, htnccr, htncr]
  rw [if_neg hne]
  show some { p with
    hpetBaseAddress := p.deviceBase
    device := ((((p.device.write 0x100 (assign p.device.timerConfig
        [⟨TNCCR.valSetCnf, 1⟩])).write 0x108 _).write 0xf0 0).write 0x10
      (assign ((((p.device.write 0x100 (assign p.device.timerConfig
        [⟨TNCCR.valSetCnf, 1⟩])).write 0x108 _).write 0xf0 0).read 0x10) _)) } = _
  rw [hopened, Registers.write_comparator hperiodic hset, ← h.base, ← hopened]
  rfl

theorem started_ticking (h : p.Halted) {clockCount : BitVec 64} (hpos : 0 < clockCount.toNat)
    (hsmall : clockCount.toNat < 2 ^ p.device.timerBits) :
    (started p.device clockCount).Ticking clockCount.toNat 0 := by
  have hbit : ∀ {i}, i < 64 → i ≠ 6 →
      (started p.device clockCount).timerConfig.getLsbD i = p.device.timerConfig.getLsbD i :=
    started_bit p.device clockCount
  have hbits : (started p.device clockCount).timerBits = p.device.timerBits := by
    unfold Registers.timerBits
    rw [hbit (by decide) (by decide), hbit (by decide) (by decide)]
  refine ⟨?_, ?_, ?_, ?_, ?_, ?_, hpos, ?_, rfl, rfl, ?_⟩
  · exact getLsbD_assign_of_mem (v := 1) (by decide) List.mem_cons_self (by decide)
  · exact (getLsbD_assign_of_apart (by decide) (by decide)).trans h.replaces
  · exact (hbit (by decide) (by decide)).trans h.interrupts
  · have hp := h.periodic
    unfold Registers.periodic at hp ⊢
    rw [hbit (by decide) (by decide), hbit (by decide) (by decide)]
    exact hp
  · have hl := h.line
    unfold Registers.messages at hl ⊢
    rw [hbit (by decide) (by decide), hbit (by decide) (by decide)]
    exact hl
  · exact hbits.trans_le h.bits
  · exact hsmall.trans_eq (congrArg _ hbits.symm)
  · rw [Nat.zero_div, Nat.zero_add, Nat.mul_one]
    rfl

theorem hpetStartPeriodicTimer_ticking (h : p.Halted) (hus : us.toNat * 1000000000 < 2 ^ 64)
    (hpos : clkPeriod p.device ≤ us.toNat * 1000000000) (hclk : 0 < clkPeriod p.device)
    (hsmall : us.toNat * 1000000000 / clkPeriod p.device < 2 ^ p.device.timerBits) :
    ∃ q, p.hpetStartPeriodicTimer us = some q ∧
      q.device.Ticking (us.toNat * 1000000000 / clkPeriod p.device) 0 := by
  have hcount : (us * usToFs / p.hpetCLKPeriod).toNat =
      us.toNat * 1000000000 / clkPeriod p.device := by
    rw [BitVec.toNat_udiv, BitVec.toNat_mul, h.clkPeriod]
    exact congrArg (· / _) (Nat.mod_eq_of_lt hus)
  refine ⟨_, hpetStartPeriodicTimer_eq h hclk, ?_⟩
  rw [← hcount] at hsmall ⊢
  exact started_ticking h (hcount ▸ Nat.div_pos hpos hclk) hsmall

end Driver

end Platform

end Amaterasu
