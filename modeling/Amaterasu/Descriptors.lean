import Amaterasu.Library.BitField
import Mathlib.Data.List.Induction
import Mathlib.Logic.Function.Basic

/-! The descriptor tables: the segment descriptors of `x86_64.c` and the gates of `interrupt.c`, and
what the processor reads out of them. -/

namespace Amaterasu
open Function

/-! ## Segment descriptors -/

def calcAccessByte (pr priv s ex dc rw ac : BitVec 8) : BitVec 8 :=
  let accessByte : BitVec 8 := 0
  let accessByte := accessByte ||| (0x1 &&& ac)
  let accessByte := accessByte ||| (0x2 &&& rw <<< 1)
  let accessByte := accessByte ||| (0x4 &&& dc <<< 2)
  let accessByte := accessByte ||| (0x8 &&& ex <<< 3)
  let accessByte := accessByte ||| (0x10 &&& s <<< 4)
  let accessByte := accessByte ||| (0x60 &&& priv <<< 5)
  accessByte ||| (0x80 &&& pr <<< 7)

def calcFlags (gr sz l : BitVec 8) : BitVec 8 :=
  let flags : BitVec 8 := 0
  let flags := flags ||| (0x2 &&& l <<< 1)
  let flags := flags ||| (0x4 &&& sz <<< 2)
  flags ||| (0x8 &&& gr <<< 3)

def calcGDTEntry (base limit accessByte flags : BitVec 64) : BitVec 64 :=
  let gdtEntry : BitVec 64 := 0
  let gdtEntry := gdtEntry ||| (limit &&& 0xffff)
  let gdtEntry := gdtEntry ||| (base &&& 0xffff) <<< 16
  let gdtEntry := gdtEntry ||| (base >>> 16 &&& 0xff) <<< 32
  let gdtEntry := gdtEntry ||| (accessByte &&& 0xff) <<< 40
  let gdtEntry := gdtEntry ||| (limit >>> 16 &&& 0xf) <<< 48
  let gdtEntry := gdtEntry ||| (flags &&& 0xf) <<< 52
  gdtEntry ||| (base >>> 24 &&& 0xff) <<< 56

def calcTSSDescriptorHigher (base : BitVec 64) : BitVec 64 :=
  let higher : BitVec 64 := 0
  higher + (base >>> 32 &&& 0xffffffff)

def plKernel : BitVec 8 := 0

/-- `GDT_TSS_DESCRIPTOR_LOWER`. -/
def gdtTSSDescriptorLower (base : BitVec 64) : BitVec 64 :=
  calcGDTEntry base 104 ((calcAccessByte 1 plKernel 0 1 0 0 1).setWidth 64)
    ((calcFlags 0 0 0).setWidth 64)

/-- `GDT_TSS_DESCRIPTOR_HIGHER`. -/
def gdtTSSDescriptorHigher (base : BitVec 64) : BitVec 64 := calcTSSDescriptorHigher base

/-- What a segment descriptor says. -/
@[ext]
structure DecodedSegment where
  base : BitVec 32
  limit : BitVec 20
  access : BitVec 8
  flags : BitVec 4
deriving DecidableEq

namespace SegmentDescriptor
def limitLow : BitField := ⟨0, 16⟩
def baseLow : BitField := ⟨16, 16⟩
def baseMid : BitField := ⟨32, 8⟩
def access : BitField := ⟨40, 8⟩
def limitHigh : BitField := ⟨48, 4⟩
def flags : BitField := ⟨52, 4⟩
def baseHigh : BitField := ⟨56, 8⟩

def decode (d : BitVec 64) : DecodedSegment where
  base := baseHigh.get d ++ baseMid.get d ++ baseLow.get d
  limit := limitHigh.get d ++ limitLow.get d
  access := access.get d
  flags := flags.get d

/-- The address in a system descriptor of 16 bytes. -/
def address (lower higher : BitVec 64) : BitVec 64 :=
  BitField.get ⟨0, 32⟩ higher ++ (decode lower).base

end SegmentDescriptor

section Entry
open SegmentDescriptor

/-- Each field of a segment descriptor with the bits of the arguments put there. -/
def entryParts (base limit accessByte flags : BitVec 64) :
    List ((f : BitField) × BitVec f.width) :=
  [⟨limitLow, BitField.get ⟨0, 16⟩ limit⟩, ⟨baseLow, BitField.get ⟨0, 16⟩ base⟩,
    ⟨baseMid, BitField.get ⟨16, 8⟩ base⟩, ⟨access, BitField.get ⟨0, 8⟩ accessByte⟩,
    ⟨limitHigh, BitField.get ⟨16, 4⟩ limit⟩,
    ⟨SegmentDescriptor.flags, BitField.get ⟨0, 4⟩ flags⟩,
    ⟨baseHigh, BitField.get ⟨24, 8⟩ base⟩]

end Entry

theorem calcGDTEntry_eq_word (base limit accessByte flags : BitVec 64) :
    calcGDTEntry base limit accessByte flags =
      BitField.word 64 (entryParts base limit accessByte flags) := by
  have hplace := fun (x : BitVec 64) n k lo => (BitField.place_get x n k lo).symm
  unfold entryParts SegmentDescriptor.limitLow SegmentDescriptor.baseLow SegmentDescriptor.baseMid
    SegmentDescriptor.access SegmentDescriptor.limitHigh SegmentDescriptor.flags
    SegmentDescriptor.baseHigh
  simp only [BitField.word, List.foldr_cons, List.foldr_nil, hplace]
  simp [calcGDTEntry, BitVec.or_assoc]

theorem get_calcGDTEntry {base limit accessByte flags : BitVec 64}
    {part : (f : BitField) × BitVec f.width}
    (hmem : part ∈ entryParts base limit accessByte flags) :
    part.1.get (calcGDTEntry base limit accessByte flags) = part.2 := by
  have hapart : ((entryParts base limit accessByte flags).map Sigma.fst).Pairwise
      BitField.Apart := by
    show [SegmentDescriptor.limitLow, SegmentDescriptor.baseLow, SegmentDescriptor.baseMid,
      SegmentDescriptor.access, SegmentDescriptor.limitHigh, SegmentDescriptor.flags,
      SegmentDescriptor.baseHigh].Pairwise BitField.Apart
    decide
  have hinside : ∀ part ∈ entryParts base limit accessByte flags,
      part.1.lo + part.1.width ≤ 64 := by
    simp only [entryParts, List.forall_mem_cons]
    decide
  rw [calcGDTEntry_eq_word]
  exact BitField.get_word_of_mem hapart hmem (hinside part hmem)

section Decode
open SegmentDescriptor

theorem decode_calcGDTEntry (base limit accessByte flags : BitVec 64) :
    decode (calcGDTEntry base limit accessByte flags) =
      ⟨base.extractLsb' 0 32, limit.extractLsb' 0 20, accessByte.extractLsb' 0 8,
        flags.extractLsb' 0 4⟩ := by
  have hfields : ∀ part ∈ entryParts base limit accessByte flags,
      part.1.get (calcGDTEntry base limit accessByte flags) = part.2 :=
    fun _ hmem => get_calcGDTEntry hmem
  simp only [entryParts, List.forall_mem_cons] at hfields
  obtain ⟨hlimitLow, hbaseLow, hbaseMid, haccess, hlimitHigh, hflags, hbaseHigh, -⟩ := hfields
  have hlimit : BitField.get ⟨16, 4⟩ limit ++ BitField.get ⟨0, 16⟩ limit =
      limit.extractLsb' 0 20 := BitField.get_append_get limit 0 16 4
  have hbase : BitField.get ⟨24, 8⟩ base ++ BitField.get ⟨16, 8⟩ base ++
      BitField.get ⟨0, 16⟩ base = base.extractLsb' 0 32 := by
    have hupper : BitField.get ⟨24, 8⟩ base ++ BitField.get ⟨16, 8⟩ base =
        BitField.get ⟨16, 16⟩ base := BitField.get_append_get base 16 8 8
    rw [hupper]
    exact BitField.get_append_get base 0 16 16
  unfold decode
  rw [hlimitLow, hlimitHigh, hbaseLow, hbaseMid, hbaseHigh, haccess, hflags]
  exact DecodedSegment.ext hbase hlimit rfl rfl

end Decode

/-- The processor reads out of an entry what was put into it. -/
theorem decode_calcGDTEntry_setWidth (base : BitVec 32) (limit : BitVec 20) (access : BitVec 8)
    (flags : BitVec 4) :
    SegmentDescriptor.decode (calcGDTEntry (base.setWidth 64) (limit.setWidth 64)
      (access.setWidth 64) (flags.setWidth 64)) = ⟨base, limit, access, flags⟩ := by
  simp [decode_calcGDTEntry, BitVec.extractLsb'_setWidth_of_le, BitVec.extractLsb'_eq_self]

theorem address_descriptors (tss : BitVec 64) :
    SegmentDescriptor.address (gdtTSSDescriptorLower tss) (gdtTSSDescriptorHigher tss) = tss := by
  have hhigher : BitField.get ⟨0, 32⟩ (gdtTSSDescriptorHigher tss) = BitField.get ⟨32, 32⟩ tss := by
    have hplace := BitField.place_get tss 32 32 0
    unfold gdtTSSDescriptorHigher calcTSSDescriptorHigher
    rw [BitVec.shiftLeft_zero] at hplace
    rw [show (0xffffffff : BitVec 64) = BitVec.ofNat 64 (2 ^ 32 - 1) from rfl,
      hplace, show (0 : BitVec 64) = 0#64 from rfl, BitVec.zero_add]
    exact BitField.get_place_self (by decide)
  have hlower : (SegmentDescriptor.decode (gdtTSSDescriptorLower tss)).base =
      BitField.get ⟨0, 32⟩ tss := by
    unfold gdtTSSDescriptorLower
    rw [decode_calcGDTEntry]
    rfl
  have happend := BitField.get_append_get tss 0 32 32
  have hwhole : BitField.get ⟨0, 64⟩ tss = tss := BitVec.extractLsb'_eq_self
  unfold SegmentDescriptor.address
  rw [hhigher, hlower]
  exact happend.trans hwhole

/-! ## The tables of `gdtInit` and `idtInit` -/

def plUser : BitVec 8 := 3

/-- The table that `gdtInit` fills, for the address of `tss`. -/
def gdtTable (tss : BitVec 64) : List (BitVec 64) :=
  [calcGDTEntry 0 0 0 0,
    calcGDTEntry 0 0xfffff ((calcAccessByte 1 plKernel 1 1 0 1 0).setWidth 64)
      ((calcFlags 1 0 1).setWidth 64),
    calcGDTEntry 0 0xfffff ((calcAccessByte 1 plKernel 1 0 0 1 0).setWidth 64)
      ((calcFlags 1 1 0).setWidth 64),
    calcGDTEntry 0 0xfffff ((calcAccessByte 1 plUser 1 1 0 1 0).setWidth 64)
      ((calcFlags 1 0 1).setWidth 64),
    calcGDTEntry 0 0xfffff ((calcAccessByte 1 plUser 1 0 0 1 0).setWidth 64)
      ((calcFlags 1 1 0).setWidth 64),
    gdtTSSDescriptorLower tss, gdtTSSDescriptorHigher tss]

/-- `sizeof(gdt)`. -/
def sizeofGdt : BitVec 64 := 7 * 8

/-- The table has that size, and the descriptor that `ltr` selects by 40 holds the address of the
TSS. -/
theorem gdtTable_tss (tss : BitVec 64) : 8 * (gdtTable tss).length = sizeofGdt.toNat ∧
    SegmentDescriptor.address ((gdtTable tss).getD (40 / 8) 0)
      ((gdtTable tss).getD (40 / 8 + 1) 0) = tss :=
  ⟨rfl, address_descriptors tss⟩

/-- `sizeof(idt)`. -/
def sizeofIdt : BitVec 64 := 256 * 16

/-- The two words that `gdtInit` stores in `gdtr`. -/
def gdtrWords (gdt : BitVec 64) : BitVec 64 × BitVec 64 :=
  (gdt <<< 16 ||| (sizeofGdt - 1 &&& 0xffff), gdt >>> 48)

/-- The two words that `idtInit` stores in `idtr`. -/
def idtrWords (idt : BitVec 64) : BitVec 64 × BitVec 64 :=
  (idt <<< 16 ||| (sizeofIdt - 1 &&& 0xffff), idt >>> 48)

namespace TableRegister

/-- What `lgdt` and `lidt` read as the limit. -/
def limit (r : BitVec 64 × BitVec 64) : BitVec 16 := BitField.get ⟨0, 16⟩ r.1

/-- What `lgdt` and `lidt` read as the base: the eight bytes after the limit. -/
def base (r : BitVec 64 × BitVec 64) : BitVec 64 :=
  BitField.get ⟨0, 16⟩ r.2 ++ BitField.get ⟨16, 48⟩ r.1

/-- The processor reads out of the two words the address and the limit put into them. -/
theorem decode_words (table : BitVec 64) (size : BitVec 16) :
    limit (table <<< 16 ||| size.setWidth 64, table >>> 48) = size ∧
      base (table <<< 16 ||| size.setWidth 64, table >>> 48) = table := by
  constructor
  · ext i hi
    simp only [limit, BitField.get, BitVec.getElem_extractLsb']
    simp [show i < 64 by omega, show i < 16 by omega]
  · have hlow : BitField.get ⟨16, 48⟩ (table <<< 16 ||| size.setWidth 64) =
        BitField.get ⟨0, 48⟩ table := by
      ext i hi
      have hi : i < 48 := hi
      simp only [BitField.get, BitVec.getElem_extractLsb']
      simp [-BitVec.getLsbD_eq_getElem, show 16 + i < 64 by omega, show ¬16 + i < 16 by omega]
    have hhigh : BitField.get ⟨0, 16⟩ (table >>> 48) = BitField.get ⟨48, 16⟩ table := by
      ext i hi
      simp [BitField.get, BitVec.getElem_extractLsb']
    have happend := BitField.get_append_get table 0 48 16
    have hwhole : BitField.get ⟨0, 64⟩ table = table := BitVec.extractLsb'_eq_self
    unfold base
    rw [hlow, hhigh]
    exact happend.trans hwhole

end TableRegister

/-! ## Interrupt gates -/

/-- The two words of an `InterruptDescriptor`. -/
structure Gate where
  low : BitVec 64
  high : BitVec 64
deriving DecidableEq

namespace InterruptDescriptor
def offset0_15 : BitField := ⟨0, 16⟩
def segmentSelector : BitField := ⟨16, 16⟩
def ist : BitField := ⟨32, 3⟩
def zero1 : BitField := ⟨35, 5⟩
def type : BitField := ⟨40, 4⟩
def zero2 : BitField := ⟨44, 1⟩
def dpl : BitField := ⟨45, 2⟩
def p : BitField := ⟨47, 1⟩
def offset16_31 : BitField := ⟨48, 16⟩
/-- In the second word. -/
def offset32_63 : BitField := ⟨0, 32⟩
end InterruptDescriptor

def syscallInterruptNum : BitVec 8 := 0x80
def doubleFaultExcpNum : BitVec 8 := 8
def generalProtectionFaultExcpNum : BitVec 8 := 13

/-- The arguments of one call of `SetInterruptDescriptor`. -/
structure GateCall where
  interruptNumber : BitVec 8
  handler : BitVec 64
  present : BitVec 32
deriving DecidableEq

section Fill
open InterruptDescriptor

/-- The assignments to one element of `idt`. -/
def GateCall.fill (c : GateCall) (g : Gate) : Gate :=
  let low := offset0_15.set (c.handler.setWidth 16) g.low
  let low := segmentSelector.set 8 low
  let low := ist.set 0 low
  let low := zero1.set 0 low
  let low := type.set 0xe low
  let low := zero2.set 0 low
  let low := dpl.set (if c.interruptNumber = syscallInterruptNum then 3 else 0) low
  let low := p.set (c.present.setWidth 1) low
  let low := offset16_31.set ((c.handler >>> 16).setWidth 16) low
  { low := low, high := offset32_63.set ((c.handler >>> 32).setWidth 32) g.high }

end Fill

def setInterruptDescriptor (idt : BitVec 8 → Gate) (c : GateCall) : BitVec 8 → Gate :=
  update idt c.interruptNumber (c.fill (idt c.interruptNumber))

/-- The calls of `idtInit`, for the addresses of its three handlers. -/
def idtInitCalls (default doubleFault generalProtection : BitVec 64) : List GateCall :=
  (List.range 256).map (fun i => ⟨BitVec.ofNat 8 i, default, 0⟩) ++
    [⟨doubleFaultExcpNum, doubleFault, 1⟩, ⟨generalProtectionFaultExcpNum, generalProtection, 1⟩]

namespace Gate

/-- The handler's address in a gate. -/
def offset (g : Gate) : BitVec 64 :=
  InterruptDescriptor.offset32_63.get g.high ++
    (InterruptDescriptor.offset16_31.get g.low ++ InterruptDescriptor.offset0_15.get g.low)

def dpl (g : Gate) : BitVec 2 := InterruptDescriptor.dpl.get g.low

def present (g : Gate) : BitVec 1 := InterruptDescriptor.p.get g.low

end Gate

section Filled
open InterruptDescriptor

/-- The fields of the first word with what is assigned to them, in the order of the source. -/
def GateCall.lowParts (c : GateCall) : List ((f : BitField) × BitVec f.width) :=
  [⟨offset0_15, c.handler.setWidth 16⟩, ⟨segmentSelector, (8 : BitVec 16)⟩, ⟨ist, (0 : BitVec 3)⟩,
    ⟨zero1, (0 : BitVec 5)⟩, ⟨type, (0xe : BitVec 4)⟩, ⟨zero2, (0 : BitVec 1)⟩,
    ⟨dpl, if c.interruptNumber = syscallInterruptNum then (3 : BitVec 2) else 0⟩,
    ⟨p, c.present.setWidth 1⟩, ⟨offset16_31, (c.handler >>> 16).setWidth 16⟩]

/-- A gate that was filled is read as the call that filled it. -/
theorem GateCall.decode_fill (c : GateCall) (g : Gate) :
    (c.fill g).offset = c.handler ∧ (c.fill g).present = c.present.setWidth 1 ∧
      (c.fill g).dpl = if c.interruptNumber = syscallInterruptNum then 3 else 0 := by
  have hapart : (c.lowParts.map Sigma.fst).Pairwise BitField.Apart := by
    show [offset0_15, segmentSelector, ist, zero1, type, zero2, dpl, p, offset16_31].Pairwise
      BitField.Apart
    decide
  have hinside : ∀ part ∈ c.lowParts, part.1.lo + part.1.width ≤ 64 := by
    simp only [lowParts, List.forall_mem_cons]
    decide
  have hfields : ∀ part ∈ c.lowParts, part.1.get (c.fill g).low = part.2 := fun part hmem =>
    BitField.get_assign_of_mem hapart hmem (hinside part hmem)
  simp only [lowParts, List.forall_mem_cons] at hfields
  obtain ⟨hlow, -, -, -, -, -, hdpl, hp, hmid, -⟩ := hfields
  have hhigh : offset32_63.get (c.fill g).high = (c.handler >>> 32).setWidth 32 :=
    BitField.get_set_self (by decide)
  refine ⟨?_, hp, hdpl⟩
  have hlow : offset0_15.get (c.fill g).low = BitField.get ⟨0, 16⟩ c.handler :=
    hlow.trans (BitVec.setWidth_eq_extractLsb' (by decide))
  have hmid : offset16_31.get (c.fill g).low = BitField.get ⟨16, 16⟩ c.handler :=
    hmid.trans BitVec.setWidth_ushiftRight_eq_extractLsb
  have hhigh : offset32_63.get (c.fill g).high = BitField.get ⟨32, 32⟩ c.handler :=
    hhigh.trans BitVec.setWidth_ushiftRight_eq_extractLsb
  have hlower : BitField.get ⟨16, 16⟩ c.handler ++ BitField.get ⟨0, 16⟩ c.handler =
      BitField.get ⟨0, 32⟩ c.handler := BitField.get_append_get c.handler 0 16 16
  have hupper : BitField.get ⟨32, 32⟩ c.handler ++ BitField.get ⟨0, 32⟩ c.handler =
      BitField.get ⟨0, 64⟩ c.handler := BitField.get_append_get c.handler 0 32 32
  have hwhole : BitField.get ⟨0, 64⟩ c.handler = c.handler := BitVec.extractLsb'_eq_self
  unfold Gate.offset
  rw [hlow, hmid, hhigh]
  exact (congrArg (BitField.get ⟨32, 32⟩ c.handler ++ ·) hlower).trans (hupper.trans hwhole)

end Filled

@[simp]
theorem setInterruptDescriptor_self (idt : BitVec 8 → Gate) (c : GateCall) :
    setInterruptDescriptor idt c c.interruptNumber = c.fill (idt c.interruptNumber) :=
  update_self ..

theorem setInterruptDescriptor_of_ne {idt : BitVec 8 → Gate} {c : GateCall} {vector : BitVec 8}
    (h : c.interruptNumber ≠ vector) : setInterruptDescriptor idt c vector = idt vector :=
  update_of_ne (Ne.symm h) ..

/-- What the last call for a vector, if there is one, leaves in its gate. -/
def Gate.LeftBy (before after : Gate) (vector : BitVec 8) : Option GateCall → Prop
  | none => after = before
  | some c => after.offset = c.handler ∧ after.present = c.present.setWidth 1 ∧
      after.dpl = if vector = syscallInterruptNum then 3 else 0

/-- After any sequence of calls each gate is as the last call for its vector left it. -/
theorem leftBy_foldl (idt : BitVec 8 → Gate) (calls : List GateCall) (vector : BitVec 8) :
    Gate.LeftBy (idt vector) (calls.foldl setInterruptDescriptor idt vector) vector
      (calls.filter fun c => c.interruptNumber = vector).getLast? := by
  induction calls using List.reverseRec with
  | nil => rfl
  | append_singleton calls c ih =>
    rw [List.foldl_append, List.filter_append]
    show Gate.LeftBy _ (setInterruptDescriptor _ c vector) _ _
    by_cases hvector : c.interruptNumber = vector
    · subst hvector
      simp only [decide_true, List.filter_cons_of_pos, List.filter_nil, List.getLast?_concat,
        setInterruptDescriptor_self]
      exact c.decode_fill _
    · rw [setInterruptDescriptor_of_ne hvector]
      simpa [hvector] using ih

theorem getLast?_idtInitCalls (default doubleFault generalProtection : BitVec 64)
    (vector : BitVec 8) :
    ((idtInitCalls default doubleFault generalProtection).filter fun c =>
        c.interruptNumber = vector).getLast? =
      if vector = generalProtectionFaultExcpNum then some ⟨vector, generalProtection, 1⟩
      else if vector = doubleFaultExcpNum then some ⟨vector, doubleFault, 1⟩
      else some ⟨vector, default, 0⟩ := by
  unfold idtInitCalls
  rw [List.filter_append, List.getLast?_append]
  split_ifs with hgeneral hdouble
  · subst hgeneral
    rfl
  · subst hdouble
    rfl
  · have hnone : [GateCall.mk doubleFaultExcpNum doubleFault 1,
        ⟨generalProtectionFaultExcpNum, generalProtection, 1⟩].filter
          (fun c => c.interruptNumber = vector) = [] := by
      simp [Ne.symm hgeneral, Ne.symm hdouble]
    have hmem : GateCall.mk vector default 0 ∈
        ((List.range 256).map fun i => GateCall.mk (BitVec.ofNat 8 i) default 0).filter
          (fun c => c.interruptNumber = vector) := by
      refine List.mem_filter.mpr ⟨?_, by simp⟩
      exact List.mem_map.mpr ⟨vector.toNat, List.mem_range.mpr vector.isLt, by simp⟩
    rw [hnone, List.getLast?_nil, Option.none_or, List.getLast?_eq_some_getLast
      (List.ne_nil_of_mem hmem)]
    -- every default call for the vector is the same call
    have hsome := List.mem_filter.mp (List.getLast_mem (List.ne_nil_of_mem hmem))
    obtain ⟨i, -, hi⟩ := List.mem_map.mp hsome.1
    rw [← hi] at hsome ⊢
    simpa using hsome.2

/-- After `idtInit` the two exceptions have their own handlers, every other vector the default. -/
theorem idtInit_gates (idt : BitVec 8 → Gate)
    (default doubleFault generalProtection : BitVec 64) (vector : BitVec 8) :
    let g := (idtInitCalls default doubleFault generalProtection).foldl setInterruptDescriptor idt
      vector
    g.offset = (if vector = generalProtectionFaultExcpNum then generalProtection
      else if vector = doubleFaultExcpNum then doubleFault else default) ∧
    (g.present = 1 ↔ vector = doubleFaultExcpNum ∨ vector = generalProtectionFaultExcpNum) := by
  have hleft := leftBy_foldl idt (idtInitCalls default doubleFault generalProtection) vector
  rw [getLast?_idtInitCalls] at hleft
  dsimp only
  split_ifs at hleft ⊢ with hgeneral hdouble <;>
    simp_all [Gate.LeftBy]

/-- The processor reads out of the descriptor tables what their encoders were given. -/
theorem descriptors_decode :
    (∀ (base : BitVec 32) (limit : BitVec 20) (access : BitVec 8) (flags : BitVec 4),
      SegmentDescriptor.decode (calcGDTEntry (base.setWidth 64) (limit.setWidth 64)
        (access.setWidth 64) (flags.setWidth 64)) = ⟨base, limit, access, flags⟩) ∧
    (∀ tss, SegmentDescriptor.address (gdtTSSDescriptorLower tss) (gdtTSSDescriptorHigher tss) =
      tss) ∧
    (∀ gdt, TableRegister.base (gdtrWords gdt) = gdt ∧
      (TableRegister.limit (gdtrWords gdt)).toNat = sizeofGdt.toNat - 1) ∧
    (∀ idt, TableRegister.base (idtrWords idt) = idt ∧
      (TableRegister.limit (idtrWords idt)).toNat = sizeofIdt.toNat - 1) ∧
    ∀ (idt : BitVec 8 → Gate) (calls : List GateCall) (vector : BitVec 8),
      Gate.LeftBy (idt vector) (calls.foldl setInterruptDescriptor idt vector) vector
        (calls.filter fun c => c.interruptNumber = vector).getLast? := by
  refine ⟨decode_calcGDTEntry_setWidth, address_descriptors, fun gdt => ?_, fun idt => ?_,
    leftBy_foldl⟩
  · obtain ⟨hlimit, hbase⟩ := TableRegister.decode_words gdt 55
    exact ⟨hbase, congrArg BitVec.toNat hlimit⟩
  · obtain ⟨hlimit, hbase⟩ := TableRegister.decode_words idt 4095
    exact ⟨hbase, congrArg BitVec.toNat hlimit⟩

end Amaterasu
