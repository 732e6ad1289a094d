import Amaterasu.Library.InterruptController
import Mathlib.Tactic.Common

/-! The interrupt controllers as the kernel programs them. -/

namespace Amaterasu
open Function InterruptController

def picMasterCommandStatus : BitVec 16 := 0x20
def picMasterData : BitVec 16 := 0x21
def picSlaveCommandStatus : BitVec 16 := 0xa0
def picSlaveData : BitVec 16 := 0xa1
def picMasterInterruptNum : BitVec 8 := 32
def picSlaveInterruptNum : BitVec 8 := 40
def picEOI : BitVec 8 := 0x60

/-- `OutByte` to the ports of the controllers. -/
def outByte (p : Pair) (port : BitVec 16) (v : BitVec 8) : Pair :=
  if port = picMasterCommandStatus then { p with master := p.master.writeCommand v }
  else if port = picMasterData then { p with master := p.master.writeData v }
  else if port = picSlaveCommandStatus then { p with slave := p.slave.writeCommand v }
  else if port = picSlaveData then { p with slave := p.slave.writeData v }
  else p

/-- `InByte` from their data ports. -/
def inByte (p : Pair) (port : BitVec 16) : BitVec 8 :=
  if port = picMasterData then p.master.imr
  else if port = picSlaveData then p.slave.imr
  else 0

def picInit (p : Pair) : Pair :=
  let p := outByte p picMasterCommandStatus 0x11
  let p := outByte p picSlaveCommandStatus 0x11
  let p := outByte p picMasterData picMasterInterruptNum
  let p := outByte p picSlaveData picSlaveInterruptNum
  let p := outByte p picMasterData 0x4
  let p := outByte p picSlaveData 0x2
  let p := outByte p picMasterData 0x1
  let p := outByte p picSlaveData 0x1
  let p := outByte p picMasterData 0xff
  outByte p picSlaveData 0xff

/-- The end of `EnableInterruptOnPIC`, for the master. -/
def enableOnMaster (p : Pair) (interruptOffset : BitVec 8) : Pair :=
  let interruptBit := (1 : BitVec 8) <<< interruptOffset
  let IMR := inByte p picMasterData
  -- when already enabled
  if IMR &&& interruptBit = 0 then p
  else outByte p picMasterData (IMR - interruptBit)

def enableInterruptOnPIC (p : Pair) (interruptNum : BitVec 8) : Pair :=
  if picMasterInterruptNum ≤ interruptNum ∧ interruptNum < picSlaveInterruptNum then
    enableOnMaster p (interruptNum - picMasterInterruptNum)
  else if picSlaveInterruptNum ≤ interruptNum ∧ interruptNum < picSlaveInterruptNum + 8 then
    let interruptOffset := interruptNum - picSlaveInterruptNum
    let interruptBit := (1 : BitVec 8) <<< interruptOffset
    let IMR := inByte p picSlaveData
    let p := if IMR &&& interruptBit ≠ 0 then outByte p picSlaveData (IMR - interruptBit) else p
    enableOnMaster p 2
  else p

def sendEndOfInterrupt (p : Pair) (interruptNum : BitVec 8) : Pair :=
  if picMasterInterruptNum ≤ interruptNum ∧ interruptNum < picSlaveInterruptNum then
    let irq := interruptNum - picMasterInterruptNum
    outByte p picMasterCommandStatus (picEOI ||| irq)
  else if picSlaveInterruptNum ≤ interruptNum ∧ interruptNum < picSlaveInterruptNum + 8 then
    let irq := interruptNum - picSlaveInterruptNum
    let p := outByte p picMasterCommandStatus (picEOI ||| 0x2)
    outByte p picSlaveCommandStatus (picEOI ||| irq)
  else p

/-! ## Lines and vectors -/

/-- The line that a vector stands for. -/
def lineOf (interruptNum : BitVec 8) : Option Line :=
  let i : Fin 8 := (interruptNum.extractLsb' 0 3).toFin
  if picMasterInterruptNum ≤ interruptNum ∧ interruptNum < picSlaveInterruptNum then
    some (.master i)
  else if picSlaveInterruptNum ≤ interruptNum ∧ interruptNum < picSlaveInterruptNum + 8 then
    some (.slave i)
  else none

def vectorOf : Line → BitVec 8
  | .master i => picMasterInterruptNum + BitVec.ofNat 8 i
  | .slave i => picSlaveInterruptNum + BitVec.ofNat 8 i

theorem lineOf_vectorOf (a : Line) : lineOf (vectorOf a) = some a := by
  cases a <;> decide +revert

theorem lineOf_eq_some_iff {n : BitVec 8} {a : Line} : lineOf n = some a ↔ n = vectorOf a := by
  constructor
  · intro h
    have hall : ∀ n : BitVec 8, ∀ a ∈ lineOf n, n = vectorOf a := by decide +kernel
    exact hall n a h
  · rintro rfl
    exact lineOf_vectorOf a

theorem master_vector (i : Fin 8) :
    (picMasterInterruptNum ≤ vectorOf (.master i) ∧
      vectorOf (.master i) < picSlaveInterruptNum) ∧
    vectorOf (.master i) - picMasterInterruptNum = BitVec.ofNat 8 i := by
  decide +revert

theorem slave_vector (i : Fin 8) :
    ¬(picMasterInterruptNum ≤ vectorOf (.slave i) ∧
      vectorOf (.slave i) < picSlaveInterruptNum) ∧
    (picSlaveInterruptNum ≤ vectorOf (.slave i) ∧
      vectorOf (.slave i) < picSlaveInterruptNum + 8) ∧
    vectorOf (.slave i) - picSlaveInterruptNum = BitVec.ofNat 8 i := by
  decide +revert

/-- Both chips wait for masks and commands, and know their vectors. -/
structure Programmed (p : Pair) : Prop where
  masterPhase : p.master.phase = .ready
  slavePhase : p.slave.phase = .ready
  masterBase : p.master.base = picMasterInterruptNum
  slaveBase : p.slave.base = picSlaveInterruptNum

section Spec
variable {p : Pair} {n : BitVec 8} {a : Line}

theorem Programmed.vector_eq (h : Programmed p) (a : Line) : p.vector a = vectorOf a := by
  cases a <;> simp [Pair.vector, vectorOf, h.masterBase, h.slaveBase]

theorem clearBit (IMR : BitVec 8) (i : Fin 8) :
    IMR &&& ~~~bit i = if IMR &&& bit i = 0 then IMR else IMR - bit i := by
  have hall : ∀ IMR : BitVec 8, ∀ i : Fin 8,
      IMR &&& ~~~bit i = if IMR &&& bit i = 0 then IMR else IMR - bit i := by decide +kernel
  exact hall IMR i

theorem shift_eq_bit (i : Fin 8) : (1 : BitVec 8) <<< BitVec.ofNat 8 i = bit i := by
  decide +revert

theorem enableOnMaster_eq (h : p.master.phase = .ready) (i : Fin 8) :
    enableOnMaster p (BitVec.ofNat 8 i) = { p with master := p.master.unmask i } := by
  unfold enableOnMaster Chip.unmask
  rw [shift_eq_bit, clearBit]
  show (if p.master.imr &&& bit i = 0 then p
    else { p with master := p.master.writeData (p.master.imr - bit i) }) = _
  split_ifs
  · rfl
  · unfold Chip.writeData
    rw [h]

/-- The same for the slave alone. -/
theorem enableOnSlave_eq (h : p.slave.phase = .ready) (i : Fin 8) :
    (if p.slave.imr &&& bit i ≠ 0 then outByte p picSlaveData (p.slave.imr - bit i) else p) =
      { p with slave := p.slave.unmask i } := by
  unfold Chip.unmask
  rw [clearBit]
  show (if p.slave.imr &&& bit i ≠ 0 then
    { p with slave := p.slave.writeData (p.slave.imr - bit i) } else p) = _
  by_cases hbit : p.slave.imr &&& bit i = 0
  · rw [if_pos hbit, if_neg (not_not.mpr hbit)]
  · rw [if_neg hbit, if_pos hbit]
    unfold Chip.writeData
    rw [h]

/-- What `EnableInterruptOnPIC` does for any number. -/
theorem enableInterruptOnPIC_eq (h : Programmed p) (n : BitVec 8) :
    enableInterruptOnPIC p n = (lineOf n).elim p p.unmask := by
  cases hline : lineOf n with
  | none =>
    unfold lineOf at hline
    unfold enableInterruptOnPIC
    split_ifs at hline ⊢ with h1 h2
    · rfl
  | some a =>
    obtain rfl := lineOf_eq_some_iff.mp hline
    cases a with
    | master i =>
      obtain ⟨hrange, hoffset⟩ := master_vector i
      unfold enableInterruptOnPIC
      rw [if_pos hrange, hoffset, enableOnMaster_eq h.masterPhase]
      rfl
    | slave i =>
      obtain ⟨hmaster, hrange, hoffset⟩ := slave_vector i
      unfold enableInterruptOnPIC
      rw [if_neg hmaster, if_pos hrange, hoffset]
      dsimp only
      rw [shift_eq_bit]
      exact (congrArg (enableOnMaster · 2) (enableOnSlave_eq h.slavePhase i)).trans
        (enableOnMaster_eq (p := { p with slave := p.slave.unmask i }) h.masterPhase cascadeLine)

theorem specificEnd_command (c : Chip) (i : Fin 8) :
    c.writeCommand (picEOI ||| BitVec.ofNat 8 i) = c.specificEnd i := by
  have hbits : (picEOI ||| BitVec.ofNat 8 i).getLsbD 4 = false ∧
      (picEOI ||| BitVec.ofNat 8 i).getLsbD 3 = false ∧
      (picEOI ||| BitVec.ofNat 8 i).extractLsb' 5 3 = 3 ∧
      ((picEOI ||| BitVec.ofNat 8 i).extractLsb' 0 3).toFin = i := by
    decide +revert
  obtain ⟨h4, h3, h5, h0⟩ := hbits
  unfold Chip.writeCommand
  rw [h4, h3, h5]
  exact congrArg c.specificEnd h0

/-- What `SendEndOfInterrupt` does for any number. -/
theorem sendEndOfInterrupt_eq (p : Pair) (n : BitVec 8) :
    sendEndOfInterrupt p n = (lineOf n).elim p p.finish := by
  cases hline : lineOf n with
  | none =>
    unfold lineOf at hline
    unfold sendEndOfInterrupt
    split_ifs at hline ⊢ with h1 h2
    · rfl
  | some a =>
    obtain rfl := lineOf_eq_some_iff.mp hline
    cases a with
    | master i =>
      obtain ⟨hrange, hoffset⟩ := master_vector i
      unfold sendEndOfInterrupt
      rw [if_pos hrange, hoffset]
      show ({ p with master := p.master.writeCommand (picEOI ||| BitVec.ofNat 8 i) } : Pair) = _
      rw [specificEnd_command]
      rfl
    | slave i =>
      obtain ⟨hmaster, hrange, hoffset⟩ := slave_vector i
      unfold sendEndOfInterrupt
      rw [if_neg hmaster, if_pos hrange, hoffset]
      show (⟨p.master.writeCommand (picEOI ||| BitVec.ofNat 8 cascadeLine),
        p.slave.writeCommand (picEOI ||| BitVec.ofNat 8 i)⟩ : Pair) = _
      rw [specificEnd_command, specificEnd_command]
      rfl

end Spec

/-! ## Runs -/

/-- `interrupt` is the processor's, which takes an interrupt when it handles none. -/
inductive PicEvent
  | request (a : Line)
  | enableInterruptOnPIC (interruptNum : BitVec 8)
  | sendEndOfInterrupt (interruptNum : BitVec 8)
  | interrupt

/-- A handler ends with `SendEndOfInterrupt` for its own vector. -/
structure PicSystem where
  pic : Pair
  handling : Option (BitVec 8)
  delivered : List (BitVec 8)

def PicSystem.step (s : PicSystem) : PicEvent → PicSystem
  | .request a => { s with pic := s.pic.request a }
  | .enableInterruptOnPIC n => { s with pic := Amaterasu.enableInterruptOnPIC s.pic n }
  | .sendEndOfInterrupt n =>
    { s with
      pic := Amaterasu.sendEndOfInterrupt s.pic n
      handling := if s.handling = some n then none else s.handling }
  | .interrupt =>
    if s.handling.isSome then s
    else s.pic.acknowledge.elim s fun r =>
      { pic := r.2, handling := some r.1, delivered := s.delivered ++ [r.1] }

/-- After `picInit`. -/
def PicSystem.start (p : Pair) : PicSystem := ⟨picInit p, none, []⟩

/-- The same for lines. -/
def requestsStep (r : Requests) : PicEvent → Requests
  | .request a => r.request a
  | .enableInterruptOnPIC n => (lineOf n).elim r r.enable
  | .sendEndOfInterrupt n => (lineOf n).elim r r.finish
  | .interrupt => r.take

def noRequests : Requests := ⟨fun _ => false, fun _ => false, none, []⟩

structure PicSystem.Shows (s : PicSystem) (r : Requests) : Prop where
  programmed : Programmed s.pic
  pic : s.pic.Shows r
  handling : s.handling = r.serving.map vectorOf
  delivered : s.delivered = r.delivered.map vectorOf

section Runs
variable {p : Pair} {s : PicSystem} {r : Requests} {a : Line} {n : BitVec 8}

theorem Programmed.request (h : Programmed p) (a : Line) : Programmed (p.request a) := by
  cases a <;> exact ⟨h.1, h.2, h.3, h.4⟩

theorem Programmed.unmask (h : Programmed p) (a : Line) : Programmed (p.unmask a) := by
  cases a <;> exact ⟨h.1, h.2, h.3, h.4⟩

theorem Programmed.finish (h : Programmed p) (a : Line) : Programmed (p.finish a) := by
  cases a <;> exact ⟨h.1, h.2, h.3, h.4⟩

theorem Programmed.accept (h : Programmed p) (a : Line) : Programmed (p.accept a) := by
  cases a <;> exact ⟨h.1, h.2, h.3, h.4⟩

theorem picInit_programmed (p : Pair) : Programmed (picInit p) := ⟨rfl, rfl, rfl, rfl⟩

theorem picInit_shows (p : Pair) : (picInit p).Shows noRequests := by
  have hmask : ∀ i, has 0xff i = true := by decide
  refine ⟨⟨rfl, rfl, rfl, rfl⟩, ⟨rfl, rfl⟩, fun a ha => absurd ha.symm (Option.some_ne_none a),
    fun a _ => ?_, fun a _ => ?_, fun i hi => absurd hi Bool.false_ne_true⟩
  · cases a with
    | master i => exact has_zero i
    | slave i => exact has_zero i
  · cases a with
    | master i => exact congrArg not (hmask i)
    | slave i => exact congrArg not (hmask i)

theorem vectorOf_injective : Injective vectorOf := fun a b h =>
  Option.some.inj ((lineOf_vectorOf a).symm.trans (h ▸ lineOf_vectorOf b))

theorem Programmed.enableInterruptOnPIC (h : Programmed p) (n : BitVec 8) :
    Programmed (enableInterruptOnPIC p n) := by
  rw [enableInterruptOnPIC_eq h]
  cases lineOf n with
  | none => exact h
  | some a => exact h.unmask a

theorem Programmed.sendEndOfInterrupt (h : Programmed p) (n : BitVec 8) :
    Programmed (sendEndOfInterrupt p n) := by
  rw [sendEndOfInterrupt_eq]
  cases lineOf n with
  | none => exact h
  | some a => exact h.finish a

theorem shows_enable (hp : Programmed p) (h : p.Shows r) (n : BitVec 8) :
    (enableInterruptOnPIC p n).Shows ((lineOf n).elim r r.enable) := by
  rw [enableInterruptOnPIC_eq hp]
  cases lineOf n with
  | none => exact h
  | some a => exact h.unmask a

theorem shows_end (h : p.Shows r) (n : BitVec 8) :
    (sendEndOfInterrupt p n).Shows ((lineOf n).elim r r.finish) := by
  rw [sendEndOfInterrupt_eq]
  cases lineOf n with
  | none => exact h
  | some a => exact h.finish a

theorem handling_end {handling : Option (BitVec 8)} (h : handling = r.serving.map vectorOf)
    (n : BitVec 8) : (if handling = some n then none else handling) =
      ((lineOf n).elim r r.finish).serving.map vectorOf := by
  subst h
  cases hline : lineOf n with
  | none =>
    have hother : r.serving.map vectorOf ≠ some n := by
      intro hn
      obtain ⟨a, -, rfl⟩ := Option.map_eq_some_iff.mp hn
      exact absurd ((lineOf_vectorOf a).symm.trans hline) (Option.some_ne_none a)
    exact if_neg hother
  | some a =>
    obtain rfl := lineOf_eq_some_iff.mp hline
    have hsame : r.serving.map vectorOf = some (vectorOf a) ↔ r.serving = some a :=
      (Option.map_injective vectorOf_injective).eq_iff (b := some a)
    show _ = (if r.serving = some a then none else r.serving).map vectorOf
    rw [apply_ite (Option.map vectorOf)]
    exact if_congr hsame rfl rfl

theorem PicSystem.Shows.interrupt (h : s.Shows r) : (s.step .interrupt).Shows r.take := by
  have hisSome : s.handling.isSome = r.serving.isSome := by
    rw [h.handling, Option.isSome_map]
  unfold step
  rw [hisSome]
  cases hserving : r.serving with
  | some a =>
    have htake : r.take = r := by
      unfold Requests.take
      rw [hserving]
    rw [htake]
    exact h
  | none =>
    have hack := h.pic.acknowledge hserving
    cases hline : lines.find? fun a => r.latched a && r.enabled a with
    | none =>
      rw [hline] at hack
      have htake : r.take = r := by
        unfold Requests.take
        rw [hserving, hline]
      rw [htake, hack]
      exact h
    | some a =>
      rw [hline] at hack
      obtain ⟨hack, hshows⟩ := hack
      have htake : r.take = { r with
          latched := update r.latched a false
          serving := some a
          delivered := r.delivered ++ [a] } := by
        unfold Requests.take
        rw [hserving, hline]
      rw [hack, h.programmed.vector_eq]
      refine ⟨h.programmed.accept a, hshows, ?_, ?_⟩
      · rw [htake]
        rfl
      · rw [htake, List.map_append, ← h.delivered]
        rfl

theorem PicSystem.Shows.step (h : s.Shows r) (e : PicEvent) : (s.step e).Shows (requestsStep r e) := by
  cases e with
  | request a => exact ⟨h.programmed.request a, h.pic.request a, h.handling, h.delivered⟩
  | enableInterruptOnPIC n =>
    have hserving : ((lineOf n).elim r r.enable).serving = r.serving ∧
        ((lineOf n).elim r r.enable).delivered = r.delivered := by
      cases lineOf n <;> exact ⟨rfl, rfl⟩
    refine ⟨h.programmed.enableInterruptOnPIC n, shows_enable h.programmed h.pic n, ?_, ?_⟩
    · exact h.handling.trans (congrArg _ hserving.1.symm)
    · exact h.delivered.trans (congrArg _ hserving.2.symm)
  | sendEndOfInterrupt n =>
    have hdelivered : ((lineOf n).elim r r.finish).delivered = r.delivered := by
      cases lineOf n <;> rfl
    refine ⟨h.programmed.sendEndOfInterrupt n, shows_end h.pic n, handling_end h.handling n, ?_⟩
    exact h.delivered.trans (congrArg _ hdelivered.symm)
  | interrupt => exact h.interrupt

theorem PicSystem.Shows.run (h : s.Shows r) (es : List PicEvent) :
    (es.foldl PicSystem.step s).Shows (es.foldl requestsStep r) := by
  induction es generalizing s r with
  | nil => exact h
  | cons e es ih => exact ih (h.step e)

/-- In whatever state the controllers are before `picInit`, and in whatever order devices request,
the kernel enables lines and handlers end: the processor is given exactly the interrupts that are
due. -/
theorem pic_delivers (p : Pair) (es : List PicEvent) :
    (es.foldl PicSystem.step (.start p)).delivered =
      (es.foldl requestsStep noRequests).delivered.map vectorOf := by
  have hstart : (PicSystem.start p).Shows noRequests :=
    ⟨picInit_programmed p, picInit_shows p, rfl, rfl⟩
  exact (hstart.run es).delivered

end Runs
end Amaterasu
