import Mathlib.Data.Fintype.Basic
import Mathlib.Data.List.Find

/-! Two interrupt controllers of the 8259A kind, one of which reports its requests on a line of the
other one, in fully nested mode and with edge-triggered requests. Polling, the special modes and the
rotation of priorities are left out. -/

namespace InterruptController
open Function

def bit (i : Fin 8) : BitVec 8 := 1 <<< (i : Nat)

def has (b : BitVec 8) (i : Fin 8) : Bool := b.getLsbD i

/-- The line of highest priority that satisfies `p`. -/
def first (p : Fin 8 → Bool) : Option (Fin 8) := (List.finRange 8).find? p

/-- What the data port expects: a mask, or the rest of the initialization. -/
inductive Phase
  | ready | icw2 | icw3 | icw4
deriving DecidableEq

/-- The requests, those in service, the masked ones, and what the initialization sets. -/
structure Chip where
  irr : BitVec 8
  isr : BitVec 8
  imr : BitVec 8
  base : BitVec 8
  cascade : BitVec 8
  autoEnd : Bool
  single : Bool
  needsIcw4 : Bool
  phase : Phase
deriving DecidableEq

namespace Chip

def specificEnd (c : Chip) (i : Fin 8) : Chip := { c with isr := c.isr &&& ~~~bit i }

def writeCommand (c : Chip) (v : BitVec 8) : Chip :=
  if v.getLsbD 4 then
    { c with
      irr := 0
      isr := 0
      imr := 0
      autoEnd := false
      single := v.getLsbD 1
      needsIcw4 := v.getLsbD 0
      phase := .icw2 }
  else if v.getLsbD 3 then c
  else
    match v.extractLsb' 5 3 with
    | 1 =>
      match first (has c.isr) with
      | some i => c.specificEnd i
      | none => c
    | 3 => c.specificEnd (v.extractLsb' 0 3).toFin
    | _ => c

def writeData (c : Chip) (v : BitVec 8) : Chip :=
  let last : Phase := if c.needsIcw4 then .icw4 else .ready
  match c.phase with
  | .ready => { c with imr := v }
  | .icw2 => { c with base := v &&& 0xf8, phase := if c.single then last else .icw3 }
  | .icw3 => { c with cascade := v, phase := last }
  | .icw4 => { c with autoEnd := v.getLsbD 1, phase := .ready }

def asks (c : Chip) (i : Fin 8) : Bool := has c.irr i && !has c.imr i

/-- The request that the chip reports: nothing of the same or of a higher priority is in service. -/
def next (c : Chip) : Option (Fin 8) :=
  (first c.asks).filter fun i => (List.finRange 8).all fun j => !(j ≤ i && has c.isr j)

def unmask (c : Chip) (i : Fin 8) : Chip := { c with imr := c.imr &&& ~~~bit i }

def request (c : Chip) (i : Fin 8) : Chip := { c with irr := c.irr ||| bit i }

def accept (c : Chip) (i : Fin 8) : Chip :=
  { c with irr := c.irr &&& ~~~bit i, isr := if c.autoEnd then c.isr else c.isr ||| bit i }

end Chip

structure Pair where
  master : Chip
  slave : Chip
deriving DecidableEq

/-- The master's line to which the slave is connected. -/
def cascadeLine : Fin 8 := 2

inductive Line
  | master (i : Fin 8)
  | slave (i : Fin 8)
deriving DecidableEq

/-- The lines for devices, that of highest priority first. -/
def lines : List Line :=
  (List.finRange 8).flatMap fun i =>
    if i = cascadeLine then (List.finRange 8).map .slave else [.master i]

namespace Pair

def request (p : Pair) : Line → Pair
  | .master i => { p with master := p.master.request i }
  | .slave i => { p with slave := p.slave.request i }

/-- The master as the slave's output sets its line. -/
def wired (p : Pair) : Chip :=
  { p.master with irr :=
    if p.slave.next.isSome then p.master.irr ||| bit cascadeLine
    else p.master.irr &&& ~~~bit cascadeLine }

def vector (p : Pair) : Line → BitVec 8
  | .master i => p.master.base + BitVec.ofNat 8 i
  | .slave i => p.slave.base + BitVec.ofNat 8 i

def accept (p : Pair) : Line → Pair
  | .master i => { p with master := p.master.accept i }
  | .slave i => { master := p.master.accept cascadeLine, slave := p.slave.accept i }

/-- The end of the service of a line, told to the chips that it went through. -/
def finish (p : Pair) : Line → Pair
  | .master i => { p with master := p.master.specificEnd i }
  | .slave i =>
    { master := p.master.specificEnd cascadeLine, slave := p.slave.specificEnd i }

/-- A slave's line is opened in both chips. -/
def unmask (p : Pair) : Line → Pair
  | .master i => { p with master := p.master.unmask i }
  | .slave i => { master := p.master.unmask cascadeLine, slave := p.slave.unmask i }

/-- What the processor reads when it acknowledges an interrupt. -/
def acknowledge (p : Pair) : Option (BitVec 8 × Pair) :=
  p.wired.next.bind fun i =>
    if has p.master.cascade i then
      if (p.slave.cascade.extractLsb' 0 3).toFin = i then
        p.slave.next.map fun j => (p.vector (.slave j), p.accept (.slave j))
      else none
    else some (p.vector (.master i), p.accept (.master i))

/-- A device's request reaches the processor when nothing is in service. -/
def asks (p : Pair) : Line → Bool
  | .master i => i ≠ cascadeLine && p.master.asks i
  | .slave i => p.slave.asks i && !has p.master.imr cascadeLine

/-- Both chips know how they are connected, and wait for the end of each interrupt. -/
structure Cascaded (p : Pair) : Prop where
  master : p.master.cascade = bit cascadeLine
  slave : p.slave.cascade = BitVec.ofNat 8 cascadeLine
  masterEnd : p.master.autoEnd = false
  slaveEnd : p.slave.autoEnd = false

/-- What is in service. -/
def Serves (p : Pair) : Option Line → Prop
  | none => p.master.isr = 0 ∧ p.slave.isr = 0
  | some (.master i) => p.master.isr = bit i ∧ p.slave.isr = 0
  | some (.slave i) => (p.master.isr = bit cascadeLine ∨ p.master.isr = 0) ∧ p.slave.isr = bit i

def latched (p : Pair) : Line → Bool
  | .master i => has p.master.irr i
  | .slave i => has p.slave.irr i

def masked (p : Pair) : Line → Bool
  | .master i => has p.master.imr i
  | .slave i => has p.slave.imr i

end Pair

/-- What a pair of controllers is for: requests on lines wait until they are delivered, one at a
time. -/
structure Requests where
  latched : Line → Bool
  enabled : Line → Bool
  serving : Option Line
  delivered : List Line

namespace Requests

def request (r : Requests) (a : Line) : Requests := { r with latched := update r.latched a true }

def enable (r : Requests) (a : Line) : Requests := { r with enabled := update r.enabled a true }

/-- The enabled request of highest priority, if nothing is served. -/
def take (r : Requests) : Requests :=
  match r.serving, lines.find? fun a => r.latched a && r.enabled a with
  | none, some a =>
    { r with
      latched := update r.latched a false
      serving := some a
      delivered := r.delivered ++ [a] }
  | _, _ => r

def finish (r : Requests) (a : Line) : Requests :=
  { r with serving := if r.serving = some a then none else r.serving }

end Requests

/-- The lines for devices are as they are in `r`. A slave's line that is enabled is so in both
chips. -/
structure Pair.Shows (p : Pair) (r : Requests) : Prop where
  cascaded : p.Cascaded
  serves : p.Serves r.serving
  device : ∀ a ∈ r.serving, a ∈ lines
  latched : ∀ a ∈ lines, p.latched a = r.latched a
  enabled : ∀ a ∈ lines, (!p.masked a) = r.enabled a
  through : ∀ i, r.enabled (.slave i) → has p.master.imr cascadeLine = false

/-! ## Bits -/

@[simp] theorem has_zero (i : Fin 8) : has 0 i = false := BitVec.getLsbD_zero

@[simp]
theorem has_bit (i j : Fin 8) : has (bit i) j = decide (i = j) := by
  decide +revert

theorem has_clear (b : BitVec 8) (i j : Fin 8) :
    has (b &&& ~~~bit i) j = (has b j && !decide (i = j)) := by
  have hbit := has_bit i j
  unfold has at hbit ⊢
  rw [BitVec.getLsbD_and, BitVec.getLsbD_not, decide_eq_true j.isLt, Bool.true_and, hbit]

theorem has_set (b : BitVec 8) (i j : Fin 8) :
    has (b ||| bit i) j = (has b j || decide (i = j)) := by
  have hbit := has_bit i j
  unfold has at hbit ⊢
  rw [BitVec.getLsbD_or, hbit]

@[simp] theorem bit_clear (i : Fin 8) : bit i &&& ~~~bit i = 0 := BitVec.and_not_self _

@[simp] theorem zero_set (i : Fin 8) : 0 ||| bit i = bit i := BitVec.zero_or

@[simp] theorem zero_clear (i : Fin 8) : 0 &&& ~~~bit i = 0 := BitVec.zero_and

theorem bit_clear_of_ne {i j : Fin 8} (h : i ≠ j) : bit i &&& ~~~bit j = bit i := by
  decide +revert

/-! ## Arbitration -/

theorem findSome?_eq_bind {α β : Type*} (l : List α) (f : α → Option β) :
    l.findSome? f = (l.find? fun a => (f a).isSome).bind f := by
  induction l with
  | nil => rfl
  | cons a l ih =>
    rw [List.findSome?_cons, List.find?_cons]
    cases h : f a with
    | none => exact ih
    | some b => exact h.symm

namespace Chip
variable {c : Chip}

/-- With nothing in service, the first request is reported. -/
theorem next_eq (h : c.isr = 0) : c.next = first c.asks := by
  have hall : ∀ i : Fin 8, ((List.finRange 8).all fun j => !(j ≤ i && has c.isr j)) = true := by
    intro i
    rw [h]
    simp only [has_zero, Bool.and_false, Bool.not_false, List.all_eq_true, implies_true]
  unfold next
  cases hfirst : first c.asks with
  | none => rfl
  | some i => exact Option.filter_some_pos (hall i)

end Chip

namespace Pair
variable {p : Pair}

/-- The line that a line of the master stands for. -/
def through (p : Pair) (i : Fin 8) : Option Line :=
  if i = cascadeLine then
    if has p.master.imr cascadeLine then none else (first p.slave.asks).map .slave
  else if p.master.asks i then some (.master i) else none

theorem find?_lines (p : Pair) :
    lines.find? p.asks = (List.finRange 8).findSome? p.through := by
  unfold lines
  rw [List.find?_flatMap]
  congr 1
  funext i
  unfold through
  split_ifs with hi hmask hasks
  · rw [List.find?_map, Option.map_eq_none_iff, List.find?_eq_none]
    intro j _
    simp [asks, hmask]
  · rw [List.find?_map]
    have hfun : p.asks ∘ Line.slave = p.slave.asks := by
      funext j
      simp [asks, hmask]
    rw [hfun]
    rfl
  · simp [asks, hi, hasks]
  · simp [asks, hasks]

theorem has_wired (p : Pair) (i : Fin 8) :
    has p.wired.irr i = if i = cascadeLine then p.slave.next.isSome else has p.master.irr i := by
  have hirr : p.wired.irr = if p.slave.next.isSome then p.master.irr ||| bit cascadeLine
      else p.master.irr &&& ~~~bit cascadeLine := rfl
  rw [hirr]
  by_cases hi : i = cascadeLine
  · subst hi
    rw [if_pos rfl]
    cases p.slave.next.isSome
    · simp [has_clear]
    · simp [has_set]
  · have hne : cascadeLine ≠ i := Ne.symm hi
    rw [if_neg hi]
    cases p.slave.next.isSome
    · simp [has_clear, hne]
    · simp [has_set, hne]

theorem wired_asks (h : p.slave.isr = 0) (i : Fin 8) :
    p.wired.asks i = (p.through i).isSome := by
  unfold through
  show (has p.wired.irr i && !has p.master.imr i) = _
  rw [has_wired, Chip.next_eq h]
  by_cases hi : i = cascadeLine
  · subst hi
    rw [if_pos rfl, if_pos rfl]
    cases has p.master.imr cascadeLine <;> simp
  · rw [if_neg hi, if_neg hi]
    show p.master.asks i = _
    cases p.master.asks i <;> rfl

/-- With nothing in service, the two chips together report the request of highest priority. -/
theorem acknowledge_eq (h : p.Cascaded) (hidle : p.Serves none) :
    p.acknowledge = (lines.find? p.asks).map fun a => (p.vector a, p.accept a) := by
  have hwired : p.wired.next = (List.finRange 8).find? fun i => (p.through i).isSome := by
    have hasks : p.wired.asks = fun i => (p.through i).isSome := funext (wired_asks hidle.2)
    rw [← hasks]
    exact Chip.next_eq hidle.1
  rw [find?_lines, findSome?_eq_bind, ← hwired, Option.map_bind]
  unfold acknowledge
  cases hnext : p.wired.next with
  | none => rfl
  | some i =>
    have hasks : (p.through i).isSome := by
      have hfind := hwired.symm.trans hnext
      have hsome := List.find?_some hfind
      exact hsome
    have hcascade : has p.master.cascade i = decide (cascadeLine = i) := by
      rw [h.master, has_bit]
    have hid : (p.slave.cascade.extractLsb' 0 3).toFin = cascadeLine := by
      rw [h.slave]
      rfl
    simp only [Option.bind_some, Function.comp_apply, hcascade, hid]
    unfold through at hasks ⊢
    by_cases hi : i = cascadeLine
    · subst hi
      simp only [if_true, decide_true] at hasks ⊢
      cases hmask : has p.master.imr cascadeLine with
      | true => simp [hmask] at hasks
      | false => simp [Chip.next_eq hidle.2, Function.comp_def]
    · have hne : cascadeLine ≠ i := Ne.symm hi
      simp only [if_neg hi, hne, decide_false] at hasks ⊢
      cases hmaster : p.master.asks i with
      | false => simp [hmaster] at hasks
      | true => rfl

end Pair

/-! ## Requests -/

theorem mem_lines (a : Line) : a ∈ lines ↔ a ≠ .master cascadeLine := by
  cases a <;> decide +revert

namespace Pair
variable {p : Pair} {r : Requests} {a b : Line} {i : Fin 8}

theorem latched_request (p : Pair) (a b : Line) :
    (p.request a).latched b = (p.latched b || decide (a = b)) := by
  cases a <;> cases b <;> simp [request, latched, Chip.request, has_set]

theorem latched_accept (p : Pair) (ha : a ∈ lines) (hb : b ∈ lines) :
    (p.accept a).latched b = (p.latched b && !decide (a = b)) := by
  cases a with
  | master i => cases b <;> simp [accept, latched, Chip.accept, has_clear]
  | slave i =>
    cases b with
    | master j =>
      have hne : cascadeLine ≠ j := fun h => (mem_lines _).mp hb (h ▸ rfl)
      simp [accept, latched, Chip.accept, has_clear, hne]
    | slave j => simp [accept, latched, Chip.accept, has_clear]

theorem serves_accept (h : p.Cascaded) (hidle : p.Serves none) (a : Line) :
    (p.accept a).Serves (some a) := by
  cases a with
  | master i => exact ⟨by simp [accept, Chip.accept, h.masterEnd, hidle.1], hidle.2⟩
  | slave i =>
    exact ⟨.inl (by simp [accept, Chip.accept, h.masterEnd, hidle.1]),
      by simp [accept, Chip.accept, h.slaveEnd, hidle.2]⟩

theorem Shows.asks (h : p.Shows r) (ha : a ∈ lines) : p.asks a = (r.latched a && r.enabled a) := by
  rw [← h.latched a ha, ← h.enabled a ha]
  cases a with
  | master i =>
    have hne : i ≠ cascadeLine := fun hi => (mem_lines _).mp ha (hi ▸ rfl)
    simp [Pair.asks, Chip.asks, Pair.latched, Pair.masked, hne]
  | slave i =>
    have hmask : has p.slave.imr i = false → has p.master.imr cascadeLine = false := fun hi =>
      h.through i ((h.enabled _ ha).symm.trans (by simp [Pair.masked, hi]))
    cases hi : has p.slave.imr i with
    | true => simp [Pair.asks, Chip.asks, Pair.latched, Pair.masked, hi]
    | false => simp [Pair.asks, Chip.asks, Pair.latched, Pair.masked, hi, hmask hi]

theorem Shows.request (h : p.Shows r) (a : Line) : (p.request a).Shows (r.request a) := by
  have hcascaded : (p.request a).Cascaded := by
    cases a <;> exact ⟨h.cascaded.1, h.cascaded.2, h.cascaded.3, h.cascaded.4⟩
  have hserves : (p.request a).Serves r.serving := by
    cases a <;> exact h.serves
  refine ⟨hcascaded, hserves, h.device, fun b hb => ?_, fun b hb => ?_, fun i hi => ?_⟩
  · rw [latched_request, h.latched b hb]
    by_cases hab : b = a
    · subst hab
      simp [Requests.request]
    · simp [Requests.request, hab, Ne.symm hab]
  · have hmasked : (p.request a).masked b = p.masked b := by
      cases a <;> cases b <;> rfl
    rw [hmasked]
    exact h.enabled b hb
  · have hthrough := h.through i hi
    cases a <;> exact hthrough

theorem Shows.unmask (h : p.Shows r) (a : Line) : (p.unmask a).Shows (r.enable a) := by
  have hkept : ∀ i, has p.master.imr cascadeLine = false →
      has (p.master.imr &&& ~~~bit i) cascadeLine = false := by
    intro i hi
    rw [has_clear, hi, Bool.false_and]
  refine ⟨?_, ?_, h.device, fun b hb => ?_, fun b hb => ?_, fun i hi => ?_⟩
  · cases a <;> exact ⟨h.cascaded.1, h.cascaded.2, h.cascaded.3, h.cascaded.4⟩
  · have hserves : (p.unmask a).Serves r.serving := by
      cases a <;> exact h.serves
    exact hserves
  · have hlatched : (p.unmask a).latched b = p.latched b := by
      cases a <;> cases b <;> rfl
    rw [hlatched]
    exact h.latched b hb
  · have hmasked : (p.unmask a).masked b = (p.masked b && !decide (a = b)) := by
      cases a with
      | master i => cases b <;> simp [Pair.unmask, Pair.masked, Chip.unmask, has_clear]
      | slave i =>
        cases b with
        | master j =>
          have hne : cascadeLine ≠ j := fun hj => (mem_lines _).mp hb (hj ▸ rfl)
          simp [Pair.unmask, Pair.masked, Chip.unmask, has_clear, hne]
        | slave j => simp [Pair.unmask, Pair.masked, Chip.unmask, has_clear]
    rw [hmasked, Bool.not_and, Bool.not_not, h.enabled b hb]
    by_cases hab : b = a
    · subst hab
      simp [Requests.enable]
    · simp [Requests.enable, hab, Ne.symm hab]
  · cases a with
    | master j =>
      have hne : Line.slave i ≠ .master j := Line.noConfusion
      have hsame : (r.enable (.master j)).enabled (.slave i) = r.enabled (.slave i) :=
        update_of_ne hne true r.enabled
      have hold : r.enabled (.slave i) := hsame ▸ hi
      exact hkept j (h.through i hold)
    | slave j => simp [Pair.unmask, Chip.unmask, has_clear]

/-- The processor is given what the requests say. -/
theorem Shows.acknowledge (h : p.Shows r) (hnone : r.serving = none) :
    match lines.find? fun a => r.latched a && r.enabled a with
    | none => p.acknowledge = none
    | some a => p.acknowledge = some (p.vector a, p.accept a) ∧ (p.accept a).Shows r.take := by
  have hidle : p.Serves none := hnone ▸ h.serves
  have hfind : lines.find? p.asks = lines.find? fun a => r.latched a && r.enabled a :=
    List.find?_congr fun a ha => h.asks ha
  have hack := acknowledge_eq h.cascaded hidle
  rw [hfind] at hack
  cases hline : lines.find? fun a => r.latched a && r.enabled a with
  | none => simpa [hline] using hack
  | some a =>
    refine ⟨by simpa [hline] using hack, ?_⟩
    have ha : a ∈ lines := List.mem_of_find?_eq_some hline
    have htake : r.take = { r with
        latched := update r.latched a false
        serving := some a
        delivered := r.delivered ++ [a] } := by
      unfold Requests.take
      rw [hnone, hline]
    rw [htake]
    refine ⟨?_, serves_accept h.cascaded hidle a, fun b hb => Option.some.inj hb ▸ ha,
      fun b hb => ?_, fun b hb => ?_, fun i hi => ?_⟩
    · cases a <;> exact ⟨h.cascaded.1, h.cascaded.2, h.cascaded.3, h.cascaded.4⟩
    · rw [latched_accept p ha hb, h.latched b hb]
      by_cases hab : b = a
      · subst hab
        simp
      · simp [hab, Ne.symm hab]
    · have hmasked : (p.accept a).masked b = p.masked b := by
        cases a <;> cases b <;> rfl
      rw [hmasked]
      exact h.enabled b hb
    · have hthrough := h.through i hi
      cases a <;> exact hthrough

theorem serves_finish {serving : Option Line} (h : p.Serves serving)
    (hdevice : ∀ b ∈ serving, b ∈ lines) (a : Line) :
    (p.finish a).Serves (if serving = some a then none else serving) := by
  rcases serving with _ | j | j
  · have hidle : (p.finish a).Serves none := by
      cases a <;> simp [finish, Serves, Chip.specificEnd, h.1, h.2]
    simpa using hidle
  · have hne : j ≠ cascadeLine := fun hj => (mem_lines _).mp (hdevice _ rfl) (hj ▸ rfl)
    cases a with
    | master i =>
      by_cases hij : j = i
      · subst hij
        simp [finish, Serves, Chip.specificEnd, h.1, h.2]
      · simp [finish, Serves, Chip.specificEnd, h.1, h.2, hij, bit_clear_of_ne hij]
    | slave i => simp [finish, Serves, Chip.specificEnd, h.1, h.2, bit_clear_of_ne hne]
  · have hmaster : ∀ i, p.master.isr &&& ~~~bit i = bit cascadeLine ∨
        p.master.isr &&& ~~~bit i = 0 := by
      intro i
      rcases h.1 with h1 | h1 <;> rw [h1]
      · by_cases hi : cascadeLine = i
        · exact .inr (hi ▸ bit_clear _)
        · exact .inl (bit_clear_of_ne hi)
      · exact .inr (zero_clear i)
    cases a with
    | master i => simpa [finish, Serves, Chip.specificEnd, h.2] using hmaster i
    | slave i =>
      have hzero : p.master.isr &&& ~~~bit cascadeLine = 0 := by
        rcases h.1 with h1 | h1 <;> rw [h1]
        · exact bit_clear _
        · exact zero_clear _
      by_cases hij : j = i
      · subst hij
        simp [finish, Serves, Chip.specificEnd, h.2, hzero]
      · simp [finish, Serves, Chip.specificEnd, h.2, hzero, hij, bit_clear_of_ne hij]

theorem Shows.finish (h : p.Shows r) (a : Line) : (p.finish a).Shows (r.finish a) := by
  refine ⟨?_, serves_finish h.serves h.device a, fun b hb => h.device b ?_, fun b hb => ?_,
    fun b hb => ?_, fun i hi => ?_⟩
  · cases a <;> exact ⟨h.cascaded.1, h.cascaded.2, h.cascaded.3, h.cascaded.4⟩
  · have hserving : (if r.serving = some a then none else r.serving) = some b := hb
    split_ifs at hserving
    exact hserving
  · have hlatched : (p.finish a).latched b = p.latched b := by
      cases a <;> cases b <;> rfl
    rw [hlatched]
    exact h.latched b hb
  · have hmasked : (p.finish a).masked b = p.masked b := by
      cases a <;> cases b <;> rfl
    rw [hmasked]
    exact h.enabled b hb
  · have hthrough := h.through i hi
    cases a <;> exact hthrough

end Pair
end InterruptController
