import Amaterasu.Ata.Defs

/-! The request queue of `ata.c` in the `int`s and field widths of the source. It is a bounded queue
of its pending entries, and the queue of the system is its image. -/

namespace Amaterasu
open Function

/-- `struct ATARequestQueueEntry`. -/
structure AtaRequestQueueEntry where
  isWrite : BitVec 8
  lba : BitVec 32
  sizeOfBytes : BitVec 32
  isComplete : BitVec 8
  buffer : BitVec 64
  process : Nat
deriving DecidableEq

/-- `struct ATARequestQueue`. -/
structure AtaRing where
  headIndex : Int
  size : Int
  queueBody : Int → AtaRequestQueueEntry

/-- The arguments of `ATARequestQueuePush`, and `currentProcess`. -/
structure AtaPush where
  isWrite : BitVec 8
  lba : BitVec 32
  sizeOfBytes : BitVec 32
  buffer : BitVec 64
  currentProcess : Nat
deriving DecidableEq

/-- The request that a push leaves in the queue. -/
def AtaPush.entry (p : AtaPush) : AtaRequestQueueEntry :=
  ⟨p.isWrite, p.lba, p.sizeOfBytes, 0, p.buffer, p.currentProcess⟩

namespace AtaRing

def ataInit (q : AtaRing) : AtaRing := { q with headIndex := 0, size := 0 }

def ataRequestQueuePush (q : AtaRing) (p : AtaPush) : AtaRing × Int :=
  if q.size = ataRequestQueueCapacity then (q, -1)
  else
    let pushedIndex := (q.headIndex + q.size).tmod ataRequestQueueCapacity
    let q := { q with size := q.size + 1 }
    let entry := { q.queueBody pushedIndex with
      isWrite := p.isWrite
      lba := p.lba
      sizeOfBytes := p.sizeOfBytes
      buffer := p.buffer
      isComplete := 0
      process := p.currentProcess }
    ({ q with queueBody := update q.queueBody pushedIndex entry }, pushedIndex)

/-- The index of the slot whose address `ATARequestQueueFront` returns. -/
def ataRequestQueueFront (q : AtaRing) : Int := q.headIndex

def ataRequestQueuePop (q : AtaRing) : AtaRing :=
  if q.size = 0 then q
  else
    { q with
      headIndex := (q.headIndex + 1).tmod ataRequestQueueCapacity
      size := q.size - 1 }

inductive Call
  | push (p : AtaPush)
  | front
  | pop

def call (q : AtaRing) : Call → AtaRing
  | .push p => (q.ataRequestQueuePush p).1
  | .front => q
  | .pop => q.ataRequestQueuePop

/-- The slot of the `i`-th pending entry. -/
def slot (q : AtaRing) (i : Nat) : Int := (q.headIndex + i).tmod ataRequestQueueCapacity

def pending (q : AtaRing) : List AtaRequestQueueEntry :=
  (List.range q.size.toNat).map fun i => q.queueBody (q.slot i)

/-- What a call does to a queue of at most the capacity. -/
def enqueue (xs : List AtaRequestQueueEntry) : Call → List AtaRequestQueueEntry
  | .push p => if xs.length = ataRequestQueueCapacity then xs else xs ++ [p.entry]
  | .front => xs
  | .pop => xs.tail

/-- The queue has the entries `xs`, and its indices are in range. -/
structure Refines (q : AtaRing) (xs : List AtaRequestQueueEntry) : Prop where
  head : 0 ≤ q.headIndex ∧ q.headIndex < ataRequestQueueCapacity
  size : 0 ≤ q.size ∧ q.size ≤ ataRequestQueueCapacity
  pending : q.pending = xs

/-- What the three operations owe a queue with the entries `xs`. -/
structure Serves (q : AtaRing) (xs : List AtaRequestQueueEntry) : Prop where
  full : ∀ p, (q.ataRequestQueuePush p).2 = -1 ↔ xs.length = ataRequestQueueCapacity
  refused : ∀ p, (q.ataRequestQueuePush p).2 = -1 → (q.ataRequestQueuePush p).1 = q
  pushed : ∀ p, (q.ataRequestQueuePush p).2 ≠ -1 →
    let r := q.ataRequestQueuePush p
    r.1.queueBody r.2 = p.entry ∧ r.2 = q.slot xs.length ∧
      ∀ i < xs.length, q.slot i ≠ r.2 ∧ r.1.queueBody (q.slot i) = q.queueBody (q.slot i)
  front : ∀ x ∈ xs.head?, q.queueBody q.ataRequestQueueFront = x
  empty : xs = [] → q.ataRequestQueuePop = q

variable {q : AtaRing} {xs : List AtaRequestQueueEntry} {p : AtaPush}

/-! ## The queue of a library -/

def toCircular (q : AtaRing) : CircularQueue AtaRequestQueueEntry :=
  ⟨q.headIndex.toNat, q.size.toNat, fun i => q.queueBody i⟩

theorem slot_eq (h0 : 0 ≤ q.headIndex) (i : Nat) :
    q.slot i = (q.toCircular.slot ataRequestQueueCapacity i : Nat) := by
  have hhead : ((q.headIndex.toNat : Nat) : Int) = q.headIndex := Int.toNat_of_nonneg h0
  unfold slot CircularQueue.slot toCircular
  rw [Int.tmod_eq_emod_of_nonneg (by omega)]
  push_cast
  rw [hhead]

theorem pending_eq (h0 : 0 ≤ q.headIndex) :
    q.pending = q.toCircular.toList ataRequestQueueCapacity := by
  unfold pending CircularQueue.toList
  apply List.map_congr_left
  intro i _
  rw [slot_eq h0]
  rfl

theorem Refines.fits (h : q.Refines xs) : q.toCircular.Fits ataRequestQueueCapacity := by
  obtain ⟨h0, hlt⟩ := h.head
  obtain ⟨hs0, hle⟩ := h.size
  constructor
  · show q.headIndex.toNat < ataRequestQueueCapacity
    omega
  · show q.size.toNat ≤ ataRequestQueueCapacity
    omega

theorem Refines.length (h : q.Refines xs) : (xs.length : Int) = q.size := by
  have hlength : q.pending.length = q.size.toNat := by
    rw [AtaRing.pending, List.length_map, List.length_range]
  rw [← h.pending, hlength]
  exact Int.toNat_of_nonneg h.size.1

theorem Refines.full_iff (h : q.Refines xs) :
    q.size = ataRequestQueueCapacity ↔ xs.length = ataRequestQueueCapacity := by
  rw [← h.length]
  exact Int.natCast_inj

theorem Refines.empty_iff (h : q.Refines xs) : q.size = 0 ↔ xs = [] := by
  rw [← h.length, ← List.length_eq_zero_iff]
  exact Int.natCast_eq_zero

/-! ## The operations -/

theorem push_full (h : q.size = ataRequestQueueCapacity) (p : AtaPush) :
    q.ataRequestQueuePush p = (q, -1) := if_pos h

theorem push_space (h : q.size ≠ ataRequestQueueCapacity) (p : AtaPush) :
    q.ataRequestQueuePush p =
      (⟨q.headIndex, q.size + 1,
        update q.queueBody ((q.headIndex + q.size).tmod ataRequestQueueCapacity) p.entry⟩,
        (q.headIndex + q.size).tmod ataRequestQueueCapacity) := if_neg h

theorem pop_eq (h : q.size ≠ 0) : q.ataRequestQueuePop =
    ⟨(q.headIndex + 1).tmod ataRequestQueueCapacity, q.size - 1, q.queueBody⟩ := if_neg h

theorem Refines.slot_length (h : q.Refines xs) :
    (q.headIndex + q.size).tmod ataRequestQueueCapacity = q.slot xs.length := by
  rw [← h.length]
  rfl

theorem Refines.toCircular_push (h : q.Refines xs) (hspace : q.size ≠ ataRequestQueueCapacity) :
    (q.ataRequestQueuePush p).1.toCircular =
      q.toCircular.push ataRequestQueueCapacity p.entry := by
  have hsize : q.toCircular.size = xs.length := by
    show q.size.toNat = xs.length
    rw [← h.length, Int.toNat_natCast]
  have hnat : (q.size + 1).toNat = xs.length + 1 := by
    rw [← h.length]
    rfl
  have hinj : Injective (Nat.cast : Nat → Int) := fun _ _ => Int.natCast_inj.mp
  have hbody := update_comp_eq_of_injective q.queueBody hinj
    (q.toCircular.slot ataRequestQueueCapacity xs.length) p.entry
  rw [push_space hspace, h.slot_length, slot_eq h.head.1]
  unfold CircularQueue.push
  rw [hsize, ← hnat]
  exact (CircularQueue.mk.injEq ..).mpr ⟨rfl, rfl, hbody⟩

theorem Refines.push (h : q.Refines xs) (p : AtaPush) :
    (q.ataRequestQueuePush p).1.Refines (enqueue xs (.push p)) := by
  unfold enqueue
  dsimp only
  by_cases hfull : q.size = ataRequestQueueCapacity
  · rw [push_full hfull, if_pos (h.full_iff.mp hfull)]
    exact h
  · have hcircular := h.toCircular_push (p := p) hfull
    have hsize : q.toCircular.size < ataRequestQueueCapacity := by
      apply lt_of_le_of_ne h.fits.size
      intro heq
      have hnat : ((q.size.toNat : Nat) : Int) = ataRequestQueueCapacity := congrArg _ heq
      rw [Int.toNat_of_nonneg h.size.1] at hnat
      exact hfull hnat
    have hsize' : (q.ataRequestQueuePush p).1.size = q.size + 1 := by rw [push_space hfull]
    have hhead : (q.ataRequestQueuePush p).1.headIndex = q.headIndex := by rw [push_space hfull]
    have hle : q.size + 1 ≤ ataRequestQueueCapacity := by
      have := h.size.2
      omega
    rw [if_neg (mt h.full_iff.mpr hfull)]
    refine ⟨by rw [hhead]; exact h.head, by rw [hsize']; exact ⟨by have := h.size.1; omega, hle⟩, ?_⟩
    rw [pending_eq (by rw [hhead]; exact h.head.1), hcircular, CircularQueue.toList_push hsize,
      ← pending_eq h.head.1, h.pending]

theorem Refines.toCircular_pop (h : q.Refines xs) (hempty : q.size ≠ 0) :
    q.ataRequestQueuePop.toCircular = q.toCircular.pop ataRequestQueueCapacity := by
  have hnat : (q.headIndex + 1).tmod ataRequestQueueCapacity =
      ((q.headIndex.toNat + 1) % ataRequestQueueCapacity : Nat) := slot_eq h.head.1 1
  have hsize : (q.size - 1).toNat = q.size.toNat - 1 := Int.toNat_sub' q.size 1
  rw [pop_eq hempty, hnat]
  exact (CircularQueue.mk.injEq ..).mpr ⟨Int.toNat_natCast _, hsize, rfl⟩

theorem Refines.pop (h : q.Refines xs) : q.ataRequestQueuePop.Refines xs.tail := by
  by_cases hempty : q.size = 0
  · obtain rfl := h.empty_iff.mp hempty
    rwa [ataRequestQueuePop, if_pos hempty]
  · have hcircular := h.toCircular_pop hempty
    obtain ⟨hs0, hle⟩ := h.size
    have hpos : 0 < q.toCircular.size := by
      show 0 < q.size.toNat
      omega
    have hlist := CircularQueue.toList_pop h.fits hpos
    rw [← pending_eq h.head.1, h.pending, ← hcircular] at hlist
    rw [pop_eq hempty] at hlist ⊢
    have hnext : 0 ≤ (q.headIndex + 1).tmod ataRequestQueueCapacity :=
      Int.tmod_nonneg _ (by have := h.head.1; omega)
    refine ⟨⟨hnext, Int.tmod_lt_of_pos _ (by decide)⟩, ?_, ?_⟩
    · show 0 ≤ q.size - 1 ∧ q.size - 1 ≤ ataRequestQueueCapacity
      omega
    · rw [pending_eq hnext, hlist, List.tail_cons]

theorem Refines.call (h : q.Refines xs) (c : Call) : (q.call c).Refines (enqueue xs c) := by
  cases c with
  | push p => exact h.push p
  | front => exact h
  | pop => exact h.pop

theorem Refines.run (h : q.Refines xs) (calls : List Call) :
    (calls.foldl AtaRing.call q).Refines (calls.foldl enqueue xs) := by
  induction calls generalizing q xs with
  | nil => exact h
  | cons c calls ih => exact ih (h.call c)

theorem Refines.slot_ne (h : q.Refines xs) {i j : Nat} (hij : i < j)
    (hj : j < ataRequestQueueCapacity) : q.slot i ≠ q.slot j := by
  rw [slot_eq h.head.1, slot_eq h.head.1]
  exact mt Int.natCast_inj.mp (CircularQueue.slot_ne hij hj)

theorem Refines.serves (h : q.Refines xs) : q.Serves xs := by
  have hspace : ∀ p, (q.ataRequestQueuePush p).2 ≠ -1 ↔ q.size ≠ ataRequestQueueCapacity := by
    intro p
    constructor
    · rintro hne hfull
      rw [push_full hfull] at hne
      exact hne rfl
    · intro hne
      rw [push_space hne, h.slot_length, slot_eq h.head.1]
      omega
  have hfull : ∀ p, (q.ataRequestQueuePush p).2 = -1 ↔ q.size = ataRequestQueueCapacity :=
    fun p => not_iff_not.mp (hspace p)
  refine ⟨fun p => (hfull p).trans h.full_iff, fun p hp => ?_, fun p hp => ?_, ?_, ?_⟩
  · rw [push_full ((hfull p).mp hp)]
  · have hne := (hspace p).mp hp
    have hlt : xs.length < ataRequestQueueCapacity := by
      apply lt_of_le_of_ne _ (mt h.full_iff.mpr hne)
      have hle := h.size.2
      rw [← h.length] at hle
      exact Int.ofNat_le.mp hle
    dsimp only
    rw [push_space hne, h.slot_length]
    refine ⟨update_self .., rfl, fun i hi => ?_⟩
    have hslot := h.slot_ne hi hlt
    exact ⟨hslot, update_of_ne hslot _ _⟩
  · intro x hx
    have hpos : 0 < q.size.toNat := by
      cases xs with
      | nil => cases hx
      | cons y ys =>
        have hlength := h.length
        simp only [List.length_cons] at hlength
        omega
    have hlist := CircularQueue.toList_pop h.fits hpos
    rw [← pending_eq h.head.1, h.pending] at hlist
    rw [hlist] at hx
    obtain rfl := Option.some.inj hx
    show q.queueBody q.headIndex = q.queueBody (q.headIndex.toNat : Int)
    rw [Int.toNat_of_nonneg h.head.1]
  · rintro rfl
    exact if_pos (h.empty_iff.mpr rfl)

theorem ataInit_refines (q : AtaRing) (calls : List Call) :
    (calls.foldl call q.ataInit).Refines (calls.foldl enqueue []) := by
  have hinit : q.ataInit.Refines [] := by
    refine ⟨⟨le_rfl, ?_⟩, ⟨le_rfl, ?_⟩, rfl⟩ <;>
      exact Int.ofNat_le.mpr (by decide)
  exact hinit.run calls

/-- After every sequence of calls from `ATAInit` on, the indices are in range, the entries from
`HeadIndex` on are the requests that have been pushed and not popped, in the order of the pushes,
and the next call does what it should. -/
theorem run_refines_fifo (q : AtaRing) (calls : List Call) :
    let r := calls.foldl call q.ataInit
    let xs := calls.foldl enqueue []
    r.Refines xs ∧ r.Serves xs :=
  ⟨q.ataInit_refines calls, (q.ataInit_refines calls).serves⟩

end AtaRing

/-! ## The queue of the system -/

/-- The entry as the system has it. -/
def AtaRequestQueueEntry.request (e : AtaRequestQueueEntry) : AtaRequest where
  isWrite := e.isWrite ≠ 0
  lba := e.lba.toNat
  sizeOfBytes := e.sizeOfBytes.toInt
  isComplete := e.isComplete ≠ 0
  buffer := e.buffer
  process := e.process

def AtaRing.toQueue (q : AtaRing) : AtaRequestQueue :=
  q.toCircular.map AtaRequestQueueEntry.request

section Image
variable {q : AtaRing} {xs : List AtaRequestQueueEntry}

theorem AtaRing.Refines.push_toQueue (h : q.Refines xs) (p : AtaPush) :
    Amaterasu.ataRequestQueuePush q.toQueue p.entry.request =
      let r := q.ataRequestQueuePush p
      if r.2 = -1 then none else some (r.1.toQueue, r.2.toNat) := by
  have hlength : q.toQueue.size = xs.length := by
    show q.size.toNat = xs.length
    rw [← h.length, Int.toNat_natCast]
  by_cases hfull : q.size = ataRequestQueueCapacity
  · rw [AtaRing.push_full hfull]
    exact if_pos (hlength.trans (h.full_iff.mp hfull))
  · have hne : q.toQueue.size ≠ ataRequestQueueCapacity := by
      rw [hlength]
      exact mt h.full_iff.mpr hfull
    have hslot : (q.ataRequestQueuePush p).2 =
        (q.toQueue.slot ataRequestQueueCapacity q.toQueue.size : Nat) := by
      rw [AtaRing.push_space hfull, h.slot_length, AtaRing.slot_eq h.head.1, hlength]
      rfl
    have hqueue : (q.ataRequestQueuePush p).1.toQueue =
        q.toQueue.push ataRequestQueueCapacity p.entry.request := by
      unfold AtaRing.toQueue
      rw [h.toCircular_push hfull, CircularQueue.map_push]
    have hnonneg : (q.ataRequestQueuePush p).2 ≠ -1 := by omega
    dsimp only
    rw [if_neg hnonneg, hqueue, hslot]
    exact if_neg hne

theorem AtaRing.Refines.pop_toQueue (h : q.Refines xs) :
    Amaterasu.ataRequestQueuePop q.toQueue = q.ataRequestQueuePop.toQueue := by
  by_cases hempty : q.size = 0
  · have hsize : q.toQueue.size = 0 := congrArg Int.toNat hempty
    rw [AtaRing.ataRequestQueuePop, if_pos hempty]
    exact if_pos hsize
  · have hsize : q.toQueue.size ≠ 0 := by
      have := h.size.1
      show q.size.toNat ≠ 0
      omega
    unfold AtaRing.toQueue
    rw [h.toCircular_pop hempty]
    exact if_neg hsize

theorem AtaRing.Refines.front_toQueue (h : q.Refines xs) :
    Amaterasu.ataRequestQueueFront q.toQueue = (q.queueBody q.ataRequestQueueFront).request := by
  show (q.queueBody (q.headIndex.toNat : Int)).request = _
  rw [Int.toNat_of_nonneg h.head.1]
  rfl

end Image
end Amaterasu
