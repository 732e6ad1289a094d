import Amaterasu.Scheduler.Defs
import Mathlib.Data.List.Perm.Subperm

/-! The intrusive queue of `queue.c`, over the links that memory holds at each address. The `int` of
its size does not overflow, since no more entries have room in the memory that is mapped. -/

namespace Amaterasu
open Function

/-- `ListDelete`. -/
def listDelete (m : RingLinks Nat) (deleted : Nat) : RingLinks Nat :=
  let prev := m.prev deleted
  let next := m.next deleted
  let m := { m with next := update m.next prev next }
  { m with prev := update m.prev next prev }

/-- The memory, and a `struct Queue` with its `guard` at the address of that name. -/
structure Queue where
  links : RingLinks Nat
  guard : Nat
  size : BitVec 32

namespace Queue

/-- `QUEUE_INIT`. -/
def init (links : RingLinks Nat) (guard : Nat) : Queue where
  links := ⟨update links.next guard guard, update links.prev guard guard⟩
  guard := guard
  size := 0

/-- `QueuePush`; `pushed` is the address of the entry's `list`. -/
def queuePush (q : Queue) (pushed : Nat) : Queue :=
  { q with links := listAdd q.links pushed (q.links.prev q.guard), size := q.size + 1 }

def queuePop (q : Queue) : Queue :=
  if q.size = 0 then q
  else { q with links := listDelete q.links (q.links.next q.guard), size := q.size - 1 }

/-- `QUEUE_FRONT`, for entries that are `field` bytes from the start of a `T`. The field `list` of
`struct QueueEntry` is its first. -/
def queueFront (q : Queue) (field : Nat) : Nat :=
  if q.size = 0 then 0 else q.links.next q.guard - 0 - field

/-- `SetUpPageTable` maps the first five gigabytes. -/
def mappedBytes : Nat := 5 * 2 ^ 30

/-- A `struct List` can be there. -/
def IsList (a : Nat) : Prop := 8 ∣ a ∧ a + 16 ≤ mappedBytes

/-- The states of a queue, with the objects `ts` that have been pushed and not popped. An object is
never at 0. -/
inductive Reaches (links : RingLinks Nat) (guard field : Nat) : Queue → List Nat → Prop
  | init : IsList guard → Reaches links guard field (init links guard) []
  | push {q ts} (t : Nat) : Reaches links guard field q ts → t ≠ 0 → IsList (t + field) →
      t + field ≠ guard → t ∉ ts →
      Reaches links guard field (q.queuePush (t + field)) (ts ++ [t])
  | pop {q ts} : Reaches links guard field q ts → Reaches links guard field q.queuePop ts.tail

/-- What holds of the queue of the objects `ts`, the oldest first: its ring, its size, its front,
and what the next call leaves alone. -/
structure IsFifo (q : Queue) (guard field : Nat) (ts : List Nat) : Prop where
  ring : q.links.Ring guard (ts.map (· + field))
  inverse : ∀ a ∈ guard :: ts.map (· + field),
    q.links.prev (q.links.next a) = a ∧ q.links.next (q.links.prev a) = a
  size : q.size.toInt = ts.length
  front : q.queueFront field = ts.headD 0
  null : q.queueFront field = 0 ↔ ts = []
  empty : ts = [] → q.queuePop = q
  pushFrame : ∀ t a, a ∉ guard :: (ts ++ [t]).map (· + field) →
    (q.queuePush (t + field)).links.next a = q.links.next a ∧
      (q.queuePush (t + field)).links.prev a = q.links.prev a
  popFrame : ∀ a, a ∉ guard :: ts.map (· + field) →
    q.queuePop.links.next a = q.links.next a ∧ q.queuePop.links.prev a = q.links.prev a

/-- The queue of the objects `ts`. -/
structure Refines (q : Queue) (field : Nat) (ts : List Nat) : Prop where
  ring : q.links.Ring q.guard (ts.map (· + field))
  size : q.size = BitVec.ofNat 32 ts.length
  lists : ∀ a ∈ q.guard :: ts.map (· + field), IsList a
  objects : 0 ∉ ts

variable {q : Queue} {field t : Nat} {ts : List Nat} {links : RingLinks Nat} {guard : Nat}

/-- There is room for fewer lists than an `int` counts. -/
theorem length_lt_of_isList {as : List Nat} (hnodup : as.Nodup) (h : ∀ a ∈ as, IsList a) :
    as.length < 2 ^ 31 := by
  have hinj : ∀ a ∈ as, ∀ b ∈ as, a / 8 = b / 8 → a = b := by
    intro a ha b hb heq
    obtain ⟨⟨i, rfl⟩, -⟩ := h a ha
    obtain ⟨⟨j, rfl⟩, -⟩ := h b hb
    omega
  have hsub : (as.map (· / 8)).Subset (List.range (mappedBytes / 8)) := by
    intro i hi
    obtain ⟨a, ha, rfl⟩ := List.mem_map.mp hi
    have hle := (h a ha).2
    unfold mappedBytes at hle ⊢
    exact List.mem_range.mpr (by omega)
  have hle := (List.subperm_of_subset (hnodup.map_on hinj) hsub).length_le
  rw [List.length_map, List.length_range] at hle
  exact hle.trans_lt (by decide)

theorem Refines.length_lt (h : q.Refines field ts) : ts.length < 2 ^ 31 := by
  have hlt := length_lt_of_isList h.ring.nodup h.lists
  rw [List.length_cons, List.length_map] at hlt
  omega

theorem Refines.size_eq_zero (h : q.Refines field ts) : q.size = 0 ↔ ts = [] := by
  have hlt := h.length_lt
  rw [h.size, ← BitVec.toNat_inj, BitVec.toNat_ofNat, ← List.length_eq_zero_iff]
  show _ = 0 ↔ _
  omega

theorem init_refines (links : RingLinks Nat) (field : Nat) (h : IsList guard) :
    (init links guard).Refines field [] where
  ring := ⟨⟨update_self .., update_self ..⟩, List.nodup_singleton _⟩
  size := rfl
  lists _ ha := (List.mem_singleton.mp ha) ▸ h
  objects := List.not_mem_nil

theorem Refines.push (h : q.Refines field ts) (h0 : t ≠ 0) (hlist : IsList (t + field))
    (hguard : t + field ≠ q.guard) (ht : t ∉ ts) :
    (q.queuePush (t + field)).Refines field (ts ++ [t]) := by
  have hfresh : t + field ∉ q.guard :: ts.map (· + field) := by
    rw [List.mem_cons, not_or]
    refine ⟨hguard, fun hmem => ?_⟩
    obtain ⟨u, hu, heq⟩ := List.mem_map.mp hmem
    exact ht (Nat.add_right_cancel heq ▸ hu)
  refine ⟨?_, ?_, ?_, ?_⟩
  · rw [List.map_append]
    exact h.ring.insertBefore hfresh
  · rw [List.length_append]
    show q.size + 1 = _
    rw [h.size]
    exact (BitVec.ofNat_add ts.length 1).symm
  · intro a ha
    rw [List.map_append, ← List.cons_append, List.mem_append] at ha
    rcases ha with ha | ha
    · exact h.lists a ha
    · exact (List.mem_singleton.mp ha) ▸ hlist
  · rw [List.mem_append, not_or]
    exact ⟨h.objects, mt List.mem_singleton.mp h0.symm⟩

theorem Refines.pop (h : q.Refines field ts) : q.queuePop.Refines field ts.tail := by
  cases ts with
  | nil =>
    rw [queuePop, if_pos (h.size_eq_zero.mpr rfl)]
    exact h
  | cons t ts =>
    have hne : q.size ≠ 0 := mt h.size_eq_zero.mp (List.cons_ne_nil t ts)
    have hnext : q.links.next q.guard = t + field := h.ring.path.1
    have hring : (q.links.remove (t + field)).Ring q.guard (ts.map (· + field)) :=
      h.ring.remove_next
    rw [← hnext] at hring
    rw [queuePop, if_neg hne]
    refine ⟨hring, ?_, ?_, ?_⟩
    · show q.size - 1 = _
      rw [h.size]
      exact BitVec.ofNat_sub_ofNat_of_le _ 1 (by decide) (Nat.succ_pos _)
    · intro a ha
      apply h.lists a
      rcases List.mem_cons.mp ha with rfl | ha
      · exact List.mem_cons_self
      · exact List.mem_cons_of_mem _ (List.mem_cons_of_mem _ ha)
    · exact fun hmem => h.objects (List.mem_cons_of_mem t hmem)

theorem Reaches.refines (h : Reaches links guard field q ts) :
    q.guard = guard ∧ q.Refines field ts := by
  induction h with
  | init hguard => exact ⟨rfl, init_refines links field hguard⟩
  | push t _ h0 hlist hguard ht ih =>
    exact ⟨ih.1, ih.2.push h0 hlist (ih.1 ▸ hguard) ht⟩
  | @pop q ts _ ih =>
    refine ⟨?_, ih.2.pop⟩
    unfold queuePop
    split_ifs
    · exact ih.1
    · exact ih.1

theorem Refines.front (h : q.Refines field ts) : q.queueFront field = ts.headD 0 := by
  cases ts with
  | nil => exact if_pos (h.size_eq_zero.mpr rfl)
  | cons t ts =>
    have hne : q.size ≠ 0 := mt h.size_eq_zero.mp (List.cons_ne_nil t ts)
    have hnext : q.links.next q.guard = t + field := h.ring.path.1
    rw [queueFront, if_neg hne, hnext]
    exact Nat.add_sub_cancel t field

theorem Refines.pushFrame (h : q.Refines field ts) {a : Nat}
    (ha : a ∉ q.guard :: (ts ++ [t]).map (· + field)) :
    (q.queuePush (t + field)).links.next a = q.links.next a ∧
      (q.queuePush (t + field)).links.prev a = q.links.prev a := by
  rw [List.map_append, ← List.cons_append, List.mem_append, not_or] at ha
  obtain ⟨hring, hnew⟩ := ha
  obtain ⟨hnext, hprev⟩ := h.ring.next_prev List.mem_cons_self
  have hlast : a ≠ q.links.prev q.guard := fun heq => hring (heq ▸ hprev)
  have hguard : a ≠ q.guard := fun heq => hring (heq ▸ List.mem_cons_self)
  have hpushed : a ≠ t + field := mt List.mem_singleton.mpr hnew
  unfold queuePush listAdd
  dsimp only
  rw [hnext, update_of_ne hpushed, update_of_ne hlast, update_of_ne hguard, update_of_ne hpushed]
  exact ⟨rfl, rfl⟩

theorem Refines.popFrame (h : q.Refines field ts) {a : Nat}
    (ha : a ∉ q.guard :: ts.map (· + field)) :
    q.queuePop.links.next a = q.links.next a ∧ q.queuePop.links.prev a = q.links.prev a := by
  obtain ⟨hprev, hfirst⟩ := h.ring.prev_next List.mem_cons_self
  obtain ⟨-, hsecond⟩ := h.ring.prev_next hfirst
  have hguard : a ≠ q.guard := fun heq => ha (heq ▸ List.mem_cons_self)
  have hnext : a ≠ q.links.next (q.links.next q.guard) := fun heq => ha (heq ▸ hsecond)
  unfold queuePop listDelete
  split_ifs
  · exact ⟨rfl, rfl⟩
  · dsimp only
    rw [hprev, update_of_ne hguard, update_of_ne hnext]
    exact ⟨rfl, rfl⟩

/-- Whatever is pushed and popped after `QUEUE_INIT`, the guard and the entries form one ring in the
order of the pushes, and the queue is that of the objects pushed and not popped. -/
theorem reaches_isFifo (links : RingLinks Nat) (guard field : Nat) {q : Queue} {ts : List Nat}
    (h : Reaches links guard field q ts) : q.IsFifo guard field ts := by
  obtain ⟨rfl, hq⟩ := h.refines
  have hlt := hq.length_lt
  refine ⟨hq.ring, fun a ha => ?_, ?_, hq.front, ?_, ?_, fun _ _ => hq.pushFrame,
    fun _ => hq.popFrame⟩
  · exact ⟨(hq.ring.prev_next ha).1, (hq.ring.next_prev ha).1⟩
  · have hnat : (BitVec.ofNat 32 ts.length).toNat = ts.length := Nat.mod_eq_of_lt (by omega)
    rw [hq.size, BitVec.toInt_eq_toNat_of_lt (by omega), hnat]
  · rw [hq.front]
    cases ts with
    | nil => exact iff_of_true rfl rfl
    | cons t ts =>
      have hne : t ≠ 0 := fun heq => hq.objects (heq ▸ List.mem_cons_self)
      exact iff_of_false hne (List.cons_ne_nil t ts)
  · exact fun hnil => if_pos (hq.size_eq_zero.mpr hnil)

/-- Two entries are pushed, and the first one popped. -/
theorem reaches_isFifo_two :
    let q := (init ⟨fun _ => 0, fun _ => 0⟩ 0x1000).queuePush 0x2010
    let q := (q.queuePush 0x3010).queuePop
    q.IsFifo 0x1000 0x10 [0x3000] ∧ q.queueFront 0x10 = 0x3000 := by
  have hlist : ∀ a, 8 ∣ a → a + 16 ≤ mappedBytes → IsList a := fun _ h8 hle => ⟨h8, hle⟩
  have hinit : Reaches ⟨fun _ => 0, fun _ => 0⟩ 0x1000 0x10 _ [] :=
    Reaches.init (hlist 0x1000 (by decide) (by decide))
  have hfirst := hinit.push 0x2000 (by decide) (hlist _ (by decide) (by decide)) (by decide)
    (by decide)
  have hsecond := hfirst.push 0x3000 (by decide) (hlist _ (by decide) (by decide)) (by decide)
    (by decide)
  have hfifo := reaches_isFifo _ _ _ hsecond.pop
  exact ⟨hfifo, hfifo.front⟩

end Queue
end Amaterasu
