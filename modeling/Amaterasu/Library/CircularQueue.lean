import Mathlib.Data.List.Basic
import Mathlib.Data.Nat.ModEq
import Mathlib.Logic.Function.Basic

/-! A bounded queue in a circular array, read off as the list of its entries from the head on. -/

/-- The entries are at `head`, `head + 1`, …, taken modulo the capacity. -/
structure CircularQueue (α : Type*) where
  head : Nat
  size : Nat
  body : Nat → α

namespace CircularQueue
open Function
variable {α : Type*} {cap : Nat} {r : CircularQueue α}

def slot (cap : Nat) (r : CircularQueue α) (i : Nat) : Nat := (r.head + i) % cap

def toList (cap : Nat) (r : CircularQueue α) : List α :=
  (List.range r.size).map fun i => r.body (r.slot cap i)

def front (r : CircularQueue α) : α := r.body r.head

def push (cap : Nat) (r : CircularQueue α) (x : α) : CircularQueue α :=
  { r with size := r.size + 1, body := update r.body (r.slot cap r.size) x }

def pop (cap : Nat) (r : CircularQueue α) : CircularQueue α :=
  { r with head := (r.head + 1) % cap, size := r.size - 1 }

def modifyFront (r : CircularQueue α) (f : α → α) : CircularQueue α :=
  { r with body := update r.body r.head (f r.front) }

def map {β : Type*} (f : α → β) (r : CircularQueue α) : CircularQueue β :=
  { r with body := fun i => f (r.body i) }

/-- The indices stay inside the array. -/
structure Fits (cap : Nat) (r : CircularQueue α) : Prop where
  head : r.head < cap
  size : r.size ≤ cap

theorem length_toList (r : CircularQueue α) (cap : Nat) : (r.toList cap).length = r.size := by
  rw [toList, List.length_map, List.length_range]

theorem slot_zero (h : r.Fits cap) : r.slot cap 0 = r.head := Nat.mod_eq_of_lt h.head

theorem slot_ne {i j : Nat} (hij : i < j) (hj : j < cap) : r.slot cap i ≠ r.slot cap j := by
  intro heq
  have hmod : i ≡ j [MOD cap] := Nat.ModEq.add_left_cancel' r.head heq
  have hdvd : cap ∣ j - i := (Nat.modEq_iff_dvd' hij.le).mp hmod
  have hle : cap ≤ j - i := Nat.le_of_dvd (Nat.sub_pos_of_lt hij) hdvd
  omega

theorem Fits.push (h : r.Fits cap) (hs : r.size < cap) (x : α) : (r.push cap x).Fits cap :=
  ⟨h.head, hs⟩

theorem Fits.pop (h : r.Fits cap) : (r.pop cap).Fits cap :=
  ⟨Nat.mod_lt _ (Nat.zero_lt_of_lt h.head), (Nat.sub_le _ _).trans h.size⟩

theorem Fits.modifyFront (h : r.Fits cap) (f : α → α) : (r.modifyFront f).Fits cap :=
  ⟨h.head, h.size⟩

theorem toList_push (hs : r.size < cap) (x : α) :
    (r.push cap x).toList cap = r.toList cap ++ [x] := by
  have hlast : (r.push cap x).body (r.slot cap r.size) = x := update_self ..
  have hrest : ∀ i < r.size, (r.push cap x).body (r.slot cap i) = r.body (r.slot cap i) :=
    fun i hi => update_of_ne (slot_ne hi hs) _ _
  unfold toList
  show (List.range (r.size + 1)).map (fun i => (r.push cap x).body (r.slot cap i)) = _
  rw [List.range_succ, List.map_append, List.map_singleton, hlast]
  congr 1
  apply List.map_congr_left
  intro i hi
  exact hrest i (List.mem_range.mp hi)

theorem toList_pop (h : r.Fits cap) (hs : 0 < r.size) :
    r.toList cap = r.front :: (r.pop cap).toList cap := by
  obtain ⟨n, hn⟩ : ∃ n, r.size = n + 1 := ⟨r.size - 1, by omega⟩
  have hslot : ∀ i, (r.pop cap).slot cap i = r.slot cap (i + 1) := by
    intro i
    show ((r.head + 1) % cap + i) % cap = (r.head + (i + 1)) % cap
    rw [Nat.mod_add_mod, Nat.add_assoc, Nat.add_comm 1 i]
  have hsize : (r.pop cap).size = n := by
    show r.size - 1 = n
    omega
  unfold toList
  rw [hn, hsize, List.range_succ_eq_map, List.map_cons, List.map_map, slot_zero h]
  congr 1
  apply List.map_congr_left
  intro i _
  show r.body (r.slot cap (i + 1)) = r.body ((r.pop cap).slot cap i)
  rw [hslot]

theorem toList_pop_modifyFront (h : r.Fits cap) (f : α → α) :
    ((r.modifyFront f).pop cap).toList cap = (r.pop cap).toList cap := by
  unfold toList
  apply List.map_congr_left
  intro i hi
  have hi' : i < r.size - 1 := List.mem_range.mp hi
  have hcap := h.size
  have hslot : (r.pop cap).slot cap i = r.slot cap (i + 1) := by
    show ((r.head + 1) % cap + i) % cap = (r.head + (i + 1)) % cap
    rw [Nat.mod_add_mod, Nat.add_assoc, Nat.add_comm 1 i]
  have hne : (r.pop cap).slot cap i ≠ r.head := by
    rw [hslot, ← slot_zero h]
    exact (slot_ne (Nat.succ_pos i) (by omega)).symm
  exact update_of_ne hne _ _

theorem map_push {β : Type*} (f : α → β) (r : CircularQueue α) (x : α) :
    (r.push cap x).map f = (r.map f).push cap (f x) :=
  congrArg (CircularQueue.mk r.head (r.size + 1)) (comp_update f r.body _ x)

theorem toList_eq_nil : r.toList cap = [] ↔ r.size = 0 := by
  rw [← List.length_eq_zero_iff, length_toList]

end CircularQueue
