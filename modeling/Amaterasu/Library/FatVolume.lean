import Amaterasu.Library.ByteMemory
import Mathlib.Logic.Function.Iterate

/-! Files in a volume with a file allocation table of 16-bit entries: the entry of a cluster names
the next one of the file. Clusters are numbered from 2 on. -/

/-- Where the table and the cluster 2 begin on the disk, and the bytes of a cluster. -/
structure FatVolume where
  table : Nat
  data : Nat
  clusterSize : Nat

namespace FatVolume
open Function
variable (v : FatVolume) (disk : ByteMemory)

/-- The table's entry. -/
def next (cluster : Nat) : Nat := (disk.readShort (v.table + 2 * cluster)).toNat

def clusterStart (cluster : Nat) : Nat := v.data + v.clusterSize * (cluster - 2)

/-- Where byte `j` of the file is that begins in the cluster `first`. -/
def place (first j : Nat) : Nat :=
  v.clusterStart ((v.next disk)^[j / v.clusterSize] first) + j % v.clusterSize

def contents (first j : Nat) : BitVec 8 := disk (v.place disk first j)

/-- Each cluster of `size` bytes but the last is followed by the one behind it. -/
def Contiguous (first size : Nat) : Prop :=
  ∀ i, v.clusterSize * (i + 1) < size → v.next disk (first + i) = first + i + 1

/-- The table has the entries of that many bytes. -/
def Entered (first size : Nat) : Prop :=
  ∀ i, v.clusterSize * (i + 1) < size → v.table + 2 * (first + i) + 2 ≤ v.data

variable {v disk} {disk' : ByteMemory} {first size i j : Nat}

/-- The chain up to a cluster behind which all goes on so far. -/
theorem iterate_next (h : ∀ l < i, v.next disk (first + l) = first + l + 1) :
    (v.next disk)^[i] first = first + i := by
  induction i with
  | zero => rfl
  | succ i ih =>
    rw [iterate_succ_apply', ih fun l hl => h l (hl.trans (Nat.lt_succ_self i))]
    exact h i (Nat.lt_succ_self i)

theorem Contiguous.place (h : v.Contiguous disk first size) (hfirst : 2 ≤ first)
    (hj : j < size) :
    v.place disk first j = v.clusterStart first + j := by
  have hchain : (v.next disk)^[j / v.clusterSize] first = first + j / v.clusterSize := by
    refine iterate_next fun l hl => h l ?_
    calc v.clusterSize * (l + 1) ≤ v.clusterSize * (j / v.clusterSize) :=
          Nat.mul_le_mul_left _ hl
      _ ≤ j := Nat.mul_div_le j _
      _ < size := hj
  have hsub : first + j / v.clusterSize - 2 = first - 2 + j / v.clusterSize :=
    Nat.sub_add_comm hfirst
  unfold FatVolume.place clusterStart
  rw [hchain, hsub, Nat.mul_add, Nat.add_assoc, Nat.add_assoc, Nat.add_assoc, Nat.div_add_mod]

/-- The table is the same on disks that agree below the data. -/
theorem next_congr (h : ∀ x < v.data, disk' x = disk x)
    (hi : v.table + 2 * i + 2 ≤ v.data) : v.next disk' i = v.next disk i := by
  unfold next
  rw [ByteMemory.readShort_congr fun j hj => h _ (by omega)]

theorem Contiguous.congr (h : v.Contiguous disk first size) (hentered : v.Entered first size)
    (hsame : ∀ x < v.data, disk' x = disk x) : v.Contiguous disk' first size := fun i hi => by
  rw [next_congr hsame (hentered i hi)]
  exact h i hi

/-- A reader that goes straight on from the first cluster reads the file, whatever is in the data,
just when its clusters follow one another. -/
theorem contents_linear_iff (hfirst : 2 ≤ first) (hsize : 0 < v.clusterSize)
    (hentered : v.Entered first size) :
    (∀ disk' : ByteMemory, (∀ x < v.data, disk' x = disk x) →
      ∀ j < size, disk' (v.clusterStart first + j) = v.contents disk' first j) ↔
    v.Contiguous disk first size := by
  constructor
  · intro hall i hi
    induction i using Nat.strong_induction_on with
    | _ i ih =>
      have hbefore : ∀ l < i, v.next disk (first + l) = first + l + 1 := fun l hl =>
        ih l hl ((Nat.mul_lt_mul_of_pos_left (Nat.succ_lt_succ hl) hsize).trans hi)
      by_contra hne
      -- a byte that the straight reader takes for the first one of the next cluster
      let x := v.clusterStart first + v.clusterSize * (i + 1)
      let y := v.clusterStart (v.next disk (first + i))
      let disk' : ByteMemory := update disk x (disk y + 1)
      have hxdata : v.data ≤ x := by
        unfold x clusterStart
        omega
      have hsame : ∀ z < v.data, disk' z = disk z := fun z hz =>
        update_of_ne (Nat.ne_of_lt (hz.trans_le hxdata)) _ _
      have hchain : (v.next disk')^[i + 1] first = v.next disk (first + i) := by
        have hbefore' : ∀ l < i, v.next disk' (first + l) = first + l + 1 := fun l hl => by
          rw [next_congr hsame (hentered l _), hbefore l hl]
          exact (Nat.mul_lt_mul_of_pos_left (Nat.succ_lt_succ hl) hsize).trans hi
        rw [iterate_succ_apply', iterate_next hbefore', next_congr hsame (hentered i hi)]
      have hplace : v.place disk' first (v.clusterSize * (i + 1)) = y := by
        unfold place
        rw [Nat.mul_div_cancel_left _ hsize, Nat.mul_mod_right, Nat.add_zero, hchain]
      have hxy : y ≠ x := by
        intro heq
        have hmul : v.clusterSize * (v.next disk (first + i) - 2) =
            v.clusterSize * (first - 2 + (i + 1)) := by
          unfold x y clusterStart at heq
          rw [Nat.mul_add]
          omega
        have hsub := Nat.eq_of_mul_eq_mul_left hsize hmul
        omega
      have hbyte := hall disk' hsame _ hi
      unfold contents at hbyte
      rw [hplace] at hbyte
      have hx : disk' x = disk y + 1 := update_self ..
      have hy : disk' y = disk y := update_of_ne hxy _ _
      have hstep : ∀ b : BitVec 8, b + 1 ≠ b := by decide
      exact hstep _ (hx.symm.trans (hbyte.trans hy))
  · intro h disk' hsame j hj
    unfold contents
    rw [(h.congr hentered hsame).place hfirst hj]

end FatVolume
