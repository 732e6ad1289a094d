import Amaterasu.KHeap.Defs
import Amaterasu.Library.TidyPool
import Amaterasu.Library.LinkedLists

/-! The heap against the pool of its cells: the lists spell the free blocks, `isAllocated` marks
the first cells of the live ones. `AddTokHeapOrder` never sets the back link of the old front,
so the lists are singly linked. -/

namespace Amaterasu.KHeap
open Function Block

/-- The pointers of the free lists. -/
def links (h : KHeap) : Links Nat Nat where
  head := h.kHeapOrder
  next i := (h.kHeapBlocks i).next
  prev i := (h.kHeapBlocks i).prev

/-- The blocks the free lists hold, read off the pointers. -/
def freeBlocks (h : KHeap) : Set Block := {b | b.start ∈ h.links.members b.order}

/-- The allocations that have not been freed, read off the cells. -/
def liveBlocks (h : KHeap) : Set Block :=
  {b | (h.kHeapBlocks b.start).isAllocated = true ∧ (h.kHeapBlocks b.start).order = b.order}

variable {h : KHeap}

/-! ## The cells of a request -/

/-- `blockNumber` rounds up. -/
theorem blockNumber_le_iff {size m : Nat} :
    blockNumber size ≤ m ↔ size ≤ kHeapBlockSize * m := by
  unfold blockNumber kHeapBlockSize
  split_ifs <;> omega

theorem blockNumber_isLeast (size : Nat) :
    IsLeast {m | size ≤ kHeapBlockSize * m} (blockNumber size) :=
  ⟨blockNumber_le_iff.mp le_rfl, fun _ hm => blockNumber_le_iff.mpr hm⟩

theorem blockNumber_eq_zero_iff {size : Nat} : blockNumber size = 0 ↔ size = 0 := by
  rw [← Nat.le_zero, blockNumber_le_iff, Nat.mul_zero, Nat.le_zero]

theorem blockNumber_pos {size : Nat} (hs : 1 ≤ size) : 0 < blockNumber size :=
  Nat.pos_of_ne_zero fun h => absurd (blockNumber_eq_zero_iff.mp h) (by omega)

theorem blockNumber_lt {size : Nat} (hs : size < 2 ^ 32) : blockNumber size < 2 ^ 64 := by
  have hle : blockNumber size ≤ size :=
    blockNumber_le_iff.mpr (Nat.le_mul_of_pos_left size (by decide))
  omega

/-! ## Fields -/

theorem modifyBlock_self (h : KHeap) (i : Nat) (f : KHeapBlock → KHeapBlock) :
    (h.modifyBlock i f).kHeapBlocks i = f (h.kHeapBlocks i) := update_self ..

theorem modifyBlock_of_ne (h : KHeap) {i j : Nat} (f : KHeapBlock → KHeapBlock) (hj : j ≠ i) :
    (h.modifyBlock i f).kHeapBlocks j = h.kHeapBlocks j := update_of_ne hj ..

@[simp] theorem modifyBlock_order (h : KHeap) (i : Nat) (f : KHeapBlock → KHeapBlock) :
    (h.modifyBlock i f).kHeapOrder = h.kHeapOrder := rfl

@[simp] theorem modifyBlock_start (h : KHeap) (i : Nat) (f : KHeapBlock → KHeapBlock) :
    (h.modifyBlock i f).kHeapStart = h.kHeapStart := rfl

@[simp] theorem setOrder_blocks (h : KHeap) (k : Nat) (p : Option Nat) :
    (h.setOrder k p).kHeapBlocks = h.kHeapBlocks := rfl

/-- A field that `f` keeps is kept by modifying one block with `f`. -/
theorem modifyBlock_field {α : Type*} (g : KHeapBlock → α) (h : KHeap) (i j : Nat)
    {f : KHeapBlock → KHeapBlock} (hf : ∀ b, g (f b) = g b) :
    g ((h.modifyBlock i f).kHeapBlocks j) = g (h.kHeapBlocks j) := by
  by_cases hj : j = i
  · subst hj
    rw [modifyBlock_self, hf]
  · rw [modifyBlock_of_ne h f hj]

theorem modifyBlock_set {α : Type*} (g : KHeapBlock → α) (v : α) (h : KHeap) (i j : Nat)
    {f : KHeapBlock → KHeapBlock} (hf : ∀ b, g (f b) = v) :
    g ((h.modifyBlock i f).kHeapBlocks j) = if j = i then v else g (h.kHeapBlocks j) := by
  split_ifs with hj
  · subst hj
    rw [modifyBlock_self, hf]
  · rw [modifyBlock_of_ne h f hj]

theorem order_addTo (h : KHeap) (k i j : Nat) :
    ((h.addTokHeapOrder k i).kHeapBlocks j).order =
      if j = i then k else (h.kHeapBlocks j).order :=
  modifyBlock_set KHeapBlock.order k h i j (f := (·.enlist k (h.kHeapOrder k))) fun _ => rfl

theorem isAllocated_addTo (h : KHeap) (k i j : Nat) :
    ((h.addTokHeapOrder k i).kHeapBlocks j).isAllocated =
      if j = i then false else (h.kHeapBlocks j).isAllocated :=
  modifyBlock_set KHeapBlock.isAllocated false h i j (f := (·.enlist k (h.kHeapOrder k)))
    fun _ => rfl

theorem id_addTo (h : KHeap) (k i j : Nat) :
    ((h.addTokHeapOrder k i).kHeapBlocks j).id = (h.kHeapBlocks j).id :=
  modifyBlock_field KHeapBlock.id h i j (f := (·.enlist k (h.kHeapOrder k))) fun _ => rfl

@[simp] theorem start_addTo (h : KHeap) (k i : Nat) :
    (h.addTokHeapOrder k i).kHeapStart = h.kHeapStart := rfl

theorem head_addTo (h : KHeap) (k i : Nat) : (h.addTokHeapOrder k i).kHeapOrder k = some i :=
  update_self ..

/-- Relinking the neighbours keeps every field but the links. -/
theorem field_deleteFrom {α : Type*} (g : KHeapBlock → α) (hp : ∀ b v, g (b.setPrev v) = g b)
    (hn : ∀ b v, g (b.setNext v) = g b) (h : KHeap) (k i j : Nat) :
    g ((h.deleteFromkHeapOrder k i).kHeapBlocks j) =
      if j = i then g ((h.deleteFromkHeapOrder k i).kHeapBlocks i) else g (h.kHeapBlocks j) := by
  split_ifs with hj
  · rw [hj]
  · unfold deleteFromkHeapOrder
    rw [modifyBlock_of_ne _ _ hj]
    cases (h.kHeapBlocks i).prev <;> cases (h.kHeapBlocks i).next <;>
      simp only [setOrder_blocks, modifyBlock_field g _ _ _ fun b => hp b _,
        modifyBlock_field g _ _ _ fun b => hn b _]

theorem order_deleteFrom (h : KHeap) (k i j : Nat) :
    ((h.deleteFromkHeapOrder k i).kHeapBlocks j).order =
      if j = i then 0 else (h.kHeapBlocks j).order := by
  rw [field_deleteFrom KHeapBlock.order (fun _ _ => rfl) (fun _ _ => rfl)]
  congr 1
  exact congrArg KHeapBlock.order (modifyBlock_self _ i _)

theorem isAllocated_deleteFrom (h : KHeap) (k i j : Nat) :
    ((h.deleteFromkHeapOrder k i).kHeapBlocks j).isAllocated =
      if j = i then false else (h.kHeapBlocks j).isAllocated := by
  rw [field_deleteFrom KHeapBlock.isAllocated (fun _ _ => rfl) (fun _ _ => rfl)]
  congr 1
  exact congrArg KHeapBlock.isAllocated (modifyBlock_self _ i _)

theorem id_deleteFrom (h : KHeap) (k i j : Nat) :
    ((h.deleteFromkHeapOrder k i).kHeapBlocks j).id = (h.kHeapBlocks j).id := by
  have hclear : ∀ (u : KHeap) a, ((u.modifyBlock a (·.clear)).kHeapBlocks j).id =
      (u.kHeapBlocks j).id := fun u a => modifyBlock_field KHeapBlock.id u a j fun _ => rfl
  have hsp : ∀ (u : KHeap) a v, ((u.modifyBlock a (·.setPrev v)).kHeapBlocks j).id =
      (u.kHeapBlocks j).id := fun u a _ => modifyBlock_field KHeapBlock.id u a j fun _ => rfl
  have hsn : ∀ (u : KHeap) a v, ((u.modifyBlock a (·.setNext v)).kHeapBlocks j).id =
      (u.kHeapBlocks j).id := fun u a _ => modifyBlock_field KHeapBlock.id u a j fun _ => rfl
  unfold deleteFromkHeapOrder
  cases (h.kHeapBlocks i).prev <;> cases (h.kHeapBlocks i).next <;>
    simp only [hclear, hsp, hsn, setOrder_blocks]

@[simp] theorem start_deleteFrom (h : KHeap) (k i : Nat) :
    (h.deleteFromkHeapOrder k i).kHeapStart = h.kHeapStart := by
  unfold deleteFromkHeapOrder
  cases (h.kHeapBlocks i).prev <;> cases (h.kHeapBlocks i).next <;> rfl

/-! ## Links -/

theorem links_modifyBlock (h : KHeap) (i : Nat) {f : KHeapBlock → KHeapBlock}
    (hn : ∀ b, (f b).next = b.next) (hp : ∀ b, (f b).prev = b.prev) :
    (h.modifyBlock i f).links = h.links := by
  simp only [links, modifyBlock_order, modifyBlock_field KHeapBlock.next h i _ hn,
    modifyBlock_field KHeapBlock.prev h i _ hp]

theorem links_modify {h : KHeap} {i : Nat} {f : KHeapBlock → KHeapBlock} {n p : Option Nat}
    (hn : (f (h.kHeapBlocks i)).next = n) (hp : (f (h.kHeapBlocks i)).prev = p) :
    (h.modifyBlock i f).links =
      { h.links with next := update h.links.next i n, prev := update h.links.prev i p } := by
  simp only [links, modifyBlock_order, Links.mk.injEq, true_and]
  refine ⟨funext fun j => ?_, funext fun j => ?_⟩ <;> by_cases hj : j = i
  · subst hj
    rw [modifyBlock_self, update_self, hn]
  · rw [modifyBlock_of_ne h f hj, update_of_ne hj]
  · subst hj
    rw [modifyBlock_self, update_self, hp]
  · rw [modifyBlock_of_ne h f hj, update_of_ne hj]

theorem links_addTo (h : KHeap) (k i : Nat) :
    (h.addTokHeapOrder k i).links = h.links.pushForward k i := by
  have hlinks : (h.modifyBlock i (·.enlist k (h.kHeapOrder k))).links =
      { h.links with
        next := update h.links.next i (h.kHeapOrder k), prev := update h.links.prev i none } :=
    links_modify rfl rfl
  have hset : (h.addTokHeapOrder k i).links =
      { (h.modifyBlock i (·.enlist k (h.kHeapOrder k))).links with
        head := update h.kHeapOrder k (some i) } := rfl
  rw [hset, hlinks]
  rfl

theorem links_deleteFrom (h : KHeap) (k i : Nat) :
    (h.deleteFromkHeapOrder k i).links = h.links.remove k i := by
  have hprev : h.links.prev i = (h.kHeapBlocks i).prev := rfl
  have hnext : h.links.next i = (h.kHeapBlocks i).next := rfl
  have hset : ∀ (u : KHeap) (p : Option Nat),
      (u.setOrder k p).links = { u.links with head := update u.links.head k p } := fun _ _ => rfl
  have hclear : ∀ u : KHeap, (u.modifyBlock i (·.clear)).links =
      { u.links with next := update u.links.next i none, prev := update u.links.prev i none } :=
    fun u => links_modify rfl rfl
  have hsp : ∀ (u : KHeap) (a : Nat) (p : Option Nat), (u.modifyBlock a (·.setPrev p)).links =
      { u.links with prev := update u.links.prev a p } := fun u a p => by
    rw [links_modify (n := u.links.next a) (p := p) rfl rfl, update_eq_self]
  have hsn : ∀ (u : KHeap) (a : Nat) (n : Option Nat), (u.modifyBlock a (·.setNext n)).links =
      { u.links with next := update u.links.next a n } := fun u a n => by
    rw [links_modify (n := n) (p := u.links.prev a) rfl rfl, update_eq_self]
  unfold deleteFromkHeapOrder Links.remove
  rw [hprev, hnext]
  cases (h.kHeapBlocks i).prev <;> cases (h.kHeapBlocks i).next <;>
    simp only [hclear, hset, hsp, hsn]

theorem next_addTo (h : KHeap) (k i : Nat) :
    ((h.addTokHeapOrder k i).kHeapBlocks i).next = h.kHeapOrder k :=
  congrArg KHeapBlock.next (modifyBlock_self h i (·.enlist k (h.kHeapOrder k)))

theorem order_list_addTo (h : KHeap) {j k : Nat} (i : Nat) (hj : j ≠ k) :
    (h.addTokHeapOrder k i).kHeapOrder j = h.kHeapOrder j := update_of_ne hj ..

theorem order_list_deleteFrom (h : KHeap) {j k : Nat} (i : Nat) (hj : j ≠ k) :
    (h.deleteFromkHeapOrder k i).kHeapOrder j = h.kHeapOrder j := by
  have := Links.remove_head_of_ne h.links i hj
  rwa [← links_deleteFrom] at this

/-- A block without back link hands the front of its list to its successor. -/
theorem head_deleteFrom {h : KHeap} (k : Nat) {i : Nat} (hi : (h.kHeapBlocks i).prev = none) :
    (h.deleteFromkHeapOrder k i).kHeapOrder k = (h.kHeapBlocks i).next := by
  have hlinks : (h.deleteFromkHeapOrder k i).links.head k = (h.links.remove k i).head k := by
    rw [links_deleteFrom]
  refine hlinks.trans ?_
  simp [Links.remove, links, hi]

theorem mem_freeBlocks_addTo (hc : h.links.Chained) {k i : Nat}
    (hi : ∀ b ∈ h.freeBlocks, b.start ≠ i) :
    (h.addTokHeapOrder k i).links.Chained ∧
      ∀ b, b ∈ (h.addTokHeapOrder k i).freeBlocks ↔ b = ⟨k, i⟩ ∨ b ∈ h.freeBlocks := by
  have hp := hc.pushForward (k := k) (x := i) fun j hj => hi ⟨j, i⟩ hj rfl
  rw [← links_addTo] at hp
  refine ⟨hp.1, fun b => ?_⟩
  have := hp.2 b.order b.start
  cases b
  simpa [freeBlocks] using this

/-- Deleting `b` loses a set of further blocks of its list, none when `b` is the front. -/
theorem mem_freeBlocks_deleteFrom (hc : h.links.Chained) {b : Block} (hb : b ∈ h.freeBlocks) :
    (h.deleteFromkHeapOrder b.order b.start).links.Chained ∧
      ∃ D : Set Block, D ⊆ h.freeBlocks ∧ b ∉ D ∧ (∀ c ∈ D, c.order = b.order) ∧
        (h.kHeapOrder b.order = some b.start → D = ∅) ∧
        ∀ c, c ∈ (h.deleteFromkHeapOrder b.order b.start).freeBlocks ↔
          c ∈ h.freeBlocks ∧ c ≠ b ∧ c ∉ D := by
  obtain ⟨hcr, D, hD, hbD, hfront, hmem⟩ := hc.remove hb
  rw [← links_deleteFrom] at hcr hmem
  refine ⟨hcr, {c | c.order = b.order ∧ c.start ∈ D}, ?_, fun h => hbD h.2, fun c hc => hc.1,
    fun hf => ?_, fun c => ?_⟩
  · rintro c ⟨ho, hs⟩
    have := hD hs
    rwa [← ho] at this
  · rw [hfront hf]
    simp
  · have := hmem c.order c.start
    cases b
    cases c
    simp only [freeBlocks, Set.mem_ofPred_eq, ne_eq, Block.mk.injEq] at this ⊢
    rw [this]
    tauto

end Amaterasu.KHeap
