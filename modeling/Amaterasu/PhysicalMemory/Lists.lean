import Amaterasu.Library.BuddyPool
import Amaterasu.Library.LinkedLists
import Amaterasu.PhysicalMemory.Defs

/-! The two list operations are the pointer surgery of the linked-list library; they leave
every flags field alone. A state represents a pool when its lists spell the free blocks. -/

namespace Amaterasu
open Function

namespace Page

theorem isTop_orTop (p : Page) : (p.orFlags pageTop).isTop = true := by
  have : ∀ f : BitVec 8, (f ||| pageTop) &&& pageTop ≠ 0 := by decide
  simpa [isTop, orFlags] using this p.flags

theorem isTop_orAllocated (p : Page) : (p.orFlags pageAllocated).isTop = p.isTop := by
  have : ∀ f : BitVec 8, (f ||| pageAllocated) &&& pageTop = f &&& pageTop := by decide
  simp [isTop, orFlags, this p.flags]

theorem isTop_xorAllocated (p : Page) : (p.xorFlags pageAllocated).isTop = p.isTop := by
  have : ∀ f : BitVec 8, (f ^^^ pageAllocated) &&& pageTop = f &&& pageTop := by decide
  simp [isTop, xorFlags, this p.flags]

theorem isAllocated_orTop (p : Page) : (p.orFlags pageTop).isAllocated = p.isAllocated := by
  have : ∀ f : BitVec 8, (f ||| pageTop) &&& pageAllocated = f &&& pageAllocated := by decide
  simp [isAllocated, orFlags, this p.flags]

theorem isAllocated_orAllocated (p : Page) : (p.orFlags pageAllocated).isAllocated = true := by
  have : ∀ f : BitVec 8, (f ||| pageAllocated) &&& pageAllocated ≠ 0 := by decide
  simpa [isAllocated, orFlags] using this p.flags

theorem isAllocated_xorAllocated (p : Page) :
    (p.xorFlags pageAllocated).isAllocated = !p.isAllocated := by
  have : ∀ f : BitVec 8, ((f ^^^ pageAllocated) &&& pageAllocated != 0) =
    !(f &&& pageAllocated != 0) := by decide
  simp only [isAllocated, xorFlags, this p.flags]

theorem isReserved_orTop (p : Page) : (p.orFlags pageTop).isReserved = p.isReserved := by
  have : ∀ f : BitVec 8, (f ||| pageTop) &&& pageReserved = f &&& pageReserved := by decide
  simp [isReserved, orFlags, this p.flags]

theorem isReserved_orAllocated (p : Page) :
    (p.orFlags pageAllocated).isReserved = p.isReserved := by
  have : ∀ f : BitVec 8, (f ||| pageAllocated) &&& pageReserved = f &&& pageReserved := by decide
  simp [isReserved, orFlags, this p.flags]

theorem isReserved_xorAllocated (p : Page) :
    (p.xorFlags pageAllocated).isReserved = p.isReserved := by
  have : ∀ f : BitVec 8, (f ^^^ pageAllocated) &&& pageReserved = f &&& pageReserved := by decide
  simp [isReserved, xorFlags, this p.flags]

end Page

namespace PageFrames

theorem isTop_congr {p q : Page} (h : p.flags = q.flags) : p.isTop = q.isTop := by
  simp only [Page.isTop, h]

theorem isAllocated_congr {p q : Page} (h : p.flags = q.flags) :
    p.isAllocated = q.isAllocated := by
  simp only [Page.isAllocated, h]

theorem isReserved_congr {p q : Page} (h : p.flags = q.flags) :
    p.isReserved = q.isReserved := by
  simp only [Page.isReserved, h]

/-- The pointers of the free lists. -/
def links (s : PageFrames) : Links Nat Nat where
  head := s.pageFrameOrder
  next i := (s.memoryMap i).next
  prev i := (s.memoryMap i).prev

/-- The blocks the free lists hold, read off the pointers. -/
def freeBlocks (s : PageFrames) : Set Block := {b | b.start ∈ s.links.members b.order}

def freeFrames (s : PageFrames) : Set Nat := {x | ∃ b ∈ s.freeBlocks, x ∈ b.span}

theorem modifyPage_self (s : PageFrames) (i : Nat) (f : Page → Page) :
    (s.modifyPage i f).memoryMap i = f (s.memoryMap i) := update_self ..

theorem modifyPage_of_ne (s : PageFrames) {i j : Nat} (f : Page → Page) (h : j ≠ i) :
    (s.modifyPage i f).memoryMap j = s.memoryMap j := update_of_ne h ..

@[simp] theorem modifyPage_order (s : PageFrames) (i : Nat) (f : Page → Page) :
    (s.modifyPage i f).pageFrameOrder = s.pageFrameOrder := rfl

@[simp] theorem modifyPage_total (s : PageFrames) (i : Nat) (f : Page → Page) :
    (s.modifyPage i f).totalPageNumber = s.totalPageNumber := rfl

@[simp] theorem setOrder_map (s : PageFrames) (k : Nat) (p : Option Nat) :
    (s.setOrder k p).memoryMap = s.memoryMap := rfl

/-- A field that `f` keeps is kept by modifying one page with `f`. -/
theorem modifyPage_field {α : Type*} (g : Page → α) (s : PageFrames) (i j : Nat)
    {f : Page → Page} (hf : ∀ p, g (f p) = g p) :
    g ((s.modifyPage i f).memoryMap j) = g (s.memoryMap j) := by
  by_cases h : j = i
  · subst h
    rw [modifyPage_self, hf]
  · rw [modifyPage_of_ne s f h]

theorem links_modifyPage (s : PageFrames) (i : Nat) {f : Page → Page}
    (hn : ∀ p, (f p).next = p.next) (hp : ∀ p, (f p).prev = p.prev) :
    (s.modifyPage i f).links = s.links := by
  simp only [links, modifyPage_order, modifyPage_field Page.next s i _ hn,
    modifyPage_field Page.prev s i _ hp]

theorem links_setPrev (s : PageFrames) (i : Nat) (v : Option Nat) :
    (s.modifyPage i (·.setPrev v)).links =
      { s.links with prev := update s.links.prev i v } := by
  simp only [links, modifyPage_order, Links.mk.injEq, true_and]
  refine ⟨funext fun j => modifyPage_field Page.next s i j fun _ => rfl, funext fun j => ?_⟩
  by_cases h : j = i
  · subst h
    rw [modifyPage_self, update_self]
    rfl
  · rw [modifyPage_of_ne s _ h, update_of_ne h]

theorem links_setNext (s : PageFrames) (i : Nat) (v : Option Nat) :
    (s.modifyPage i (·.setNext v)).links =
      { s.links with next := update s.links.next i v } := by
  simp only [links, modifyPage_order, Links.mk.injEq, true_and]
  refine ⟨funext fun j => ?_, funext fun j => modifyPage_field Page.prev s i j fun _ => rfl⟩
  by_cases h : j = i
  · subst h
    rw [modifyPage_self, update_self]
    rfl
  · rw [modifyPage_of_ne s _ h, update_of_ne h]

theorem links_setOrder (s : PageFrames) (k : Nat) (p : Option Nat) :
    (s.setOrder k p).links = { s.links with head := update s.links.head k p } := rfl

theorem links_addTo (s : PageFrames) (k i : Nat) :
    (s.addToPageFrameOrder k i).links = s.links.push k i := by
  have hhead : s.links.head k = s.pageFrameOrder k := rfl
  unfold addToPageFrameOrder Links.push
  rw [hhead]
  cases s.pageFrameOrder k <;>
    simp only [links_setOrder, links_setNext, links_setPrev,
      links_modifyPage s i (f := (·.setPriv k)) (fun _ => rfl) (fun _ => rfl)]

theorem links_deleteFrom (s : PageFrames) (k i : Nat) :
    (s.deleteFromPageFrameOrder k i).links = s.links.remove k i := by
  have hprev : s.links.prev i = (s.memoryMap i).prev := rfl
  have hnext : s.links.next i = (s.memoryMap i).next := rfl
  unfold deleteFromPageFrameOrder Links.remove
  rw [hprev, hnext]
  cases (s.memoryMap i).prev <;> cases (s.memoryMap i).next <;>
    simp only [links_setOrder, links_setNext, links_setPrev]

/-- The list operations keep every field but `priv` and the links. -/
theorem field_addTo {α : Type*} (g : Page → α) (hv : ∀ p v, g (p.setPriv v) = g p)
    (hp : ∀ p v, g (p.setPrev v) = g p) (hn : ∀ p v, g (p.setNext v) = g p)
    (s : PageFrames) (k i j : Nat) :
    g ((s.addToPageFrameOrder k i).memoryMap j) = g (s.memoryMap j) := by
  unfold addToPageFrameOrder
  cases s.pageFrameOrder k <;>
    simp only [setOrder_map, modifyPage_field g _ _ _ fun p => hv p _,
      modifyPage_field g _ _ _ fun p => hp p _, modifyPage_field g _ _ _ fun p => hn p _]

theorem field_deleteFrom {α : Type*} (g : Page → α) (hp : ∀ p v, g (p.setPrev v) = g p)
    (hn : ∀ p v, g (p.setNext v) = g p) (s : PageFrames) (k i j : Nat) :
    g ((s.deleteFromPageFrameOrder k i).memoryMap j) = g (s.memoryMap j) := by
  unfold deleteFromPageFrameOrder
  cases (s.memoryMap i).prev <;> cases (s.memoryMap i).next <;>
    simp only [setOrder_map, modifyPage_field g _ _ _ fun p => hp p _,
      modifyPage_field g _ _ _ fun p => hn p _]

theorem flags_addTo (s : PageFrames) (k i j : Nat) :
    ((s.addToPageFrameOrder k i).memoryMap j).flags = (s.memoryMap j).flags :=
  field_addTo Page.flags (fun _ _ => rfl) (fun _ _ => rfl) (fun _ _ => rfl) s k i j

theorem flags_deleteFrom (s : PageFrames) (k i j : Nat) :
    ((s.deleteFromPageFrameOrder k i).memoryMap j).flags = (s.memoryMap j).flags :=
  field_deleteFrom Page.flags (fun _ _ => rfl) (fun _ _ => rfl) s k i j

theorem priv_deleteFrom (s : PageFrames) (k i j : Nat) :
    ((s.deleteFromPageFrameOrder k i).memoryMap j).priv = (s.memoryMap j).priv :=
  field_deleteFrom Page.priv (fun _ _ => rfl) (fun _ _ => rfl) s k i j

theorem priv_addTo (s : PageFrames) (k i j : Nat) :
    ((s.addToPageFrameOrder k i).memoryMap j).priv = if j = i then k else (s.memoryMap j).priv := by
  have hprev : ∀ (t : PageFrames) (a b : Nat) (v : Option Nat),
      ((t.modifyPage a (·.setPrev v)).memoryMap b).priv = (t.memoryMap b).priv :=
    fun t a b _ => modifyPage_field Page.priv t a b fun _ => rfl
  have hnext : ∀ (t : PageFrames) (a b : Nat) (v : Option Nat),
      ((t.modifyPage a (·.setNext v)).memoryMap b).priv = (t.memoryMap b).priv :=
    fun t a b _ => modifyPage_field Page.priv t a b fun _ => rfl
  have hset : ((s.addToPageFrameOrder k i).memoryMap j).priv =
      ((s.modifyPage i (·.setPriv k)).memoryMap j).priv := by
    unfold addToPageFrameOrder
    cases s.pageFrameOrder k <;> simp only [setOrder_map, hprev, hnext]
  rw [hset]
  split_ifs with h
  · subst h
    rw [modifyPage_self]
    rfl
  · rw [modifyPage_of_ne s _ h]

@[simp] theorem total_addTo (s : PageFrames) (k i : Nat) :
    (s.addToPageFrameOrder k i).totalPageNumber = s.totalPageNumber := by
  unfold addToPageFrameOrder
  cases s.pageFrameOrder k <;> rfl

@[simp] theorem total_deleteFrom (s : PageFrames) (k i : Nat) :
    (s.deleteFromPageFrameOrder k i).totalPageNumber = s.totalPageNumber := by
  unfold deleteFromPageFrameOrder
  cases (s.memoryMap i).prev <;> cases (s.memoryMap i).next <;> rfl

theorem head_addTo (s : PageFrames) (k i : Nat) :
    (s.addToPageFrameOrder k i).pageFrameOrder k = some i := by
  unfold addToPageFrameOrder
  exact update_self ..

/-! ## Representation -/

/-- The frames a map offers. -/
def usable (s : PageFrames) : Set Nat :=
  {x | x < s.totalPageNumber ∧ (s.memoryMap x).isReserved = false}

variable {R : Set Nat}

/-- The lists spell the free blocks of the pool. -/
structure Spells (s : PageFrames) (p : Pool R) : Prop where
  linked : s.links.Linked
  mem : ∀ b, b ∈ s.freeBlocks ↔ b ∈ p.free

/-- The lists spell the free blocks of the pool, and the flags tell its blocks apart: every
first frame has `PAGE_TOP`, exactly the live ones `PAGE_ALLOCATED`. -/
structure Represents (s : PageFrames) (p : Pool R) : Prop where
  linked : s.links.Linked
  mem : ∀ b, b ∈ s.freeBlocks ↔ b ∈ p.free
  priv : ∀ b ∈ p.free, (s.memoryMap b.start).priv = b.order
  top : ∀ b ∈ p.free ∪ p.live, (s.memoryMap b.start).isTop = true
  allocated : ∀ x ∈ R, (s.memoryMap x).isAllocated = true ↔ ∃ b ∈ p.live, b.start = x
  usable : s.usable = R

theorem Represents.spells {s : PageFrames} {p : Pool R} (h : s.Represents p) : s.Spells p :=
  ⟨h.linked, h.mem⟩

theorem mem_freeBlocks_addTo {s : PageFrames} (h : s.links.Linked) {k i : Nat}
    (hi : ∀ b ∈ s.freeBlocks, b.start ≠ i) :
    (s.addToPageFrameOrder k i).links.Linked ∧
      ∀ b, b ∈ (s.addToPageFrameOrder k i).freeBlocks ↔ b = ⟨k, i⟩ ∨ b ∈ s.freeBlocks := by
  have hp := h.push (k := k) (x := i) fun j hj => hi ⟨j, i⟩ hj rfl
  rw [← links_addTo] at hp
  refine ⟨hp.1, fun b => ?_⟩
  have := hp.2 b.order b.start
  cases b
  simpa [freeBlocks] using this

theorem mem_freeBlocks_deleteFrom {s : PageFrames} (h : s.links.Linked) {b : Block}
    (hb : b ∈ s.freeBlocks) :
    (s.deleteFromPageFrameOrder b.order b.start).links.Linked ∧
      ∀ c, c ∈ (s.deleteFromPageFrameOrder b.order b.start).freeBlocks ↔
        c ∈ s.freeBlocks ∧ c ≠ b := by
  have hr := h.remove hb
  rw [← links_deleteFrom] at hr
  refine ⟨hr.1, fun c => ?_⟩
  have := hr.2 c.order c.start
  cases b
  cases c
  simpa [freeBlocks] using this

theorem freeBlocks_modifyPage (s : PageFrames) (i : Nat) {f : Page → Page}
    (hn : ∀ p, (f p).next = p.next) (hp : ∀ p, (f p).prev = p.prev) :
    (s.modifyPage i f).freeBlocks = s.freeBlocks := by
  simp only [freeBlocks, links_modifyPage s i hn hp]

theorem usable_congr {s t : PageFrames} (ht : t.totalPageNumber = s.totalPageNumber)
    (hr : ∀ j, (t.memoryMap j).isReserved = (s.memoryMap j).isReserved) :
    t.usable = s.usable := by
  simp only [usable, ht, hr]

theorem head_mem_freeBlocks {s : PageFrames} {k i : Nat} (h : s.pageFrameOrder k = some i) :
    (⟨k, i⟩ : Block) ∈ s.freeBlocks := Links.head_mem (l := s.links) h

theorem not_mem_freeBlocks {s : PageFrames} {b : Block} (h : s.pageFrameOrder b.order = none) :
    b ∉ s.freeBlocks := fun hb => by
  have := Links.members_eq_empty (l := s.links) h
  exact Set.notMem_empty b.start (this ▸ hb)

end PageFrames
end Amaterasu
