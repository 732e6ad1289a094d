import Amaterasu.Kernel.Defs
import Amaterasu.Library.DirectMap

/-! Which memory the C code accesses: one lemma for each primitive, and what the accesses give when
the addresses are mapped to themselves. -/

namespace Amaterasu
open PageWalk Program

/-- The addresses from `a` up, without wrapping around. -/
def range (a : BitVec 64) (n : Nat) : Set (BitVec 64) :=
  { x | a.toNat ≤ x.toNat ∧ x.toNat < a.toNat + n }

/-- The word at `la`. -/
def wordAt (m : ByteMemory) (la : BitVec 64) : BitVec 64 :=
  ByteMemory.readWord (fun i => m (la + BitVec.ofNat 64 i).toNat) 0

/-- The addresses of `n` bytes from `la` are all in `R`. -/
def Within (R : Set (BitVec 64)) (la : BitVec 64) (n : Nat) : Prop :=
  ∀ i < n, la + BitVec.ofNat 64 i ∈ R

section Within
variable {R : Set (BitVec 64)} {la : BitVec 64} {m n : Nat}

theorem Within.mono (h : Within R la n) (hmn : m ≤ n) : Within R la m := fun i hi =>
  h i (hi.trans_le hmn)

theorem Within.start (h : Within R la n) (hn : 0 < n) : la ∈ R := BitVec.add_zero la ▸ h 0 hn

end Within

/-- The accesses between two states of the kernel. -/
def Kernel.Touches (R W : Set (BitVec 64)) (k k' : Kernel) : Prop := Ram.Touches R W k.ram k'.ram

def Kernel.Strays (R W : Set (BitVec 64)) (k k' : Kernel) : Prop := Ram.Strays R W k.ram k'.ram

section Touches
variable {R R' W W' : Set (BitVec 64)} {α β : Type} {k : Kernel}

theorem Kernel.Touches.of_ram {k' : Kernel} (h : k'.ram = k.ram) : k.Touches R W k' := by
  unfold Kernel.Touches
  rw [h]
  exact Ram.Touches.refl _

theorem Keeps.next {x : KernelM α} {f : α → KernelM β} (hx : Keeps (Kernel.Touches R W) x)
    (hf : ∀ a, Keeps (Kernel.Touches R W) (f a)) : Keeps (Kernel.Touches R W) (x >>= f) :=
  Ram.Keeps.sequence (g := Kernel.ram) hx hf

theorem return_touches (a : α) : Keeps (Kernel.Touches R W) (return a : KernelM α) := fun _ =>
  Ram.Touches.refl _

theorem onRam_touches {x : Accessing α} (h : Keeps (Ram.Touches R W) x) :
    Keeps (Kernel.Touches R W) (onRam x) := h.onPart fun _ _ => rfl

theorem modify_touches {f : Kernel → Kernel} (h : ∀ k, (f k).ram = k.ram) :
    Keeps (Kernel.Touches R W) (modify f : KernelM PUnit) := fun k => Kernel.Touches.of_ram (h k)

theorem get_touches : Keeps (Kernel.Touches R W) (get : KernelM Kernel) := fun _ =>
  Ram.Touches.refl _

variable {la dst src size : BitVec 64} {ws : List (BitVec 64)}

theorem load_touches (h : la ∈ R) : Keeps (Kernel.Touches R W) (load la) :=
  onRam_touches (Ram.load_touches h)

theorem loadWord_touches (h : Within R la 8) : Keeps (Kernel.Touches R W) (loadWord la) :=
  Keeps.next (onRam_touches (Ram.loadAll_touches h)) fun _ => return_touches _

theorem wordsBytes_mem (h : la.toNat + 8 * ws.length ≤ 2 ^ 64) {w : BitVec 64 × BitVec 8}
    (hw : w ∈ Ram.wordsBytes la ws) : w.1 ∈ range la (8 * ws.length) := by
  induction ws generalizing la with
  | nil => exact absurd hw List.not_mem_nil
  | cons v ws ih =>
    rw [List.length_cons] at h ⊢
    unfold Ram.wordsBytes at hw
    rcases List.mem_append.mp hw with hfirst | hrest
    · obtain ⟨i, hi, rfl⟩ := List.mem_map.mp hfirst
      have hlt : i < 8 := List.mem_range.mp hi
      have hadd : (la + BitVec.ofNat 64 i).toNat = la.toNat + i := toNat_add_ofNat (by omega)
      constructor
      · show la.toNat ≤ (la + BitVec.ofNat 64 i).toNat
        omega
      · show (la + BitVec.ofNat 64 i).toNat < _
        omega
    · cases ws with
      | nil => exact absurd hrest List.not_mem_nil
      | cons u us =>
        rw [List.length_cons] at h
        have hadd : (la + 8).toNat = la.toNat + 8 := by bv_omega
        obtain ⟨hlow, hhigh⟩ := ih (by rw [hadd, List.length_cons]; omega) hrest
        rw [List.length_cons] at hhigh ⊢
        exact ⟨by omega, by omega⟩

theorem storeWords_touches (ws : List (BitVec 64)) (h : la.toNat + 8 * ws.length ≤ 2 ^ 64)
    (hW : range la (8 * ws.length) ⊆ W) : Keeps (Kernel.Touches R W) (storeWords la ws) :=
  onRam_touches (Ram.storeAll_touches fun _ hw => hW (wordsBytes_mem h hw))

theorem memcpy_touches (hsrc : Within R src size.toNat) (hdst : Within W dst size.toNat) :
    Keeps (Kernel.Touches R W) (memcpy dst src size) :=
  onRam_touches (Ram.copy_touches fun i hi => ⟨hsrc i hi, hdst i hi⟩)

end Touches

/-! ## Addresses that are mapped to themselves -/

section Direct
variable {R W : Set (BitVec 64)} {k : Kernel} {la dst src size : BitVec 64} {ws : List (BitVec 64)}
  {α : Type}

theorem onRam_ok {x : Accessing α} {a : α} {r : Ram} (h : x k.ram = .ok a r) :
    onRam x k = .ok a { k with ram := r } := by
  unfold onRam onPart
  rw [h]

theorem onRam_error {x : Accessing α} {r : Ram} (h : x k.ram = .error () r) :
    onRam x k = .error () { k with ram := r } := by
  unfold onRam onPart
  rw [h]

theorem kmalloc_ok {heap : KHeap} {addr : BitVec 64} {size : BitVec 32}
    (h : k.heap.kmalloc size.toNat = some (heap, addr.toNat)) :
    kmalloc size k = .ok addr { k with heap := heap } := by
  unfold kmalloc
  rw [h]
  dsimp only
  rw [BitVec.ofNat_toNat, BitVec.setWidth_eq]

theorem onRam_final (x : Accessing α) : (final (onRam x k)).ram = final (x k.ram) := by
  unfold onRam onPart
  split
  · rename_i h
    rw [h]
    rfl
  · rename_i h
    rw [h]
    rfl

theorem loadWord_direct (hd : Direct R W k.ram.cr3 k.ram.mem) (h : Within R la 8) :
    ∃ r, loadWord la k = .ok (wordAt k.ram.mem la) { k with ram := r } ∧ r.mem = k.ram.mem := by
  obtain ⟨m, r, hrun, hmem, -, hbytes⟩ := Ram.loadAll_direct hd h
  have hword : m.readWord 0 = wordAt k.ram.mem la := by
    apply ByteMemory.readWord_congr
    intro i hi
    rw [Nat.zero_add]
    exact hbytes i hi
  refine ⟨r, ?_, hmem⟩
  unfold loadWord
  rw [bind_ok (onRam_ok hrun), hword]
  rfl

theorem loadWord_strays (hd : Direct R W k.ram.cr3 k.ram.mem) (h : ¬Within R la 8) :
    k.Strays R W (final (loadWord la k)) := by
  obtain ⟨i, hi⟩ := not_forall.mp h
  refine Ram.Strays.bind (g := Kernel.ram) ?_ fun _ => return_touches _
  rw [onRam_final]
  exact Ram.loadAll_strays ⟨i, Classical.not_imp.mp hi⟩ hd

theorem memcpy_direct (hd : Direct R W k.ram.cr3 k.ram.mem) (hsrc : Within R src size.toNat)
    (hdst : Within W dst size.toNat) :
    ∃ r, memcpy dst src size k = .ok () { k with ram := r } ∧
      r.mem = copied k.ram.mem dst src size.toNat := by
  obtain ⟨r, hrun, hmem, -⟩ := Ram.copy_direct hd fun i hi => ⟨hsrc i hi, hdst i hi⟩
  exact ⟨r, onRam_ok hrun, hmem⟩

theorem memcpy_strays (hd : Direct R W k.ram.cr3 k.ram.mem)
    (h : ¬(Within R src size.toNat ∧ Within W dst size.toNat)) :
    k.Strays R W (final (memcpy dst src size k)) := by
  unfold Kernel.Strays memcpy
  rw [onRam_final]
  apply Ram.copy_strays _ hd
  have hsome : ¬∀ i < size.toNat,
      src + BitVec.ofNat 64 i ∈ R ∧ dst + BitVec.ofNat 64 i ∈ W := fun hall =>
    h ⟨fun i hi => (hall i hi).1, fun i hi => (hall i hi).2⟩
  obtain ⟨i, hi⟩ := not_forall.mp hsome
  exact ⟨i, Classical.not_imp.mp hi⟩

theorem storeWords_direct (ws : List (BitVec 64)) (hd : Direct R W k.ram.cr3 k.ram.mem)
    (h : la.toNat + 8 * ws.length ≤ 2 ^ 64) (hW : range la (8 * ws.length) ⊆ W) :
    ∃ r, storeWords la ws k = .ok () { k with ram := r } ∧
      ∀ x, x < la.toNat ∨ la.toNat + 8 * ws.length ≤ x → r.mem x = k.ram.mem x := by
  obtain ⟨r, hrun, hmem, -⟩ := Ram.storeAll_direct hd fun _ hw => hW (wordsBytes_mem h hw)
  refine ⟨r, onRam_ok hrun, fun x hx => ?_⟩
  rw [hmem]
  apply poke_outside
  intro w hw hwx
  obtain ⟨hlow, hhigh⟩ := wordsBytes_mem h hw
  omega

end Direct
/-! ## Steps that only read -/

/-- Memory as the kernel sees it. -/
def Kernel.view (k : Kernel) : ByteMemory := PageWalk.view k.ram.mem k.ram.cr3

/-- A step that only reads. -/
structure Kernel.Reads (R W : Set (BitVec 64)) (k k' : Kernel) : Prop where
  touches : k.Touches R W k'
  mem : k'.ram.mem = k.ram.mem
  rest : k' = { k with ram := k'.ram }

section Reads
variable {R W : Set (BitVec 64)} {k k' k'' : Kernel} {la : BitVec 64}

theorem Kernel.Reads.trans (h : k.Reads R W k') (h' : k'.Reads R W k'') : k.Reads R W k'' where
  touches := Ram.Touches.trans h.touches h'.touches
  mem := h'.mem.trans h.mem
  rest := by
    rw [h'.rest, h.rest]

theorem Kernel.Reads.direct (h : k.Reads R W k') (hd : Direct R W k.ram.cr3 k.ram.mem) :
    Direct R W k'.ram.cr3 k'.ram.mem := by
  rw [h.mem, h.touches.cr3]
  exact hd

theorem Kernel.Reads.refl (k : Kernel) : k.Reads R W k := ⟨Ram.Touches.refl _, rfl, rfl⟩

theorem Kernel.Reads.mapped (h : k.Reads R W k') (hm : Mapped R k.ram.cr3 k.ram.mem) :
    Mapped R k'.ram.cr3 k'.ram.mem := by
  rw [h.mem, h.touches.cr3]
  exact hm

theorem Kernel.Reads.view (h : k.Reads R W k') : k'.view = k.view := by
  unfold Kernel.view
  rw [h.mem, h.touches.cr3]

theorem load_reads (hm : Mapped R k.ram.cr3 k.ram.mem) (h : la ∈ R) :
    ∃ k', load la k = .ok (k.view la.toNat) k' ∧ k.Reads R W k' := by
  have hrun : load la k = _ := onRam_ok (Ram.load_mapped hm h)
  have htouch := load_touches (W := W) h k
  rw [hrun] at htouch
  exact ⟨_, hrun, htouch, rfl, rfl⟩

theorem loadAll_reads {n : Nat} (hm : Mapped R k.ram.cr3 k.ram.mem) (h : Within R la n) :
    ∃ m k', onRam (Ram.loadAll la n) k = .ok m k' ∧ k.Reads R W k' ∧
      ∀ i < n, m i = k.view (la + BitVec.ofNat 64 i).toNat := by
  obtain ⟨m, r, hrun, hmem, -, hbytes⟩ := Ram.loadAll_mapped hm h
  have hrun' := onRam_ok hrun
  have htouch := onRam_touches (Ram.loadAll_touches (W := W) h) k
  rw [hrun'] at htouch
  exact ⟨m, _, hrun', ⟨htouch, hmem, rfl⟩, hbytes⟩

theorem loadShort_reads (hm : Mapped R k.ram.cr3 k.ram.mem) (h : Within R la 2) :
    ∃ k', loadShort la k =
      .ok (k.view (la + 1).toNat ++ k.view (la + 0).toNat) k' ∧ k.Reads R W k' := by
  obtain ⟨m, k', hrun, hreads, hbytes⟩ := loadAll_reads hm h
  refine ⟨k', ?_, hreads⟩
  unfold loadShort
  rw [bind_ok hrun, hbytes 1 (by decide), hbytes 0 (by decide)]
  rfl

theorem loadInt_reads (hm : Mapped R k.ram.cr3 k.ram.mem) (h : Within R la 4) :
    ∃ k', loadInt la k = .ok (k.view (la + 3).toNat ++ k.view (la + 2).toNat ++
      k.view (la + 1).toNat ++ k.view (la + 0).toNat) k' ∧ k.Reads R W k' := by
  obtain ⟨m, k', hrun, hreads, hbytes⟩ := loadAll_reads hm h
  refine ⟨k', ?_, hreads⟩
  unfold loadInt
  rw [bind_ok hrun, hbytes 3 (by decide), hbytes 2 (by decide), hbytes 1 (by decide),
    hbytes 0 (by decide)]
  rfl

theorem loadWord_reads (hd : Direct R W k.ram.cr3 k.ram.mem) (h : Within R la 8) :
    ∃ k', loadWord la k = .ok (wordAt k.ram.mem la) k' ∧ k.Reads R W k' := by
  obtain ⟨r, hrun, hmem⟩ := loadWord_direct hd h
  have htouch := loadWord_touches (W := W) h k
  rw [hrun] at htouch
  exact ⟨_, hrun, htouch, hmem, rfl⟩

end Reads

end Amaterasu
