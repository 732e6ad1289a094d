import Amaterasu.Library.PageWalk
import Amaterasu.Library.Program
import Mathlib.Data.Set.Basic

/-! Supervisor accesses to linear memory. Every access is recorded and goes through the page walk;
a page fault stops the program for good. A program whose accesses all lie in given sets is told
from one that strays, and sets that are mapped to themselves are accessed like physical memory. -/

namespace PageWalk
open Function Program

/-- The memory, the tables it is seen through, and the accesses made, the latest first. -/
structure Ram where
  mem : ByteMemory
  cr3 : BitVec 64
  reads : List (BitVec 64)
  writes : List (BitVec 64 × BitVec 8)

/-- The physical address of a linear one. -/
def physical (m : ByteMemory) (cr3 la : BitVec 64) : Option Nat := (walk m cr3 la).map (·.address)

/-- The memory that is seen through the tables, with 0 where nothing is mapped. -/
def view (m : ByteMemory) (cr3 : BitVec 64) : ByteMemory := fun x =>
  ((physical m cr3 (BitVec.ofNat 64 x)).map m).getD 0

def Mapped (R : Set (BitVec 64)) (cr3 : BitVec 64) (m : ByteMemory) : Prop :=
  ∀ a ∈ R, (physical m cr3 a).isSome

/-- The memory after a supervisor store, which is unchanged by a page fault. -/
def put (cr3 : BitVec 64) (m : ByteMemory) (w : BitVec 64 × BitVec 8) : ByteMemory :=
  match physical m cr3 w.1 with
  | some a => update m a w.2
  | none => m

/-- The error is the end of everything. -/
abbrev Accessing := EStateM Unit Ram

namespace Ram

def load (la : BitVec 64) : Accessing (BitVec 8) := fun r =>
  let t := { r with reads := la :: r.reads }
  match physical r.mem r.cr3 la with
  | some a => .ok (r.mem a) t
  | none => .error () t

def store (la : BitVec 64) (v : BitVec 8) : Accessing Unit := fun r =>
  let t := { r with writes := (la, v) :: r.writes, mem := put r.cr3 r.mem (la, v) }
  match physical r.mem r.cr3 la with
  | some _ => .ok () t
  | none => .error () t

/-- The `n` bytes from `la` on, the lowest first, at `0`, …, `n - 1`. -/
def loadAll (la : BitVec 64) : Nat → Accessing ByteMemory
  | 0 => return fun _ => 0
  | n + 1 => do
    let m ← loadAll la n
    let v ← load (la + BitVec.ofNat 64 n)
    return update m n v

def storeAll : List (BitVec 64 × BitVec 8) → Accessing Unit
  | [] => return
  | w :: ws => do
    store w.1 w.2
    storeAll ws

/-- The bytes of a word at `la`. -/
def wordBytes (la w : BitVec 64) : List (BitVec 64 × BitVec 8) :=
  (List.range 8).map fun i => (la + BitVec.ofNat 64 i, w.extractLsb' (8 * i) 8)

/-- The bytes of the words from `la` on. -/
def wordsBytes (la : BitVec 64) : List (BitVec 64) → List (BitVec 64 × BitVec 8)
  | [] => []
  | w :: ws => wordBytes la w ++ wordsBytes (la + 8) ws

/-- Copies `n` bytes, the lowest first. -/
def copy (dst src : BitVec 64) : Nat → Accessing Unit
  | 0 => return
  | n + 1 => do
    copy dst src n
    let v ← load (src + BitVec.ofNat 64 n)
    store (dst + BitVec.ofNat 64 n) v

/-- Replaces the words `0`, …, `n - 1` of the array at `la`, word `i` by `f i` of what it was. -/
def modifyWords (la : BitVec 64) (f : Nat → BitVec 64 → BitVec 64) : Nat → Accessing Unit
  | 0 => return
  | n + 1 => do
    modifyWords la f n
    let a := la + BitVec.ofNat 64 (8 * n)
    let m ← loadAll a 8
    storeAll (wordBytes a (f n (m.readWord 0)))

/-! ## Accesses in given sets -/

/-- From `r` to `t`, the reads are in `R`, the writes are in `W`, and they are all that happens. -/
structure Touches (R W : Set (BitVec 64)) (r t : Ram) : Prop where
  cr3 : t.cr3 = r.cr3
  reads : ∃ as, t.reads = as ++ r.reads ∧ ∀ a ∈ as, a ∈ R
  writes : ∃ ws, t.writes = ws ++ r.writes ∧ (∀ w ∈ ws, w.1 ∈ W) ∧
    t.mem = ws.reverse.foldl (put r.cr3) r.mem

/-- From `r` to `t`, there is an access outside the sets. -/
def Strays (R W : Set (BitVec 64)) (r t : Ram) : Prop :=
  (∃ as, t.reads = as ++ r.reads ∧ ∃ a ∈ as, a ∉ R) ∨
    ∃ ws, t.writes = ws ++ r.writes ∧ ∃ w ∈ ws, w.1 ∉ W

section Touches
variable {R R' W W' : Set (BitVec 64)} {r s t : Ram}

theorem Touches.refl (r : Ram) : Touches R W r r where
  cr3 := rfl
  reads := ⟨[], rfl, fun _ h => (List.not_mem_nil h).elim⟩
  writes := ⟨[], rfl, fun _ h => (List.not_mem_nil h).elim, rfl⟩

theorem Touches.trans (h : Touches R W r s) (h' : Touches R W s t) : Touches R W r t := by
  obtain ⟨as, hreads, has⟩ := h.reads
  obtain ⟨ws, hwrites, hws, hmem⟩ := h.writes
  obtain ⟨as', hreads', has'⟩ := h'.reads
  obtain ⟨ws', hwrites', hws', hmem'⟩ := h'.writes
  refine ⟨h'.cr3.trans h.cr3, ⟨as' ++ as, ?_, ?_⟩, ⟨ws' ++ ws, ?_, ?_, ?_⟩⟩
  · rw [hreads', hreads, List.append_assoc]
  · exact fun a ha => (List.mem_append.mp ha).elim (has' a) (has a)
  · rw [hwrites', hwrites, List.append_assoc]
  · exact fun w hw => (List.mem_append.mp hw).elim (hws' w) (hws w)
  · rw [hmem', hmem, h.cr3, List.reverse_append, List.foldl_append]

theorem Touches.mono (h : Touches R W r t) (hR : R ⊆ R') (hW : W ⊆ W') : Touches R' W' r t := by
  obtain ⟨hcr3, ⟨as, hreads, has⟩, ⟨ws, hwrites, hws, hmem⟩⟩ := h
  exact ⟨hcr3, ⟨as, hreads, fun a ha => hR (has a ha)⟩,
    ⟨ws, hwrites, fun w hw => hW (hws w hw), hmem⟩⟩

theorem Strays.not_touches (h : Strays R W r t) : ¬Touches R W r t := by
  rintro ⟨-, ⟨as, hreads, has⟩, ⟨ws, hwrites, hws, -⟩⟩
  rcases h with ⟨as', hreads', a, ha, hout⟩ | ⟨ws', hwrites', w, hw, hout⟩
  · rw [List.append_cancel_right (hreads'.symm.trans hreads)] at ha
    exact hout (has a ha)
  · rw [List.append_cancel_right (hwrites'.symm.trans hwrites)] at hw
    exact hout (hws w hw)

/-- What has strayed has done so whatever comes next. -/
theorem Strays.extend (h : Strays R W r s) (h' : Touches R' W' s t) : Strays R W r t := by
  obtain ⟨-, ⟨as, hreads, -⟩, ⟨ws, hwrites, -, -⟩⟩ := h'
  rcases h with ⟨as', hreads', a, ha, hout⟩ | ⟨ws', hwrites', w, hw, hout⟩
  · left
    exact ⟨as ++ as', by rw [hreads, hreads', List.append_assoc], a,
      List.mem_append_right _ ha, hout⟩
  · right
    exact ⟨ws ++ ws', by rw [hwrites, hwrites', List.append_assoc], w,
      List.mem_append_right _ hw, hout⟩

theorem Strays.after (h : Touches R' W' r s) (h' : Strays R W s t) : Strays R W r t := by
  obtain ⟨-, ⟨as, hreads, -⟩, ⟨ws, hwrites, -, -⟩⟩ := h
  rcases h' with ⟨as', hreads', a, ha, hout⟩ | ⟨ws', hwrites', w, hw, hout⟩
  · left
    exact ⟨as' ++ as, by rw [hreads', hreads, List.append_assoc], a,
      List.mem_append_left _ ha, hout⟩
  · right
    exact ⟨ws' ++ ws, by rw [hwrites', hwrites, List.append_assoc], w,
      List.mem_append_left _ hw, hout⟩

end Touches

section Programs
variable {R W : Set (BitVec 64)} {la dst src : BitVec 64} {v : BitVec 8} {n : Nat}
  {ws : List (BitVec 64 × BitVec 8)}

theorem load_touches (h : la ∈ R) : Keeps (Touches R W) (load la) := by
  intro r
  have hfinal : final (load la r) = { r with reads := la :: r.reads } := by
    unfold load
    split <;> rfl
  rw [hfinal]
  exact ⟨rfl, ⟨[la], rfl, by simpa using h⟩, ⟨[], rfl, by simp, rfl⟩⟩

theorem store_touches (h : la ∈ W) : Keeps (Touches R W) (store la v) := by
  intro r
  have hfinal : final (store la v r) =
      { r with writes := (la, v) :: r.writes, mem := put r.cr3 r.mem (la, v) } := by
    unfold store
    split <;> rfl
  rw [hfinal]
  exact ⟨rfl, ⟨[], rfl, by simp⟩, ⟨[(la, v)], rfl, by simpa using h, rfl⟩⟩

theorem Keeps.sequence {ε σ α β : Type} {g : σ → Ram} {x : EStateM ε σ α} {f : α → EStateM ε σ β}
    (hx : Keeps (fun s t => Touches R W (g s) (g t)) x)
    (hf : ∀ a, Keeps (fun s t => Touches R W (g s) (g t)) (f a)) :
    Keeps (fun s t => Touches R W (g s) (g t)) (x >>= f) :=
  Keeps.bind (fun _ _ _ => Touches.trans) hx hf

theorem loadAll_touches (h : ∀ i < n, la + BitVec.ofNat 64 i ∈ R) :
    Keeps (Touches R W) (loadAll la n) := by
  induction n with
  | zero => exact fun r => Touches.refl r
  | succ n ih =>
    unfold loadAll
    refine Keeps.sequence (g := id) (ih fun i hi => h i (Nat.lt_succ_of_lt hi)) fun m => ?_
    exact Keeps.sequence (g := id) (load_touches (h n (Nat.lt_succ_self n))) fun _ r =>
      Touches.refl r

theorem storeAll_touches (h : ∀ w ∈ ws, w.1 ∈ W) : Keeps (Touches R W) (storeAll ws) := by
  induction ws with
  | nil => exact fun r => Touches.refl r
  | cons w ws ih =>
    unfold storeAll
    exact Keeps.sequence (g := id) (store_touches (h w List.mem_cons_self)) fun _ =>
      ih fun w hw => h w (List.mem_cons_of_mem _ hw)

theorem storeAll_append (ws ws' : List (BitVec 64 × BitVec 8)) :
    storeAll (ws ++ ws') = storeAll ws >>= fun _ => storeAll ws' := by
  induction ws with
  | nil => rfl
  | cons w ws ih =>
    rw [List.cons_append, storeAll, ih, storeAll, bind_assoc]

theorem copy_touches
    (h : ∀ i < n, src + BitVec.ofNat 64 i ∈ R ∧ dst + BitVec.ofNat 64 i ∈ W) :
    Keeps (Touches R W) (copy dst src n) := by
  induction n with
  | zero => exact fun r => Touches.refl r
  | succ n ih =>
    unfold copy
    obtain ⟨hsrc, hdst⟩ := h n (Nat.lt_succ_self n)
    refine Keeps.sequence (g := id) (ih fun i hi => h i (Nat.lt_succ_of_lt hi)) fun _ => ?_
    exact Keeps.sequence (g := id) (load_touches hsrc) fun _ => store_touches hdst

theorem modifyWords_touches {f : Nat → BitVec 64 → BitVec 64}
    (h : ∀ i < 8 * n, la + BitVec.ofNat 64 i ∈ R ∧ la + BitVec.ofNat 64 i ∈ W) :
    Keeps (Touches R W) (modifyWords la f n) := by
  induction n with
  | zero => exact fun r => Touches.refl r
  | succ n ih =>
    have hbyte : ∀ i < 8, la + BitVec.ofNat 64 (8 * n) + BitVec.ofNat 64 i ∈ R ∧
        la + BitVec.ofNat 64 (8 * n) + BitVec.ofNat 64 i ∈ W := fun i hi => by
      rw [BitVec.add_assoc, ← BitVec.ofNat_add]
      exact h (8 * n + i) (by omega)
    unfold modifyWords
    refine Keeps.sequence (g := id) (ih fun i hi => h i (by omega)) fun _ => ?_
    refine Keeps.sequence (g := id) (loadAll_touches fun i hi => (hbyte i hi).1) fun m => ?_
    refine storeAll_touches fun w hw => ?_
    obtain ⟨i, hi, rfl⟩ := List.mem_map.mp hw
    exact (hbyte i (List.mem_range.mp hi)).2

/-! A program ends where its first access finds nothing mapped. -/

theorem load_faults {r : Ram} (h : physical r.mem r.cr3 la = none) :
    ∃ t, load la r = .error () t := by
  unfold load
  rw [h]
  exact ⟨_, rfl⟩

theorem loadAll_faults {r : Ram} (hn : 0 < n) (h : physical r.mem r.cr3 la = none) :
    ∃ t, loadAll la n r = .error () t := by
  induction n with
  | zero => exact absurd hn (Nat.lt_irrefl 0)
  | succ n ih =>
    unfold loadAll
    rcases Nat.eq_zero_or_pos n with rfl | hpos
    · obtain ⟨t, ht⟩ := load_faults h
      have hfirst : load (la + BitVec.ofNat 64 0) r = .error () t := by
        rw [show la + BitVec.ofNat 64 0 = la from BitVec.add_zero la, ht]
      exact ⟨t, (bind_ok rfl).trans (bind_error hfirst)⟩
    · obtain ⟨t, ht⟩ := ih hpos
      exact ⟨t, bind_error ht⟩

theorem copy_faults {r : Ram} (hn : 0 < n)
    (h : physical r.mem r.cr3 src = none ∨ physical r.mem r.cr3 dst = none) :
    ∃ t, copy dst src n r = .error () t := by
  induction n with
  | zero => exact absurd hn (Nat.lt_irrefl 0)
  | succ n ih =>
    unfold copy
    rcases Nat.eq_zero_or_pos n with rfl | hpos
    · have hsrc : src + BitVec.ofNat 64 0 = src := BitVec.add_zero src
      have hdst : dst + BitVec.ofNat 64 0 = dst := BitVec.add_zero dst
      have hstart : copy dst src 0 r = .ok () r := rfl
      rw [bind_ok hstart, hsrc, hdst]
      cases hp : physical r.mem r.cr3 src with
      | none =>
        obtain ⟨t, ht⟩ := load_faults hp
        exact ⟨t, bind_error ht⟩
      | some a =>
        -- the byte is read, and its store finds nothing
        have hnone : physical r.mem r.cr3 dst = none := h.resolve_left (by rw [hp]; simp)
        have hload : load src r = .ok (r.mem a) { r with reads := src :: r.reads } := by
          unfold load
          rw [hp]
        rw [bind_ok hload]
        unfold store
        dsimp only
        rw [hnone]
        exact ⟨_, rfl⟩
    · obtain ⟨t, ht⟩ := ih hpos
      exact ⟨t, bind_error ht⟩

theorem modifyWords_faults {f : Nat → BitVec 64 → BitVec 64} {r : Ram} (hn : 0 < n)
    (h : physical r.mem r.cr3 la = none) : ∃ t, modifyWords la f n r = .error () t := by
  induction n with
  | zero => exact absurd hn (Nat.lt_irrefl 0)
  | succ n ih =>
    unfold modifyWords
    rcases Nat.eq_zero_or_pos n with rfl | hpos
    · obtain ⟨t, ht⟩ := loadAll_faults (n := 8) (by decide) h
      have hfirst : loadAll (la + BitVec.ofNat 64 (8 * 0)) 8 r = .error () t := by
        rw [show la + BitVec.ofNat 64 (8 * 0) = la from BitVec.add_zero la, ht]
      exact ⟨t, (bind_ok rfl).trans (bind_error hfirst)⟩
    · obtain ⟨t, ht⟩ := ih hpos
      exact ⟨t, bind_error ht⟩

theorem load_mapped {r : Ram} (hm : Mapped R r.cr3 r.mem) (h : la ∈ R) :
    load la r = .ok (view r.mem r.cr3 la.toNat) { r with reads := la :: r.reads } := by
  obtain ⟨a, ha⟩ := Option.isSome_iff_exists.mp (hm la h)
  have hview : view r.mem r.cr3 la.toNat = r.mem a := by
    unfold view
    rw [BitVec.ofNat_toNat, BitVec.setWidth_eq, ha]
    rfl
  unfold load
  rw [ha, hview]

theorem loadAll_mapped {r : Ram} (hm : Mapped R r.cr3 r.mem)
    (h : ∀ i < n, la + BitVec.ofNat 64 i ∈ R) :
    ∃ m t, loadAll la n r = .ok m t ∧ t.mem = r.mem ∧ t.cr3 = r.cr3 ∧
      ∀ i < n, m i = view r.mem r.cr3 (la + BitVec.ofNat 64 i).toNat := by
  induction n with
  | zero => exact ⟨_, r, rfl, rfl, rfl, fun i hi => absurd hi (Nat.not_lt_zero i)⟩
  | succ n ih =>
    obtain ⟨m, t, hrun, hmem, hcr3, hbytes⟩ := ih fun i hi => h i (Nat.lt_succ_of_lt hi)
    have hload := load_mapped (r := t) (by rw [hcr3, hmem]; exact hm) (h n (Nat.lt_succ_self n))
    let a := la + BitVec.ofNat 64 n
    refine ⟨update m n (view t.mem t.cr3 a.toNat), { t with reads := a :: t.reads }, ?_, hmem, hcr3,
      fun i hi => ?_⟩
    · unfold loadAll
      rw [bind_ok hrun, bind_ok hload]
      rfl
    · rcases Nat.lt_succ_iff_lt_or_eq.mp hi with hlt | rfl
      · rw [update_of_ne (Nat.ne_of_lt hlt)]
        exact hbytes i hlt
      · rw [update_self, hmem, hcr3]

/-! What has been loaded when a program returns, whatever is mapped. -/

variable {r t : Ram}

theorem Touches.mem_eq (h : Touches R ∅ r t) : t.mem = r.mem := by
  obtain ⟨-, -, ⟨ws, -, hws, hmem⟩⟩ := h
  have hnil : ws = [] := List.eq_nil_iff_forall_not_mem.mpr fun w hw => hws w hw
  rw [hmem, hnil]
  rfl

theorem load_ok {x : BitVec 8} (h : load la r = .ok x t) : x = view r.mem r.cr3 la.toNat := by
  unfold load at h
  unfold view
  rw [BitVec.ofNat_toNat, BitVec.setWidth_eq]
  cases ha : physical r.mem r.cr3 la with
  | none =>
    rw [ha] at h
    cases h
  | some a =>
    rw [ha] at h
    cases h
    rfl

theorem loadAll_ok {m : ByteMemory} (h : loadAll la n r = .ok m t) {i : Nat} (hi : i < n) :
    m i = view r.mem r.cr3 (la + BitVec.ofNat 64 i).toNat := by
  induction n generalizing m t with
  | zero => exact absurd hi (Nat.not_lt_zero i)
  | succ n ih =>
    unfold loadAll at h
    obtain ⟨m', s, hfirst, hrest⟩ := ok_of_bind h
    obtain ⟨x, u, hload, hlast⟩ := ok_of_bind hrest
    cases hlast
    have hkeeps : Keeps (Touches Set.univ ∅) (loadAll la n) := loadAll_touches fun _ _ => trivial
    have htouch := hkeeps r
    rw [hfirst] at htouch
    have hmem : s.mem = r.mem := htouch.mem_eq
    have hcr3 : s.cr3 = r.cr3 := htouch.cr3
    rcases Nat.lt_succ_iff_lt_or_eq.mp hi with hlt | rfl
    · rw [update_of_ne (Nat.ne_of_lt hlt)]
      exact ih hfirst hlt
    · rw [update_self, load_ok hload, hmem, hcr3]

end Programs
end Ram
end PageWalk
