import Amaterasu.Process.ForkMemory

/-! What the user mode of a parent and of its child can read and write: two pages each, which the
fork copies and which no store of the other reaches. -/

namespace Amaterasu
open PageWalk Function

section One
variable {m : ByteMemory} {f : TableFrames} {text stack la : BitVec 64} {v : BitVec 8} {x : Nat}

/-- The text page, the stack page, and nothing else. -/
theorem Describes.userLoad_eq (h : Describes m f text stack) :
    userLoad m f.l4 la =
      if la.toNat / 2 ^ 12 = 2 ^ 52 - 2 then some (m (text.toNat + la.toNat % 2 ^ 12))
      else if la.toNat / 2 ^ 12 = 2 ^ 52 - 1 then some (m (stack.toNat + la.toNat % 2 ^ 12))
      else none := by
  unfold userLoad
  rw [h.walk_eq]
  unfold addressSpace
  by_cases hlow : la.toNat < 5 * 2 ^ 30
  · rw [if_pos hlow, if_neg (by omega), if_neg (by omega)]
    rfl
  · rw [if_neg hlow]
    split_ifs <;> rfl

theorem Describes.userStore_outside (h : Describes m f text stack) (ht : Outside text x)
    (hs : Outside stack x) : userStore m f.l4 la v x = m x := by
  unfold Outside at ht hs
  unfold userStore
  rw [h.walk_eq]
  unfold addressSpace
  by_cases hlow : la.toNat < 5 * 2 ^ 30
  · -- the kernel's own addresses are not the user's
    rw [if_pos hlow]
    rfl
  · rw [if_neg hlow]
    split_ifs
    · show update m (text.toNat + la.toNat % 2 ^ 12) v x = _
      exact update_of_ne (by omega) _ _
    · show update m (stack.toNat + la.toNat % 2 ^ 12) v x = _
      exact update_of_ne (by omega) _ _
    · rfl

end One

/-- The tables of a parent and of its child. -/
structure BothDescribed (m : ByteMemory) (p : ProcessMemory) (f : TableFrames) (n : ForkFrames) :
    Prop where
  parent : Describes m f p.textSegmentPageFrame p.userStackPageFrame
  child : Describes m n.tables n.text n.userStack

/-- A user-mode store of the parent or the child. -/
structure UserStore where
  byChild : Bool
  address : BitVec 64
  value : BitVec 8

section Two
variable {m : ByteMemory} {p : ProcessMemory} {f : TableFrames} {n : ForkFrames} {a la : BitVec 64}
  {v : BitVec 8} {x : Nat}

def UserStore.apply (f : TableFrames) (n : ForkFrames) (m : ByteMemory) (s : UserStore) :
    ByteMemory :=
  userStore m (if s.byChild then n.tables.l4 else f.l4) s.address s.value

def UserStore.run (f : TableFrames) (n : ForkFrames) (m : ByteMemory) (ss : List UserStore) :
    ByteMemory := ss.foldl (UserStore.apply f n) m

/-- The pages of the user, of both processes. -/
def userPages (p : ProcessMemory) (n : ForkFrames) : List (BitVec 64) :=
  [p.textSegmentPageFrame, p.userStackPageFrame, n.text, n.userStack]

theorem BothDescribed.apply_outside (h : BothDescribed m p f n) (s : UserStore)
    (hx : ∀ a ∈ userPages p n, Outside a x) : s.apply f n m x = m x := by
  unfold userPages at hx
  simp only [List.forall_mem_cons] at hx
  obtain ⟨hpt, hpu, hct, hcu, -⟩ := hx
  unfold UserStore.apply
  cases s.byChild with
  | false => exact h.parent.userStore_outside hpt hpu
  | true => exact h.child.userStore_outside hct hcu

theorem Fresh.table_outside (h : Fresh p f n) (ha : a ∈ f.toList ∨ a ∈ n.tables.toList)
    (h1 : a.toNat ≤ x) (h2 : x < a.toNat + 4096) : ∀ b ∈ userPages p n, Outside b x := by
  obtain ⟨i, rfl⟩ := Nat.exists_eq_add_of_le h1
  have hi : i < 4096 := by omega
  have hold : (processFrames p f).Nodup := (List.nodup_append.mp h.nodup).1
  have holdne := (List.nodup_append.mp hold).2.2
  unfold userPages
  simp only [List.forall_mem_cons, List.not_mem_nil, IsEmpty.forall_iff, implies_true, and_true]
  rcases ha with hf | hn
  · have hmem : a ∈ processFrames p f := List.mem_append_right _ hf
    have hframe := h.old hmem
    exact ⟨hframe.outside (h.old (f := f) textSegmentPageFrame_mem)
        (holdne _ (by simp) a hf).symm hi,
      hframe.outside (h.old (f := f) userStackPageFrame_mem) (holdne _ (by simp) a hf).symm hi,
      hframe.outside (h.new text_mem) (h.old_ne_new hmem text_mem) hi,
      hframe.outside (h.new userStack_mem) (h.old_ne_new hmem userStack_mem) hi⟩
  · have hmem : a ∈ n.toList := List.mem_append_right _ hn
    have hframe := h.new hmem
    exact ⟨hframe.outside (h.old (f := f) textSegmentPageFrame_mem)
        (h.old_ne_new textSegmentPageFrame_mem hmem).symm hi,
      hframe.outside (h.old (f := f) userStackPageFrame_mem)
        (h.old_ne_new userStackPageFrame_mem hmem).symm hi,
      hframe.outside (h.new text_mem) (h.ne_table (by simp) hn).symm hi,
      hframe.outside (h.new userStack_mem) (h.ne_table (by simp) hn).symm hi⟩

theorem Fresh.kernelStack_outside (h : Fresh p f n) {i : Nat} (hi : i < 4096) :
    ∀ b ∈ userPages p n, Outside b (n.kernelStack.toNat + i) := by
  have hk := h.new kernelStack_mem
  obtain ⟨huk, -, hkt⟩ := h.pages
  unfold userPages
  simp only [List.forall_mem_cons, List.not_mem_nil, IsEmpty.forall_iff, implies_true, and_true]
  exact ⟨hk.outside (h.old (f := f) textSegmentPageFrame_mem)
      (h.old_ne_new textSegmentPageFrame_mem kernelStack_mem).symm hi,
    hk.outside (h.old (f := f) userStackPageFrame_mem)
      (h.old_ne_new userStackPageFrame_mem kernelStack_mem).symm hi,
    hk.outside (h.new text_mem) hkt hi,
    hk.outside (h.new userStack_mem) huk.symm hi⟩

theorem BothDescribed.apply (h : BothDescribed m p f n) (hf : Fresh p f n) (s : UserStore) :
    BothDescribed (s.apply f n m) p f n where
  parent := h.parent.congr fun _ ha _ h1 h2 =>
    h.apply_outside s (hf.table_outside (Or.inl ha) h1 h2)
  child := h.child.congr fun _ ha _ h1 h2 =>
    h.apply_outside s (hf.table_outside (Or.inr ha) h1 h2)

/-- Stores leave the tables of both processes as they are. -/
theorem BothDescribed.run (h : BothDescribed m p f n) (hf : Fresh p f n) (ss : List UserStore) :
    BothDescribed (UserStore.run f n m ss) p f n := by
  induction ss generalizing m with
  | nil => exact h
  | cons s ss ih => exact ih (h.apply hf s)

theorem BothDescribed.run_outside (h : BothDescribed m p f n) (hf : Fresh p f n)
    (ss : List UserStore) (hx : ∀ a ∈ userPages p n, Outside a x) :
    UserStore.run f n m ss x = m x := by
  induction ss generalizing m with
  | nil => rfl
  | cons s ss ih => exact (ih (h.apply hf s)).trans (h.apply_outside s hx)

/-- A store of one process changes no byte that the other can load. -/
theorem BothDescribed.isolated (h : BothDescribed m p f n) (hf : Fresh p f n) :
    userLoad (userStore m f.l4 la v) n.tables.l4 a = userLoad m n.tables.l4 a ∧
      userLoad (userStore m n.tables.l4 la v) f.l4 a = userLoad m f.l4 a := by
  have hbyParent : BothDescribed (userStore m f.l4 la v) p f n := h.apply hf ⟨false, la, v⟩
  have hbyChild : BothDescribed (userStore m n.tables.l4 la v) p f n := h.apply hf ⟨true, la, v⟩
  have hold : ∀ b ∈ processFrames p f, ∀ i < 4096,
      userStore m n.tables.l4 la v (b.toNat + i) = m (b.toNat + i) := fun b hb i hi =>
    h.child.userStore_outside ((hf.old hb).outside (hf.new text_mem) (hf.old_ne_new hb text_mem) hi)
      ((hf.old hb).outside (hf.new userStack_mem) (hf.old_ne_new hb userStack_mem) hi)
  have hnew : ∀ b ∈ n.toList, ∀ i < 4096,
      userStore m f.l4 la v (b.toNat + i) = m (b.toNat + i) := fun b hb i hi =>
    h.parent.userStore_outside
      ((hf.new hb).outside (hf.old (f := f) textSegmentPageFrame_mem)
        (hf.old_ne_new textSegmentPageFrame_mem hb).symm hi)
      ((hf.new hb).outside (hf.old (f := f) userStackPageFrame_mem)
        (hf.old_ne_new userStackPageFrame_mem hb).symm hi)
  have hoffset : a.toNat % 2 ^ 12 < 4096 := Nat.mod_lt _ (by decide)
  constructor
  · rw [hbyParent.child.userLoad_eq, h.child.userLoad_eq, hnew _ text_mem _ hoffset,
      hnew _ userStack_mem _ hoffset]
  · rw [hbyChild.parent.userLoad_eq, h.parent.userLoad_eq,
      hold _ textSegmentPageFrame_mem _ hoffset, hold _ userStackPageFrame_mem _ hoffset]

end Two
end Amaterasu
