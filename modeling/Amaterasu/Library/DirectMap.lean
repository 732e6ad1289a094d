import Amaterasu.Library.Access

/-! Accesses to addresses that are mapped to themselves: as long as a program stays in the given
sets it computes with physical memory, and where it leaves them it strays. -/

namespace PageWalk
open Function Program

/-- The addresses of both sets are mapped to themselves, whatever is written in `W`. -/
def Direct (R W : Set (BitVec 64)) (cr3 : BitVec 64) (m : ByteMemory) : Prop :=
  ∀ m' : ByteMemory, (∀ x, (∀ a ∈ W, a.toNat ≠ x) → m' x = m x) →
    ∀ a ∈ R ∪ W, physical m' cr3 a = some a.toNat

/-- The memory after a copy from `src` to `dst`. -/
def copied (m : ByteMemory) (dst src : BitVec 64) : Nat → ByteMemory
  | 0 => m
  | n + 1 =>
    let m := copied m dst src n
    update m (dst + BitVec.ofNat 64 n).toNat (m (src + BitVec.ofNat 64 n).toNat)

/-- The memory after stores. -/
def poke (m : ByteMemory) (ws : List (BitVec 64 × BitVec 8)) : ByteMemory :=
  ws.foldl (fun m w => update m w.1.toNat w.2) m

theorem toNat_add_ofNat {a : BitVec 64} {i : Nat} (h : a.toNat + i < 2 ^ 64) :
    (a + BitVec.ofNat 64 i).toNat = a.toNat + i := by
  rw [BitVec.toNat_add, BitVec.toNat_ofNat]
  omega

section Direct
variable {R W : Set (BitVec 64)} {cr3 la dst src : BitVec 64} {m m' : ByteMemory} {n : Nat}
  {v : BitVec 8} {ws : List (BitVec 64 × BitVec 8)}

theorem Direct.congr (h : Direct R W cr3 m) (hm : ∀ x, (∀ a ∈ W, a.toNat ≠ x) → m' x = m x) :
    Direct R W cr3 m' := fun m'' h'' => h m'' fun x hx => (h'' x hx).trans (hm x hx)

theorem Direct.mono {R' W' : Set (BitVec 64)} (h : Direct R W cr3 m) (hR : R' ⊆ R) (hW : W' ⊆ W) :
    Direct R' W' cr3 m := fun m' hm a ha =>
  h m' (fun x hx => hm x fun a ha => hx a (hW ha)) a (Set.union_subset_union hR hW ha)

theorem Direct.update (h : Direct R W cr3 m) (ha : la ∈ W) :
    Direct R W cr3 (update m la.toNat v) :=
  h.congr fun _ hx => update_of_ne (hx la ha).symm _ _

theorem Direct.physical_eq (h : Direct R W cr3 m) (ha : la ∈ R ∪ W) :
    physical m cr3 la = some la.toNat := h m (fun _ _ => rfl) la ha

theorem Direct.mapped (h : Direct R W cr3 m) : Mapped R cr3 m := fun _ ha =>
  Option.isSome_iff_exists.mpr ⟨_, h.physical_eq (Or.inl ha)⟩

theorem Direct.view_eq (h : Direct R W cr3 m) (ha : la ∈ R) : view m cr3 la.toNat = m la.toNat := by
  unfold view
  rw [BitVec.ofNat_toNat, BitVec.setWidth_eq, h.physical_eq (Or.inl ha)]
  rfl

theorem copied_outside {x : Nat} (h : ∀ i < n, (dst + BitVec.ofNat 64 i).toNat ≠ x) :
    copied m dst src n x = m x := by
  induction n with
  | zero => rfl
  | succ n ih =>
    show Function.update _ _ _ x = _
    rw [update_of_ne (h n (Nat.lt_succ_self n)).symm, ih fun i hi => h i (Nat.lt_succ_of_lt hi)]

theorem Direct.copied (h : Direct R W cr3 m) (hw : ∀ i < n, dst + BitVec.ofNat 64 i ∈ W) :
    Direct R W cr3 (copied m dst src n) :=
  h.congr fun _ hx => copied_outside fun i hi => hx _ (hw i hi)

/-- Without wrapping around, this is the copy of `n` bytes. -/
theorem copied_eq (hdst : dst.toNat + n ≤ 2 ^ 64) (hsrc : src.toNat + n ≤ 2 ^ 64) :
    PageWalk.copied m dst src n = m.copy dst.toNat src.toNat n := by
  induction n with
  | zero => rfl
  | succ n ih =>
    show Function.update _ _ _ = Function.update _ _ _
    rw [ih (by omega) (by omega), toNat_add_ofNat (by omega), toNat_add_ofNat (by omega)]

theorem poke_outside {x : Nat} (h : ∀ w ∈ ws, w.1.toNat ≠ x) : poke m ws x = m x := by
  induction ws generalizing m with
  | nil => rfl
  | cons w ws ih =>
    show poke (Function.update m w.1.toNat w.2) ws x = _
    rw [ih fun w hw => h w (List.mem_cons_of_mem _ hw),
      update_of_ne (h w List.mem_cons_self).symm]

theorem Direct.poke (h : Direct R W cr3 m) (hw : ∀ w ∈ ws, w.1 ∈ W) :
    Direct R W cr3 (poke m ws) :=
  h.congr fun _ hx => poke_outside fun w hmem => hx w.1 (hw w hmem)

theorem poke_consecutive {g : Nat → BitVec 8} {i : Nat} (ha : la.toNat + n ≤ 2 ^ 64) (hi : i < n) :
    poke m ((List.range n).map fun i => (la + BitVec.ofNat 64 i, g i)) (la.toNat + i) = g i := by
  induction n with
  | zero => exact absurd hi (Nat.not_lt_zero i)
  | succ n ih =>
    have hlast : (la + BitVec.ofNat 64 n).toNat = la.toNat + n := toNat_add_ofNat (by omega)
    have hstep : poke m ((List.range (n + 1)).map fun i => (la + BitVec.ofNat 64 i, g i)) =
        update (poke m ((List.range n).map fun i => (la + BitVec.ofNat 64 i, g i)))
          (la.toNat + n) (g n) := by
      unfold poke
      rw [List.range_succ, List.map_append, List.foldl_append, List.map_cons, List.map_nil,
        List.foldl_cons, List.foldl_nil, hlast]
    rw [hstep]
    rcases Nat.lt_succ_iff_lt_or_eq.mp hi with hlt | rfl
    · rw [update_of_ne (by omega)]
      exact ih (by omega) hlt
    · exact update_self ..

theorem poke_wordBytes {w : BitVec 64} (ha : la.toNat + 8 ≤ 2 ^ 64) :
    poke m (Ram.wordBytes la w) = m.writeWord la.toNat w := by
  funext x
  by_cases hx : la.toNat ≤ x ∧ x < la.toNat + 8
  · obtain ⟨i, rfl⟩ := Nat.exists_eq_add_of_le hx.1
    rw [ByteMemory.writeWord_inside (by omega)]
    exact poke_consecutive ha (by omega)
  · rw [ByteMemory.writeWord_outside (by omega)]
    refine poke_outside fun v hv => ?_
    obtain ⟨i, hi, rfl⟩ := List.mem_map.mp hv
    have hlt : i < 8 := List.mem_range.mp hi
    rw [toNat_add_ofNat (by omega)]
    omega

end Direct

namespace Ram

section InBounds
variable {R W : Set (BitVec 64)} {r : Ram} {la dst src : BitVec 64} {v : BitVec 8} {n : Nat}
  {ws : List (BitVec 64 × BitVec 8)}

theorem load_direct (hd : Direct R W r.cr3 r.mem) (ha : la ∈ R) :
    load la r = .ok (r.mem la.toNat) { r with reads := la :: r.reads } := by
  rw [load_mapped hd.mapped ha, hd.view_eq ha]

theorem store_direct (hd : Direct R W r.cr3 r.mem) (ha : la ∈ W) :
    store la v r =
      .ok () { r with writes := (la, v) :: r.writes, mem := update r.mem la.toNat v } := by
  have hp := hd.physical_eq (Or.inr ha)
  unfold store put
  rw [hp]

theorem loadAll_direct (hd : Direct R W r.cr3 r.mem) (h : ∀ i < n, la + BitVec.ofNat 64 i ∈ R) :
    ∃ m t, loadAll la n r = .ok m t ∧ t.mem = r.mem ∧ t.cr3 = r.cr3 ∧
      ∀ i < n, m i = r.mem (la + BitVec.ofNat 64 i).toNat := by
  obtain ⟨m, t, hrun, hmem, hcr3, hbytes⟩ := loadAll_mapped hd.mapped h
  exact ⟨m, t, hrun, hmem, hcr3, fun i hi => (hbytes i hi).trans (hd.view_eq (h i hi))⟩

theorem copy_direct (hd : Direct R W r.cr3 r.mem)
    (h : ∀ i < n, src + BitVec.ofNat 64 i ∈ R ∧ dst + BitVec.ofNat 64 i ∈ W) :
    ∃ t, copy dst src n r = .ok () t ∧ t.mem = copied r.mem dst src n ∧ t.cr3 = r.cr3 := by
  induction n with
  | zero => exact ⟨r, rfl, rfl, rfl⟩
  | succ n ih =>
    obtain ⟨t, hrun, hmem, hcr3⟩ := ih fun i hi => h i (Nat.lt_succ_of_lt hi)
    obtain ⟨hsrc, hdst⟩ := h n (Nat.lt_succ_self n)
    have hdt : Direct R W t.cr3 t.mem := by
      rw [hcr3, hmem]
      exact hd.copied fun i hi => (h i (Nat.lt_succ_of_lt hi)).2
    let u : Ram := { t with reads := (src + BitVec.ofNat 64 n) :: t.reads }
    have hdu : Direct R W u.cr3 u.mem := hdt
    unfold copy
    rw [bind_ok hrun, bind_ok (load_direct hdt hsrc), store_direct hdu hdst]
    refine ⟨_, rfl, ?_, hcr3⟩
    show update t.mem _ (t.mem _) = _
    rw [hmem]
    rfl

theorem storeAll_direct (hd : Direct R W r.cr3 r.mem) (h : ∀ w ∈ ws, w.1 ∈ W) :
    ∃ t, storeAll ws r = .ok () t ∧ t.mem = poke r.mem ws ∧ t.cr3 = r.cr3 := by
  induction ws generalizing r with
  | nil => exact ⟨r, rfl, rfl, rfl⟩
  | cons w ws ih =>
    have hw := h w List.mem_cons_self
    unfold storeAll
    rw [bind_ok (store_direct hd hw)]
    exact ih (hd.update hw) fun w hw => h w (List.mem_cons_of_mem _ hw)

theorem modifyWords_direct {f : Nat → BitVec 64 → BitVec 64} (hd : Direct R W r.cr3 r.mem)
    (hfits : la.toNat + 8 * n ≤ 2 ^ 64)
    (h : ∀ i < 8 * n, la + BitVec.ofNat 64 i ∈ R ∧ la + BitVec.ofNat 64 i ∈ W) :
    ∃ t, modifyWords la f n r = .ok () t ∧ t.mem = r.mem.modifyWords la.toNat f n ∧
      t.cr3 = r.cr3 := by
  induction n with
  | zero => exact ⟨r, rfl, rfl, rfl⟩
  | succ n ih =>
    obtain ⟨t, hrun, hmem, hcr3⟩ := ih (by omega) fun i hi => h i (by omega)
    let a := la + BitVec.ofNat 64 (8 * n)
    have ha : a.toNat = la.toNat + 8 * n := toNat_add_ofNat (by omega)
    have hbyte : ∀ i < 8, a + BitVec.ofNat 64 i ∈ R ∧ a + BitVec.ofNat 64 i ∈ W := fun i hi => by
      rw [BitVec.add_assoc, ← BitVec.ofNat_add]
      exact h (8 * n + i) (by omega)
    have hdt : Direct R W t.cr3 t.mem := by
      rw [hcr3, hmem]
      refine hd.congr fun x hx => ByteMemory.modifyWords_outside ?_
      by_contra hin
      have hx' : (la + BitVec.ofNat 64 (x - la.toNat)).toNat = x := by
        rw [toNat_add_ofNat (by omega)]
        omega
      exact hx _ (h (x - la.toNat) (by omega)).2 hx'
    obtain ⟨m, u, hload, hmemu, hcr3u, hbytes⟩ : ∃ m u, loadAll a 8 t = .ok m u ∧
        u.mem = t.mem ∧ u.cr3 = t.cr3 ∧ ∀ i < 8, m i = t.mem (a + BitVec.ofNat 64 i).toNat :=
      loadAll_direct hdt fun i hi => (hbyte i hi).1
    have hshift : m.readWord 0 = ByteMemory.readWord (fun i => t.mem (a.toNat + i)) 0 :=
      ByteMemory.readWord_congr fun i hi => by
        rw [Nat.zero_add, hbytes i hi, toNat_add_ofNat (by omega)]
    have hword : m.readWord 0 = t.mem.readWord a.toNat := hshift
    have hdu : Direct R W u.cr3 u.mem := by
      rw [hcr3u, hmemu]
      exact hdt
    obtain ⟨v, hstore, hmemv, hcr3v⟩ : ∃ v, storeAll (wordBytes a (f n (m.readWord 0))) u =
        .ok () v ∧ v.mem = poke u.mem (wordBytes a (f n (m.readWord 0))) ∧ v.cr3 = u.cr3 :=
      storeAll_direct hdu fun w hw => by
        obtain ⟨i, hi, rfl⟩ := List.mem_map.mp hw
        exact (hbyte i (List.mem_range.mp hi)).2
    unfold modifyWords
    refine ⟨v, (bind_ok hrun).trans ((bind_ok hload).trans hstore), ?_,
      hcr3v.trans (hcr3u.trans hcr3)⟩
    rw [hmemv, hmemu, poke_wordBytes (by omega), hword, ha, hmem]
    rfl

end InBounds

/-! ## Straying -/

section Bind
variable {R W : Set (BitVec 64)} {σ α β : Type} {g : σ → Ram} {x : EStateM Unit σ α}
  {f : α → EStateM Unit σ β} {s t : σ} {a : α}

theorem Strays.bind (h : Strays R W (g s) (g (final (x s))))
    (hf : ∀ a, Keeps (fun s t => Touches Set.univ Set.univ (g s) (g t)) (f a)) :
    Strays R W (g s) (g (final ((x >>= f) s))) := by
  rcases final_bind x f s with ⟨a, t, hxs, hfinal⟩ | hfinal
  · rw [hxs] at h
    rw [hfinal]
    exact h.extend (hf a t)
  · rw [hfinal]
    exact h

theorem Strays.bind_after (hx : x s = .ok a t) (h : Touches R W (g s) (g t))
    (hf : Strays R W (g t) (g (final (f a t)))) :
    Strays R W (g s) (g (final ((x >>= f) s))) := by
  rw [bind_ok hx]
  exact hf.after h

end Bind

section Stray
variable {R W : Set (BitVec 64)} {r : Ram} {la dst src : BitVec 64} {v : BitVec 8} {n : Nat}

theorem load_strays (ha : la ∉ R) : Strays R W r (final (load la r)) := by
  left
  unfold load
  split <;> exact ⟨[la], rfl, la, List.mem_cons_self, ha⟩

theorem store_strays (ha : la ∉ W) : Strays R W r (final (store la v r)) := by
  right
  unfold store
  split <;> exact ⟨[(la, v)], rfl, _, List.mem_cons_self, ha⟩

/-- A condition that fails below `n + 1` and holds below `n` fails at `n`. -/
theorem fails_at {p : Nat → Prop} (h : ∃ i < n + 1, ¬p i) (hn : ∀ i < n, p i) : ¬p n := by
  obtain ⟨i, hi, hout⟩ := h
  rcases Nat.lt_succ_iff_lt_or_eq.mp hi with hlt | rfl
  · exact absurd (hn i hlt) hout
  · exact hout

theorem loadAll_strays (h : ∃ i < n, la + BitVec.ofNat 64 i ∉ R)
    (hd : Direct R W r.cr3 r.mem) : Strays R W r (final (loadAll la n r)) := by
  induction n with
  | zero => exact absurd h (by simp)
  | succ n ih =>
    unfold loadAll
    by_cases hn : ∀ i < n, la + BitVec.ofNat 64 i ∈ R
    · obtain ⟨m, t, hrun, -⟩ := loadAll_direct hd hn
      have htouch := loadAll_touches (W := W) hn r
      rw [hrun] at htouch
      refine Strays.bind_after (g := id) hrun htouch ?_
      exact Strays.bind (g := id) (load_strays (fails_at h hn)) fun _ r => Touches.refl r
    · obtain ⟨i, hi⟩ := not_forall.mp hn
      refine Strays.bind (g := id) (ih ⟨i, Classical.not_imp.mp hi⟩) fun m => ?_
      exact Keeps.sequence (g := id) (load_touches trivial) fun _ r => Touches.refl r

theorem copy_strays
    (h : ∃ i < n, ¬(src + BitVec.ofNat 64 i ∈ R ∧ dst + BitVec.ofNat 64 i ∈ W))
    (hd : Direct R W r.cr3 r.mem) : Strays R W r (final (copy dst src n r)) := by
  induction n with
  | zero => exact absurd h (by simp)
  | succ n ih =>
    unfold copy
    by_cases hn : ∀ i < n, src + BitVec.ofNat 64 i ∈ R ∧ dst + BitVec.ofNat 64 i ∈ W
    · obtain ⟨t, hrun, hmem, hcr3⟩ := copy_direct hd hn
      have htouch := copy_touches hn r
      rw [hrun] at htouch
      have hdt : Direct R W t.cr3 t.mem := by
        rw [hcr3, hmem]
        exact hd.copied fun i hi => (hn i hi).2
      refine Strays.bind_after (g := id) hrun htouch ?_
      by_cases hsrc : src + BitVec.ofNat 64 n ∈ R
      · have hdst : dst + BitVec.ofNat 64 n ∉ W := fun hdst => fails_at h hn ⟨hsrc, hdst⟩
        have hread := load_touches (W := W) hsrc t
        rw [load_direct hdt hsrc] at hread
        exact Strays.bind_after (g := id) (load_direct hdt hsrc) hread (store_strays hdst)
      · exact Strays.bind (g := id) (load_strays hsrc) fun _ => store_touches trivial
    · obtain ⟨i, hi⟩ := not_forall.mp hn
      refine Strays.bind (g := id) (ih ⟨i, Classical.not_imp.mp hi⟩) fun _ => ?_
      exact Keeps.sequence (g := id) (load_touches trivial) fun _ => store_touches trivial

end Stray
end Ram
end PageWalk
