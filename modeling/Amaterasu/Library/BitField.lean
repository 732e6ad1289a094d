import Mathlib.Data.Nat.Bitwise

/-! Bit fields of a machine word: what a field holds after an assignment to it, and to another. -/

/-- The `width` bits of a word from bit `lo` on. -/
structure BitField where
  lo : Nat
  width : Nat
deriving DecidableEq

namespace BitField
variable {w : Nat}

def get (f : BitField) (e : BitVec w) : BitVec f.width := e.extractLsb' f.lo f.width

/-- The bits of the field, all set. -/
def mask (f : BitField) (w : Nat) : BitVec w := (BitVec.allOnes f.width).setWidth w <<< f.lo

def set (f : BitField) (v : BitVec f.width) (e : BitVec w) : BitVec w :=
  e &&& ~~~f.mask w ||| v.setWidth w <<< f.lo

/-- No bit is in both fields. -/
def Apart (f g : BitField) : Prop := f.lo + f.width ≤ g.lo ∨ g.lo + g.width ≤ f.lo

instance (f g : BitField) : Decidable (f.Apart g) :=
  inferInstanceAs (Decidable (f.lo + f.width ≤ g.lo ∨ g.lo + g.width ≤ f.lo))

theorem Apart.symm {f g : BitField} (h : f.Apart g) : g.Apart f := h.elim Or.inr Or.inl

theorem getLsbD_set (f : BitField) (v : BitVec f.width) (e : BitVec w) {i : Nat} (hi : i < w) :
    (f.set v e).getLsbD i =
      if f.lo ≤ i ∧ i < f.lo + f.width then v.getLsbD (i - f.lo) else e.getLsbD i := by
  unfold set mask
  simp only [BitVec.getLsbD_or, BitVec.getLsbD_and, BitVec.getLsbD_not, BitVec.getLsbD_shiftLeft,
    BitVec.getLsbD_setWidth, BitVec.getLsbD_allOnes, hi, decide_true, Bool.true_and]
  split_ifs with h
  · have hlo : ¬i < f.lo := by omega
    have hwidth : i - f.lo < f.width := by omega
    have hw : i - f.lo < w := by omega
    simp [hlo, hwidth, hw]
  · rcases Nat.lt_or_ge i f.lo with hlt | hge
    · simp [hlt]
    · have hwidth : f.width ≤ i - f.lo := by omega
      simp [Nat.not_lt.mpr hge, Nat.not_lt.mpr hwidth, BitVec.getLsbD_of_ge v _ hwidth]

theorem get_set_self {f : BitField} {v : BitVec f.width} {e : BitVec w} (h : f.lo + f.width ≤ w) :
    f.get (f.set v e) = v := by
  ext i hi
  unfold get
  rw [BitVec.getElem_extractLsb', getLsbD_set f v e (by omega), if_pos (by omega),
    Nat.add_sub_cancel_left, BitVec.getLsbD_eq_getElem hi]

theorem get_set_of_apart {f g : BitField} {v : BitVec g.width} {e : BitVec w} (h : f.Apart g)
    (hf : f.lo + f.width ≤ w) : f.get (g.set v e) = f.get e := by
  ext i hi
  unfold get
  have houtside : ¬(g.lo ≤ f.lo + i ∧ f.lo + i < g.lo + g.width) := by
    rcases h with h | h <;> omega
  rw [BitVec.getElem_extractLsb', getLsbD_set g v e (by omega), if_neg houtside,
    BitVec.getElem_extractLsb']

/-- The word after assignments to several fields, one after the other. -/
def assign (e : BitVec w) (parts : List ((f : BitField) × BitVec f.width)) : BitVec w :=
  parts.foldl (fun e part => part.1.set part.2 e) e

theorem get_assign_of_apart {f : BitField} {e : BitVec w}
    {parts : List ((f : BitField) × BitVec f.width)} (hf : f.lo + f.width ≤ w)
    (hapart : ∀ part ∈ parts, f.Apart part.1) : f.get (assign e parts) = f.get e := by
  induction parts generalizing e with
  | nil => rfl
  | cons part parts ih =>
    rw [List.forall_mem_cons] at hapart
    exact (ih hapart.2).trans (get_set_of_apart hapart.1 hf)

/-- After assignments to fields apart, each field holds its own value. -/
theorem get_assign_of_mem {e : BitVec w} {parts : List ((f : BitField) × BitVec f.width)}
    (hapart : (parts.map Sigma.fst).Pairwise Apart) {part : (f : BitField) × BitVec f.width}
    (hmem : part ∈ parts) (hf : part.1.lo + part.1.width ≤ w) :
    part.1.get (assign e parts) = part.2 := by
  induction parts generalizing e with
  | nil => cases hmem
  | cons head parts ih =>
    rw [List.map_cons, List.pairwise_cons, List.forall_mem_map] at hapart
    rcases List.mem_cons.mp hmem with rfl | hrest
    · exact (get_assign_of_apart hf hapart.1).trans (get_set_self hf)
    · exact ih hapart.2 hrest

theorem getLsbD_get {lo : Nat} (e : BitVec w) :
    (BitField.get ⟨lo, 1⟩ e).getLsbD 0 = e.getLsbD lo := by
  unfold get
  rw [BitVec.getLsbD_extractLsb', decide_eq_true Nat.one_pos, Bool.true_and, Nat.add_zero]

/-- A flag after the assignments to it and to fields apart from it. -/
theorem getLsbD_assign_of_mem {e : BitVec w} {parts : List ((f : BitField) × BitVec f.width)}
    (hapart : (parts.map Sigma.fst).Pairwise Apart) {lo : Nat} {v : BitVec 1}
    (hmem : ⟨⟨lo, 1⟩, v⟩ ∈ parts) (hlo : lo < w) : (assign e parts).getLsbD lo = v.getLsbD 0 := by
  rw [← getLsbD_get, get_assign_of_mem hapart hmem hlo]

theorem getLsbD_assign_of_apart {e : BitVec w} {parts : List ((f : BitField) × BitVec f.width)}
    {lo : Nat} (hlo : lo < w) (hapart : ∀ part ∈ parts, Apart ⟨lo, 1⟩ part.1) :
    (assign e parts).getLsbD lo = e.getLsbD lo := by
  rw [← getLsbD_get, get_assign_of_apart hlo hapart, getLsbD_get]

theorem get_eq_one {lo : Nat} {e : BitVec w} :
    BitField.get ⟨lo, 1⟩ e = 1#1 ↔ e.getLsbD lo = true := by
  unfold get
  constructor
  · intro h
    have hbit := congrArg (fun v : BitVec 1 => v.getLsbD 0) h
    simpa [BitVec.getLsbD_extractLsb'] using hbit
  · intro h
    ext i hi
    obtain rfl : i = 0 := Nat.lt_one_iff.mp hi
    simpa [BitVec.getElem_extractLsb'] using h

/-! ## Words put together from fields -/

/-- The word that holds `v` in the field and zeros elsewhere. -/
def place (f : BitField) (v : BitVec f.width) (w : Nat) : BitVec w := v.setWidth w <<< f.lo

theorem getLsbD_place (f : BitField) (v : BitVec f.width) {i : Nat} (hi : i < w) :
    (f.place v w).getLsbD i = (decide (f.lo ≤ i) && v.getLsbD (i - f.lo)) := by
  have hlt : i - f.lo < w := by omega
  unfold place
  rw [BitVec.getLsbD_shiftLeft, BitVec.getLsbD_setWidth]
  by_cases hlo : i < f.lo
  · simp [hlo, Nat.not_le.mpr hlo]
  · simp [hi, hlo, hlt, Nat.not_lt.mp hlo]

theorem get_or (f : BitField) (d e : BitVec w) : f.get (d ||| e) = f.get d ||| f.get e :=
  BitVec.extractLsb'_or

theorem get_zero (f : BitField) : f.get (0 : BitVec w) = 0 := by
  ext i hi
  simp [get]

theorem get_place_self {f : BitField} {v : BitVec f.width} (h : f.lo + f.width ≤ w) :
    f.get (f.place v w) = v := by
  ext i hi
  unfold get
  rw [BitVec.getElem_extractLsb', getLsbD_place f v (by omega), Nat.add_sub_cancel_left,
    decide_eq_true (Nat.le_add_right _ _), Bool.true_and, BitVec.getLsbD_eq_getElem hi]

theorem get_place_of_apart {f g : BitField} {v : BitVec g.width} (h : f.Apart g)
    (hf : f.lo + f.width ≤ w) : f.get (g.place v w) = 0 := by
  ext i hi
  unfold get
  rw [BitVec.getElem_extractLsb', getLsbD_place g v (by omega)]
  show _ = (0#f.width)[i]
  rw [BitVec.getElem_zero]
  rcases h with h | h
  · rw [decide_eq_false (by omega), Bool.false_and]
  · rw [BitVec.getLsbD_of_ge v _ (by omega), Bool.and_false]

/-- A field of `x` moved to another place, by a shift, a mask and another shift. -/
theorem place_get (x : BitVec w) (n k lo : Nat) :
    (x >>> n &&& BitVec.ofNat w (2 ^ k - 1)) <<< lo = place ⟨lo, k⟩ (get ⟨n, k⟩ x) w := by
  have hmask : x >>> n &&& BitVec.ofNat w (2 ^ k - 1) = (get ⟨n, k⟩ x).setWidth w := by
    apply BitVec.eq_of_getLsbD_eq
    intro i hi
    unfold get
    rw [BitVec.getLsbD_and, BitVec.getLsbD_ofNat, Nat.testBit_two_pow_sub_one,
      BitVec.getLsbD_ushiftRight, BitVec.getLsbD_setWidth, BitVec.getLsbD_extractLsb']
    simp only [hi, decide_true, Bool.true_and, Bool.and_comm]
  rw [hmask]
  rfl

/-- The word that holds each value in its field and zeros elsewhere. -/
def word (w : Nat) (parts : List ((f : BitField) × BitVec f.width)) : BitVec w :=
  parts.foldr (fun part e => part.1.place part.2 w ||| e) 0

theorem get_word_of_apart {f : BitField} {parts : List ((f : BitField) × BitVec f.width)}
    (hf : f.lo + f.width ≤ w) (hapart : ∀ part ∈ parts, f.Apart part.1) :
    f.get (word w parts) = 0 := by
  induction parts with
  | nil => exact get_zero f
  | cons part parts ih =>
    rw [List.forall_mem_cons] at hapart
    have hrest : f.get (word w parts) = 0 := ih hapart.2
    show f.get (part.1.place part.2 w ||| word w parts) = 0
    rw [get_or, hrest, get_place_of_apart hapart.1 hf]
    simp

/-- Each field of a word put together from fields apart holds its own value. -/
theorem get_word_of_mem {parts : List ((f : BitField) × BitVec f.width)}
    (hapart : (parts.map Sigma.fst).Pairwise Apart) {part : (f : BitField) × BitVec f.width}
    (hmem : part ∈ parts) (hf : part.1.lo + part.1.width ≤ w) :
    part.1.get (word w parts) = part.2 := by
  induction parts with
  | nil => cases hmem
  | cons head parts ih =>
    rw [List.map_cons, List.pairwise_cons, List.forall_mem_map] at hapart
    show part.1.get (head.1.place head.2 w ||| word w parts) = part.2
    rw [get_or]
    rcases List.mem_cons.mp hmem with rfl | hrest
    · rw [get_place_self hf, get_word_of_apart hf hapart.1]
      simp
    · rw [get_place_of_apart (hapart.1 part hrest).symm hf, ih hapart.2 hrest]
      simp

theorem get_append_get (x : BitVec w) (lo n k : Nat) :
    get ⟨lo + n, k⟩ x ++ get ⟨lo, n⟩ x = get ⟨lo, k + n⟩ x := by
  unfold get
  ext i hi
  rw [BitVec.getElem_append]
  split_ifs with h
  · simp
  · have hge : n ≤ i := Nat.not_lt.mp h
    simp only [BitVec.getElem_extractLsb']
    rw [show lo + n + (i - n) = lo + i by omega]

end BitField
