import Amaterasu.Ata.Queue
import Amaterasu.Ata.Transfer

/-! The copy loop of `ATARead`, round by round in its `int`s. It makes the stores of
`AtaRequest.copy`. -/

namespace Amaterasu
open Function

/-- The loop so far: the memory that the buffer is in, the words that `InShort` has returned, and
the addresses that have been written. -/
structure Transfer where
  memory : BitVec 64 → BitVec 8
  taken : Nat
  written : List (BitVec 64)

namespace Transfer

def store (t : Transfer) (a : BitVec 64) (v : BitVec 8) : Transfer :=
  { t with memory := update t.memory a v, written := t.written ++ [a] }

end Transfer

namespace AtaRequestQueueEntry

/-- `(request->SizeOfBytes + 1) / 2`. -/
def rounds (request : AtaRequestQueueEntry) : BitVec 32 := (request.sizeOfBytes + 1).sdiv 2

/-- `&request->buffer[j]`. -/
def bufferAt (request : AtaRequestQueueEntry) (j : BitVec 32) : BitVec 64 :=
  request.buffer + j.signExtend 64

/-- Round `i` of the loop, with the words that the port delivers. -/
def transferRound (request : AtaRequestQueueEntry) (port : Nat → BitVec 16) (i : BitVec 32)
    (t : Transfer) : Transfer :=
  let data := port t.taken
  let t := { t with taken := t.taken + 1 }
  let t := t.store (request.bufferAt (2 * i)) ((data &&& 0xff).setWidth 8)
  if i ≠ request.rounds - 1 ∨ request.sizeOfBytes.srem 2 = 0 then
    t.store (request.bufferAt (2 * i + 1)) ((data >>> 8 &&& 0xff).setWidth 8)
  else t

/-- The loop from round `i` on; `none` is one that has not ended after the rounds given. -/
def transferLoop (request : AtaRequestQueueEntry) (port : Nat → BitVec 16) :
    Nat → BitVec 32 → Transfer → Option Transfer
  | 0, _, _ => none
  | n + 1, i, t =>
    if i.slt request.rounds then
      request.transferLoop port n (i + 1) (request.transferRound port i t)
    else some t

variable {request : AtaRequestQueueEntry} {port : Nat → BitVec 16} {n : Nat}

/-! ## The indices -/

/-- A size that the rounds are counted for without overflow. -/
structure Sized (request : AtaRequestQueueEntry) (n : Nat) : Prop where
  size : request.sizeOfBytes.toInt = n
  lt : n < 2 ^ 31 - 1

theorem Sized.toNat (h : request.Sized n) : request.sizeOfBytes.toNat = n := by
  have hsize := h.size
  rw [BitVec.toInt_eq_toNat_cond] at hsize
  split_ifs at hsize <;> omega

theorem Sized.rounds_toInt (h : request.Sized n) :
    request.rounds.toInt = ((n + 1) / 2 : Nat) := by
  have hlt := h.lt
  have hsum : (request.sizeOfBytes + 1).toInt = (n + 1 : Nat) := by
    have hnat : (request.sizeOfBytes + 1).toNat = n + 1 := by
      rw [BitVec.toNat_add, h.toNat]
      exact Nat.mod_eq_of_lt (show n + 1 < 2 ^ 32 by omega)
    rw [BitVec.toInt_eq_toNat_of_lt (by omega), hnat]
  have hdiv : request.rounds.toInt = (request.sizeOfBytes + 1).toInt.tdiv 2 :=
    BitVec.toInt_sdiv_of_ne_or_ne _ 2 (Or.inr (by decide))
  rw [hdiv, hsum, Int.tdiv_eq_ediv_of_nonneg (by omega)]
  rfl

theorem ofNat_toInt {k : Nat} (h : k < 2 ^ 31) : (BitVec.ofNat 32 k).toInt = k := by
  have hnat : (BitVec.ofNat 32 k).toNat = k := Nat.mod_eq_of_lt (by omega)
  rw [BitVec.toInt_eq_toNat_of_lt (by omega), hnat]

theorem Sized.rounds_eq (h : request.Sized n) :
    request.rounds = BitVec.ofNat 32 ((n + 1) / 2) := by
  have hlt := h.lt
  rw [← BitVec.toInt_inj, h.rounds_toInt, ofNat_toInt (by omega)]

theorem bufferAt_ofNat {k : Nat} (h : k < 2 ^ 31) :
    request.bufferAt (BitVec.ofNat 32 k) = request.buffer + BitVec.ofNat 64 k := by
  have hextend : (BitVec.ofNat 32 k).signExtend 64 = BitVec.ofNat 64 k := by
    have hmsb : (BitVec.ofNat 32 k).msb = false := by
      rw [BitVec.msb_eq_false_iff_two_mul_lt, BitVec.toNat_ofNat]
      omega
    rw [BitVec.signExtend_eq_setWidth_of_msb_false hmsb]
    apply BitVec.eq_of_toNat_eq
    rw [BitVec.toNat_setWidth, BitVec.toNat_ofNat, BitVec.toNat_ofNat]
    omega
  unfold bufferAt
  rw [hextend]

theorem Sized.even_iff (h : request.Sized n) : request.sizeOfBytes.srem 2 = 0 ↔ n % 2 = 0 := by
  rw [← BitVec.toInt_inj, BitVec.toInt_srem, h.size]
  show (n : Int).tmod 2 = 0 ↔ _
  rw [Int.tmod_eq_emod_of_nonneg (by omega)]
  omega

/-! ## The rounds -/

/-- The first `j` bytes of the stream are in the buffer, and nothing else has been written. -/
structure Copied (request : AtaRequestQueueEntry) (port : Nat → BitVec 16)
    (memory : BitVec 64 → BitVec 8) (j : Nat) (t : Transfer) : Prop where
  written : t.written = (List.range j).map fun i => request.buffer + BitVec.ofNat 64 i
  inside : ∀ i < j, t.memory (request.buffer + BitVec.ofNat 64 i) = streamByte port i
  outside : ∀ a ∉ t.written, t.memory a = memory a

variable {memory : BitVec 64 → BitVec 8} {t : Transfer} {j k : Nat}

theorem Copied.store (h : request.Copied port memory j t) (hj : j < 2 ^ 64) :
    request.Copied port memory (j + 1)
      (t.store (request.buffer + BitVec.ofNat 64 j) (streamByte port j)) := by
  have hwritten : (t.store (request.buffer + BitVec.ofNat 64 j) (streamByte port j)).written =
      (List.range (j + 1)).map fun i => request.buffer + BitVec.ofNat 64 i := by
    show t.written ++ [_] = _
    rw [h.written, List.range_succ, List.map_append, List.map_singleton]
  refine ⟨hwritten, fun i hi => ?_, fun a ha => ?_⟩
  · show update t.memory _ _ _ = _
    rcases Nat.lt_succ_iff_lt_or_eq.mp hi with hlt | rfl
    · have hne : request.buffer + BitVec.ofNat 64 i ≠ request.buffer + BitVec.ofNat 64 j := by
        intro heq
        have hnat := congrArg BitVec.toNat (BitVec.add_right_inj _ |>.mp heq)
        rw [BitVec.toNat_ofNat, BitVec.toNat_ofNat, Nat.mod_eq_of_lt (by omega),
          Nat.mod_eq_of_lt hj] at hnat
        omega
      rw [update_of_ne hne]
      exact h.inside i hlt
    · exact update_self ..
  · have hmem := mt List.mem_append.mpr ha
    rw [not_or, List.mem_singleton] at hmem
    show update t.memory _ _ a = _
    rw [update_of_ne hmem.2]
    exact h.outside a hmem.1

theorem Copied.takes (h : request.Copied port memory j t) (taken : Nat) :
    request.Copied port memory j { t with taken := taken } := ⟨h.written, h.inside, h.outside⟩

/-- A round copies its word, of which the last round of an odd size stores the low byte only. -/
theorem Copied.round (hsize : request.Sized n) (h : request.Copied port memory (2 * k) t)
    (htaken : t.taken = k) (hk : k < (n + 1) / 2) :
    (request.transferRound port (BitVec.ofNat 32 k) t).taken = k + 1 ∧
      request.Copied port memory (min (2 * (k + 1)) n)
        (request.transferRound port (BitVec.ofNat 32 k) t) := by
  have hlt := hsize.lt
  have hdouble : 2 * BitVec.ofNat 32 k = BitVec.ofNat 32 (2 * k) := (BitVec.ofNat_mul 2 k).symm
  have hnext : 2 * BitVec.ofNat 32 k + 1 = BitVec.ofNat 32 (2 * k + 1) := by
    rw [hdouble]
    exact (BitVec.ofNat_add (2 * k) 1).symm
  have hlow : request.bufferAt (2 * BitVec.ofNat 32 k) =
      request.buffer + BitVec.ofNat 64 (2 * k) := by
    rw [hdouble, bufferAt_ofNat (by omega)]
  have hhigh : request.bufferAt (2 * BitVec.ofNat 32 k + 1) =
      request.buffer + BitVec.ofNat 64 (2 * k + 1) := by
    rw [hnext, bufferAt_ofNat (by omega)]
  have hlast : BitVec.ofNat 32 k ≠ request.rounds - 1 ∨ request.sizeOfBytes.srem 2 = 0 ↔
      2 * k + 1 < n := by
    have hpred : request.rounds - 1 = BitVec.ofNat 32 ((n + 1) / 2 - 1) := by
      rw [hsize.rounds_eq]
      exact BitVec.ofNat_sub_ofNat_of_le _ 1 (by decide) (by omega)
    rw [hsize.even_iff, hpred, ne_eq, ← BitVec.toNat_inj, BitVec.toNat_ofNat, BitVec.toNat_ofNat]
    omega
  have hlowByte : ((port k &&& 0xff).setWidth 8 : BitVec 8) = streamByte port (2 * k) := by
    unfold streamByte
    rw [if_pos (by omega), Nat.mul_div_cancel_left k (by decide), BitVec.setWidth_and]
    exact BitVec.and_allOnes
  have hhighByte : ((port k >>> 8 &&& 0xff).setWidth 8 : BitVec 8) =
      streamByte port (2 * k + 1) := by
    unfold streamByte
    rw [if_neg (by omega), show (2 * k + 1) / 2 = k by omega, BitVec.setWidth_and]
    exact BitVec.and_allOnes
  have hfirst := (h.takes (k + 1)).store (by omega)
  unfold transferRound
  simp only [hlast, htaken, hlow, hhigh, hlowByte, hhighByte]
  split_ifs with hin
  · have hmin : min (2 * (k + 1)) n = 2 * k + 1 + 1 := by omega
    rw [hmin]
    exact ⟨rfl, hfirst.store (by omega)⟩
  · have hmin : min (2 * (k + 1)) n = 2 * k + 1 := by omega
    rw [hmin]
    exact ⟨rfl, hfirst⟩

theorem Sized.slt_iff (h : request.Sized n) (hk : k ≤ (n + 1) / 2) :
    (BitVec.ofNat 32 k).slt request.rounds = true ↔ k < (n + 1) / 2 := by
  have hlt := h.lt
  rw [BitVec.slt_iff_toInt_lt, ofNat_toInt (by omega), h.rounds_toInt]
  exact Int.ofNat_lt

theorem Copied.loop (hsize : request.Sized n) {left : Nat} (hleft : k + left = (n + 1) / 2)
    (h : request.Copied port memory (min (2 * k) n) t) (htaken : t.taken = k) :
    ∃ u, (∀ fuel, left < fuel →
        request.transferLoop port fuel (BitVec.ofNat 32 k) t = some u) ∧
      u.taken = (n + 1) / 2 ∧ request.Copied port memory n u := by
  induction left generalizing k t with
  | zero =>
    have hmin : min (2 * k) n = n := by omega
    have hend := mt (hsize.slt_iff (k := k) (by omega)).mp (by omega)
    refine ⟨t, fun fuel hfuel => ?_, by omega, hmin ▸ h⟩
    obtain ⟨fuel, rfl⟩ := Nat.exists_eq_add_one_of_ne_zero hfuel.ne'
    exact if_neg hend
  | succ left ih =>
    have hk : k < (n + 1) / 2 := by omega
    have hmin : min (2 * k) n = 2 * k := by omega
    obtain ⟨htaken', hcopied⟩ := (hmin ▸ h).round hsize htaken hk
    obtain ⟨u, hrun, hu⟩ := ih (by omega) hcopied htaken'
    refine ⟨u, fun fuel hfuel => ?_, hu⟩
    obtain ⟨fuel, rfl⟩ := Nat.exists_eq_add_one_of_ne_zero (Nat.ne_zero_of_lt hfuel)
    have hnext : BitVec.ofNat 32 k + 1 = BitVec.ofNat 32 (k + 1) := (BitVec.ofNat_add k 1).symm
    have hrest := hrun fuel (by omega)
    rw [← hnext] at hrest
    exact (if_pos ((hsize.slt_iff hk.le).mpr hk)).trans hrest

/-- The stores are those of the request in the system. -/
theorem Copied.eq_copy (hsize : request.Sized n) (h : request.Copied port memory n t) :
    t.written = (request.request.copy port).map Prod.fst ∧
      ∀ w ∈ request.request.copy port, t.memory w.1 = w.2 := by
  have hint : request.request.sizeOfBytes.toNat = n := by
    show request.sizeOfBytes.toInt.toNat = n
    rw [hsize.size, Int.toNat_natCast]
  have hnonneg : 0 ≤ request.request.sizeOfBytes := by
    show 0 ≤ request.sizeOfBytes.toInt
    rw [hsize.size]
    exact Int.natCast_nonneg n
  rw [copy_eq hnonneg, hint, List.map_map]
  refine ⟨h.written, fun w hw => ?_⟩
  obtain ⟨i, hi, rfl⟩ := List.mem_map.mp hw
  exact h.inside i (List.mem_range.mp hi)

/-- The loop of a request of `n` bytes ends, takes `n / 2` words, rounded up, and writes the bytes
of the words to `buffer[0]`, …, `buffer[n - 1]` and nothing else. -/
theorem transferLoop_exact (request : AtaRequestQueueEntry) (port : Nat → BitVec 16)
    (memory : BitVec 64 → BitVec 8) (n : Nat) (hn : n < 2 ^ 31 - 1)
    (hsize : request.sizeOfBytes = BitVec.ofNat 32 n) :
    ∃ t, (∀ fuel, (n + 1) / 2 < fuel →
        request.transferLoop port fuel 0 ⟨memory, 0, []⟩ = some t) ∧
      t.taken = (n + 1) / 2 ∧
      t.written = (List.range n).map (fun j => request.buffer + BitVec.ofNat 64 j) ∧
      (∀ j < n, t.memory (request.buffer + BitVec.ofNat 64 j) =
        if j % 2 = 0 then (port (j / 2)).setWidth 8 else (port (j / 2) >>> 8).setWidth 8) ∧
      ∀ a ∉ t.written, t.memory a = memory a := by
  have hsized : request.Sized n := by
    refine ⟨?_, hn⟩
    rw [hsize]
    exact ofNat_toInt (by omega)
  have hstart : request.Copied port memory (min (2 * 0) n) ⟨memory, 0, []⟩ := by
    have hmin : min (2 * 0) n = 0 := by omega
    rw [hmin]
    exact ⟨rfl, fun i hi => absurd hi (Nat.not_lt_zero i), fun a _ => rfl⟩
  obtain ⟨t, hrun, htaken, hcopied⟩ := hstart.loop hsized (Nat.zero_add _) rfl
  exact ⟨t, hrun, htaken, hcopied.written, hcopied.inside, hcopied.outside⟩

/-- Three bytes. -/
theorem transferLoop_three :
    let request : AtaRequestQueueEntry := ⟨0, 1, 3, 0, 0x100000, 0⟩
    ∃ t, request.transferLoop (fun i => BitVec.ofNat 16 (0x4241 + 0x202 * i)) 4 0
        ⟨fun _ => 0, 0, []⟩ = some t ∧ t.taken = 2 ∧
      t.written = [0x100000, 0x100001, 0x100002] ∧ t.memory 0x100002 = 0x43 := by
  obtain ⟨t, hrun, htaken, hwritten, hinside, -⟩ := transferLoop_exact ⟨0, 1, 3, 0, 0x100000, 0⟩
    (fun i => BitVec.ofNat 16 (0x4241 + 0x202 * i)) (fun _ => 0) 3 (by decide) rfl
  exact ⟨t, hrun 4 (by decide), htaken, hwritten, hinside 2 (by decide)⟩

end AtaRequestQueueEntry
end Amaterasu
