import Amaterasu.Kernel.Stores

/-! Reading a file with an idle device: a polled `ATARead` stores the sectors it asks for, and the
search of the directory is a computation on memory. -/

namespace Amaterasu
open PageWalk Program AtaSystem

/-- Nothing is queued, and the coming commands succeed. -/
structure Kernel.Idle (k : Kernel) : Prop where
  fits : k.ata.queue.Fits ataRequestQueueCapacity
  empty : k.ata.queue.size = 0
  answers : ∀ b ∈ k.answers, b = true

theorem Kernel.Idle.reads {R W : Set (BitVec 64)} {k k' : Kernel} (h : k.Idle)
    (hr : k.Reads R W k') : k'.Idle := by
  have hata : k'.ata = k.ata := by
    rw [hr.rest]
  have hanswers : k'.answers = k.answers := by
    rw [hr.rest]
  exact ⟨hata ▸ h.fits, hata ▸ h.empty, hanswers ▸ h.answers⟩

section Poll
variable {env : Environment} {R W : Set (BitVec 64)} {k : Kernel} {c : AtaCall}
  {stores : List (BitVec 64 × BitVec 8)} {result : Int}

theorem AtaCall.image_mem {disk : Nat → BitVec 8} (hW : Within W c.buffer c.sizeOfBytes.toNat)
    {w : BitVec 64 × BitVec 8} (hw : w ∈ c.image disk) : w.1 ∈ W := by
  obtain ⟨i, hi, rfl⟩ := List.mem_map.mp hw
  exact hW i (List.mem_range.mp hi)

theorem ataServe_ok (hdevice : k.ata.device ≠ .failed)
    (ho : (k.ata.serve env.disk env.floating c).outcomes =
      ⟨c, result, stores⟩ :: k.ata.outcomes)
    (hd : Direct R W k.ram.cr3 k.ram.mem) (hW : ∀ w ∈ stores, w.1 ∈ W) :
    ∃ r, ataServe env c k = .ok (BitVec.ofInt 32 result)
      { k with ram := r, ata := k.ata.serve env.disk env.floating c } ∧
      r.mem = poke k.ram.mem stores ∧ r.cr3 = k.ram.cr3 := by
  obtain ⟨r, hrun, hmem, hcr3⟩ := Ram.storeAll_direct hd hW
  refine ⟨r, ?_, hmem, hcr3⟩
  unfold ataServe
  rw [bind_get]
  dsimp only
  rw [if_neg hdevice, ho]
  exact bind_ok (onRam_ok hrun)

/-- A polled read of at most 256 sectors, whose address the device sees modulo `2 ^ 28`. -/
theorem ataReadPoll_wraps (env : Environment) {lba size : BitVec 32} {buffer : BitVec 64}
    (hk : k.Idle) (hc : c = ⟨k.current, lba.toNat, size.toInt, buffer⟩) (h0 : 0 ≤ size.toInt)
    (hmost : size.toInt ≤ 131072) (hd : Direct R W k.ram.cr3 k.ram.mem)
    (hW : Within W buffer size.toInt.toNat) :
    ∃ k', ataReadPoll env lba size buffer k = .ok size k' ∧ k'.Idle ∧
      k'.ram.mem = poke k.ram.mem (c.wrapped.image env.disk) ∧ k'.ram.cr3 = k.ram.cr3 ∧
      k' = { k with ram := k'.ram, ata := k'.ata, answers := k.answers.tail } := by
  let s := k.ata.submitted c
  have hcap : k.ata.queue.size < ataRequestQueueCapacity := by
    rw [hk.empty]
    decide
  have hbusy : s.device = .busy c.request.command := if_pos hk.empty
  have hanswer : k.answers.headD true = true := by
    cases h : k.answers with
    | nil => rfl
    | cons b bs => exact hk.answers b (h ▸ List.mem_cons_self)
  -- the device answers, and the call serves its own request
  let u : AtaSystem := { s with device := .ready c.request.command 0, interrupt := true }
  have hpoll : s.ataPollingUntilReady (k.answers.headD true) = some u := by
    unfold ataPollingUntilReady settle
    rw [hbusy, hanswer]
    rfl
  have hlist : u.queue.toList ataRequestQueueCapacity = [c].map AtaCall.request := by
    have hempty : k.ata.queue.toList ataRequestQueueCapacity = [] :=
      CircularQueue.toList_eq_nil.mpr hk.empty
    exact (CircularQueue.toList_push hcap _).trans (by rw [hempty]; rfl)
  have hfits : u.queue.Fits ataRequestQueueCapacity := hk.fits.push hcap _
  obtain ⟨⟨hfits', hlist', -⟩, -, -, ho⟩ := serve_own env.disk env.floating hfits hlist rfl rfl
  have hsize : c.sizeOfBytes = size.toInt := by rw [hc]
  have hbuffer : c.buffer = buffer := by rw [hc]
  have himage : c.request.copy (u.device.word env.disk env.floating) =
      c.wrapped.image env.disk :=
    copy_own_command_wrapped env.disk env.floating (hsize ▸ h0) (hsize ▸ hmost)
  have hin : ∀ w ∈ c.wrapped.image env.disk, w.1 ∈ W := by
    apply AtaCall.image_mem
    show Within W c.buffer c.sizeOfBytes.toNat
    rw [hbuffer, hsize]
    exact hW
  rw [himage] at ho
  let k₂ : Kernel := { k with ata := u, answers := k.answers.tail }
  have hfine : k₂.ata.device ≠ .failed := fun h => (nomatch h)
  obtain ⟨r, hrun, hmem, hcr3⟩ := ataServe_ok (k := k₂) hfine ho hd hin
  rw [hsize, BitVec.ofInt_toInt] at hrun
  let k' : Kernel := { k₂ with ram := r, ata := u.serve env.disk env.floating c }
  have hrest : k' = { k with ram := k'.ram, ata := k'.ata, answers := k.answers.tail } := rfl
  refine ⟨k', ?_, ⟨hfits', ?_, ?_⟩, hmem, hcr3, hrest⟩
  · rw [ataReadPoll_space env hc hcap.ne, hpoll]
    exact hrun
  · exact CircularQueue.toList_eq_nil.mp hlist'
  · exact fun b hb => hk.answers b (List.mem_of_mem_tail hb)

theorem ataReadPoll_idle (env : Environment) {lba size : BitVec 32} {buffer : BitVec 64}
    (hk : k.Idle) (hc : c = ⟨k.current, lba.toNat, size.toInt, buffer⟩) (ha : c.Addressable)
    (h0 : 0 ≤ size.toInt) (hd : Direct R W k.ram.cr3 k.ram.mem)
    (hW : Within W buffer size.toInt.toNat) :
    ∃ k', ataReadPoll env lba size buffer k = .ok size k' ∧ k'.Idle ∧
      k'.ram.mem = poke k.ram.mem (c.image env.disk) ∧ k'.ram.cr3 = k.ram.cr3 ∧
      k' = { k with ram := k'.ram, ata := k'.ata, answers := k.answers.tail } := by
  have hmost : size.toInt ≤ 131072 := by
    rcases Int.lt_or_le 0 size.toInt with hpos | hneg
    · exact (ha (by rw [hc]; exact hpos)).2.trans' (by rw [hc])
    · exact hneg.trans (by decide)
  rw [← wrapped_image env.disk ha]
  exact ataReadPoll_wraps env hk hc h0 hmost hd hW

/-! What a finished read leaves in memory. -/

variable {m : ByteMemory} {disk : Nat → BitVec 8}

theorem range_within {a : BitVec 64} {n : Nat} (ha : a.toNat + n ≤ 2 ^ 64) :
    Within (range a n) a n := by
  intro i hi
  have hadd : (a + BitVec.ofNat 64 i).toNat = a.toNat + i := toNat_add_ofNat (by omega)
  exact ⟨by omega, by omega⟩

theorem image_inside {i : Nat} (h : c.buffer.toNat + c.sizeOfBytes.toNat ≤ 2 ^ 64)
    (hi : i < c.sizeOfBytes.toNat) :
    poke m (c.image disk) (c.buffer.toNat + i) = disk (c.lba * 512 + i) := poke_consecutive h hi

theorem image_outside {x : Nat} (h : c.buffer.toNat + c.sizeOfBytes.toNat ≤ 2 ^ 64)
    (hx : ∀ a ∈ range c.buffer c.sizeOfBytes.toNat, a.toNat ≠ x) :
    poke m (c.image disk) x = m x := by
  apply poke_outside
  intro w hw
  exact hx w.1 (AtaCall.image_mem (range_within h) hw)

/-- A polled read of one sector, whatever its address is. -/
theorem ataReadPoll_sector (env : Environment) (lba : BitVec 32) {buffer : BitVec 64}
    (hk : k.Idle) (hd : Direct R W k.ram.cr3 k.ram.mem) (hW : Within W buffer 512)
    (hfits : buffer.toNat + 512 ≤ 2 ^ 64) :
    ∃ k', ataReadPoll env lba 512 buffer k = .ok 512 k' ∧ k'.Idle ∧
      Direct R W k'.ram.cr3 k'.ram.mem ∧ k'.heap = k.heap ∧
      (∀ j < 512, k'.ram.mem (buffer.toNat + j) = env.disk (lba.toNat % 2 ^ 28 * 512 + j)) ∧
      ∀ x, x < buffer.toNat ∨ buffer.toNat + 512 ≤ x → k'.ram.mem x = k.ram.mem x := by
  obtain ⟨c, hc⟩ : ∃ c : AtaCall, c = ⟨k.current, lba.toNat, (512 : BitVec 32).toInt, buffer⟩ :=
    ⟨_, rfl⟩
  obtain ⟨k', hrun, hidle, hmem, hcr3, hrest⟩ := ataReadPoll_wraps env hk hc
    (by decide) (by decide) hd hW
  have hbuffer : c.wrapped.buffer = buffer := by rw [hc]; rfl
  have hsize : c.wrapped.sizeOfBytes.toNat = 512 := by rw [hc]; rfl
  have hlba : c.wrapped.lba = lba.toNat % 2 ^ 28 := by rw [hc]; rfl
  have hlength : c.wrapped.buffer.toNat + c.wrapped.sizeOfBytes.toNat ≤ 2 ^ 64 := by
    rw [hbuffer, hsize]
    exact hfits
  refine ⟨k', hrun, hidle, ?_, by rw [hrest], fun j hj => ?_, fun x hx => ?_⟩
  · rw [hcr3, hmem]
    refine hd.poke fun w hw => AtaCall.image_mem ?_ hw
    rw [hbuffer, hsize]
    exact hW
  · rw [hmem, ← hbuffer, ← hlba]
    exact image_inside hlength (hsize.symm ▸ hj)
  · rw [hmem]
    apply image_outside hlength
    rw [hbuffer, hsize]
    rintro a ⟨h1, h2⟩
    omega

end Poll

/-- The bytes from `a` on. -/
def bytesOf (m : ByteMemory) (a : BitVec 64) : ByteMemory := fun j =>
  m (a + BitVec.ofNat 64 j).toNat

theorem bytesOf_zero (m : ByteMemory) (a : BitVec 64) : bytesOf m a 0 = m a.toNat :=
  congrArg (fun b : BitVec 64 => m b.toNat) (BitVec.add_zero a)

theorem bytesOf_direct {R W : Set (BitVec 64)} {k : Kernel} {a : BitVec 64} {j : Nat}
    (hd : Direct R W k.ram.cr3 k.ram.mem) (ha : a + BitVec.ofNat 64 j ∈ R)
    (hfits : a.toNat + j < 2 ^ 64) : bytesOf k.view a j = k.ram.mem (a.toNat + j) := by
  unfold bytesOf Kernel.view
  rw [hd.view_eq ha, toNat_add_ofNat hfits]

theorem bytesOf_add (m : ByteMemory) (a d j : BitVec 64) :
    bytesOf m a (d + j).toNat = m (a + d + j).toNat := by
  unfold bytesOf
  rw [BitVec.ofNat_toNat, BitVec.setWidth_eq, ← BitVec.add_assoc]

/-! ## The search -/

section Search
variable {env : Environment} {R W : Set (BitVec 64)} {k : Kernel} {a b filename buffer : BitVec 64}
  {i j n left length : Nat}

theorem strnlength_eq (hm : Mapped R k.ram.cr3 k.ram.mem) (hR : Within R a (i + n + 1))
    (hn : n < left) (hchars : ∀ j < n, k.view (a + BitVec.ofNat 64 (i + j)).toNat ≠ 0)
    (hend : k.view (a + BitVec.ofNat 64 (i + n)).toNat = 0) :
    ∃ k', strnlength a i left k = .ok (i + n) k' ∧ k.Reads R W k' := by
  induction n generalizing i left k with
  | zero =>
    obtain ⟨left, rfl⟩ := Nat.exists_eq_add_one_of_ne_zero hn.ne'
    obtain ⟨k₁, hrun, hr⟩ := load_reads (W := W) hm (hR i (by omega))
    rw [Nat.add_zero] at hend ⊢
    refine ⟨k₁, ?_, hr⟩
    unfold strnlength
    rw [bind_ok hrun, if_pos hend]
    rfl
  | succ n ih =>
    obtain ⟨left, rfl⟩ := Nat.exists_eq_add_one_of_ne_zero (Nat.ne_zero_of_lt hn)
    obtain ⟨k₁, hrun, hr⟩ := load_reads (W := W) hm (hR i (by omega))
    have hcount : i + 1 + n = i + (n + 1) := by omega
    obtain ⟨k₂, hrest, hr₂⟩ : ∃ k₂, strnlength a (i + 1) left k₁ = .ok (i + 1 + n) k₂ ∧
      k₁.Reads R W k₂ := ih (hr.mapped hm)
      (hR.mono (by omega)) (by omega)
      (fun j hj => by
        rw [hr.view, Nat.add_right_comm, Nat.add_assoc]
        exact hchars (j + 1) (by omega))
      (by rw [hr.view, hcount]; exact hend)
    refine ⟨k₂, ?_, hr.trans hr₂⟩
    have hfirst := hchars 0 (Nat.succ_pos n)
    rw [Nat.add_zero] at hfirst
    unfold strnlength
    rw [bind_ok hrun, if_neg hfirst, hrest, hcount]

theorem strnlength_name (hm : Mapped R k.ram.cr3 k.ram.mem) (hR : Within R a (n + 1))
    (hn : n ≤ intMax) (hchars : ∀ j < n, bytesOf k.view a j ≠ 0) (hend : bytesOf k.view a n = 0) :
    ∃ k', strnlength a 0 (intMax + 1) k = .ok n k' ∧ k.Reads R W k' := by
  obtain ⟨k', hrun, hr⟩ := strnlength_eq (W := W) (i := 0) (n := n) hm
    (by rw [Nat.zero_add]; exact hR) (Nat.lt_succ_of_le hn)
    (fun j hj => by rw [Nat.zero_add]; exact hchars j hj) (by rw [Nat.zero_add]; exact hend)
  rw [Nat.zero_add] at hrun
  exact ⟨k', hrun, hr⟩

/-- The same `n` bytes at two addresses. -/
def SameBytes (m : ByteMemory) (a b : BitVec 64) (n : Nat) : Prop :=
  ∀ j < n, m (a + BitVec.ofNat 64 j).toNat = m (b + BitVec.ofNat 64 j).toNat

theorem strncmp_same (left : Nat) (hm : Mapped R k.ram.cr3 k.ram.mem) (ha : Within R a j)
    (hb : Within R b j) (h : SameBytes k.view a b j) :
    ∃ k', strncmp a b 0 (j + left) k = strncmp a b j left k' ∧ k.Reads R W k' := by
  induction j generalizing left with
  | zero => exact ⟨k, by rw [Nat.zero_add], Kernel.Reads.refl k⟩
  | succ j ih =>
    have hj := Nat.lt_succ_self j
    obtain ⟨k₁, hstep, hr₁⟩ := ih (left + 1) (ha.mono hj.le) (hb.mono hj.le)
      fun l hl => h l (hl.trans hj)
    obtain ⟨k₂, hrun₂, hr₂⟩ := load_reads (W := W) (hr₁.mapped hm) (ha j hj)
    have hr := hr₁.trans hr₂
    obtain ⟨k₃, hrun₃, hr₃⟩ := load_reads (W := W) (hr.mapped hm) (hb j hj)
    refine ⟨k₃, ?_, hr.trans hr₃⟩
    rw [Nat.add_right_comm, Nat.add_assoc, hstep]
    show strncmp a b j (left + 1) k₁ = _
    rw [hr₁.view] at hrun₂
    rw [hr.view] at hrun₃
    conv_lhs => unfold strncmp
    rw [bind_ok hrun₂, bind_ok hrun₃, if_neg (not_not.mpr (h j hj))]

theorem strncmp_eq (hm : Mapped R k.ram.cr3 k.ram.mem) (ha : Within R a n) (hb : Within R b n)
    (h : SameBytes k.view a b n) :
    ∃ k', strncmp a b 0 n k = .ok 0 k' ∧ k.Reads R W k' := by
  obtain ⟨k', hrun, hr⟩ := strncmp_same (W := W) 0 hm ha hb h
  exact ⟨k', hrun, hr⟩

/-- The file that the directory entry at `entry` describes. -/
def entryFile (env : Environment) (m : ByteMemory) (entry : BitVec 64) : File :=
  let clusterHead := m (entry + 26 + 1).toNat ++ m (entry + 26 + 0).toNat
  let filesize := m (entry + 28 + 3).toNat ++ m (entry + 28 + 2).toNat ++
    m (entry + 28 + 1).toNat ++ m (entry + 28 + 0).toNat
  let cluster := env.partition.sectorsOfCluster.setWidth 32 * (clusterHead.setWidth 32 - 2)
  ⟨(env.partition.dataStartLBA + cluster).setWidth 64, filesize.setWidth 64⟩

theorem entryFile_congr {m m' : ByteMemory} {entry : BitVec 64}
    (h : ∀ j < 32, m (entry + BitVec.ofNat 64 j).toNat = m' (entry + BitVec.ofNat 64 j).toNat) :
    entryFile env m entry = entryFile env m' entry := by
  have hat : ∀ d j : BitVec 64, (d + j).toNat < 32 →
      m (entry + d + j).toNat = m' (entry + d + j).toNat := by
    intro d j hdj
    rw [← bytesOf_add m, ← bytesOf_add m']
    exact h (d + j).toNat hdj
  unfold entryFile
  rw [hat 26 1 (by decide), hat 26 0 (by decide), hat 28 3 (by decide), hat 28 2 (by decide),
    hat 28 1 (by decide), hat 28 0 (by decide)]

theorem within_add {d m : Nat} (h : Within R a n) (hdm : d + m ≤ n) :
    Within R (a + BitVec.ofNat 64 d) m := by
  intro j hj
  rw [BitVec.add_assoc, ← BitVec.ofNat_add]
  exact h (d + j) (by omega)

/-- The search ends at an entry whose name starts with the file name. -/
theorem searchEntries_found (env : Environment) (left : Nat) (hm : Mapped R k.ram.cr3 k.ram.mem)
    {entry : BitVec 64} (hentry : entry = buffer + BitVec.ofNat 64 (32 * i))
    (hR : Within R entry 32) (hname : Within R filename length) (hbytes : Within R entry length)
    (hne : k.view entry.toNat ≠ 0) (h : SameBytes k.view filename entry length) :
    ∃ k', searchEntries env filename buffer length i (left + 1) k =
      .ok (some (entryFile env k.view entry)) k' ∧ k.Reads R W k' := by
  have hfirst : entry ∈ R := hR.start (by decide)
  obtain ⟨k₁, hrun₁, hr₁⟩ := load_reads (W := W) hm hfirst
  obtain ⟨k₂, hrun₂, hr₂⟩ := strncmp_eq (hr₁.mapped hm) hname hbytes (hr₁.view ▸ h)
  have h₂ := hr₁.trans hr₂
  obtain ⟨k₃, hrun₃, hr₃⟩ := loadShort_reads (h₂.mapped hm) (within_add (d := 26) hR (by decide))
  have h₃ := h₂.trans hr₃
  obtain ⟨k₄, hrun₄, hr₄⟩ := loadInt_reads (h₃.mapped hm) (within_add (d := 28) hR (by decide))
  refine ⟨k₄, ?_, h₃.trans hr₄⟩
  unfold searchEntries
  dsimp only
  rw [← hentry, bind_ok hrun₁, if_neg hne, bind_ok hrun₂, if_neg (by decide)]
  refine (bind_ok hrun₃).trans ((bind_ok hrun₄).trans ?_)
  rw [h₂.view, h₃.view]
  rfl

/-- The file of the first entry, when its name starts with the file name. -/
theorem searchRootDir_first (env : Environment) (hm : Mapped R k.ram.cr3 k.ram.mem)
    (hname : Within R filename (n + 1)) (hn : n ≤ 32) (hfirst : Within R buffer 32)
    (hchars : ∀ j < n, bytesOf k.view filename j ≠ 0) (hend : bytesOf k.view filename n = 0)
    (hentry : k.view buffer.toNat ≠ 0) (h : SameBytes k.view filename buffer n) :
    ∃ k', searchRootDir env filename buffer k = .ok (some (entryFile env k.view buffer)) k' ∧
      k.Reads R W k' := by
  obtain ⟨k₁, hrun₁, hr₁⟩ := strnlength_name (W := W) hm hname (hn.trans (by decide)) hchars hend
  obtain ⟨k₂, hrun₂, hr₂⟩ : ∃ k₂, searchEntries env filename buffer n 0 (15 + 1) k₁ =
      .ok (some (entryFile env k₁.view buffer)) k₂ ∧ k₁.Reads R W k₂ :=
    searchEntries_found env 15 (hr₁.mapped hm) (BitVec.add_zero _).symm hfirst
      (hname.mono (Nat.le_succ n)) (hfirst.mono hn) (hr₁.view ▸ hentry) (hr₁.view ▸ h)
  refine ⟨k₂, ?_, hr₁.trans hr₂⟩
  unfold searchRootDir
  rw [bind_ok hrun₁, ← hr₁.view]
  exact hrun₂

end Search
end Amaterasu
