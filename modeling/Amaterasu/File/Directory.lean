import Amaterasu.File.Read

/-! `GetFileInfo` against the file it is asked for: which entry of the root directory it finds, and
which bytes it reads. -/

namespace Amaterasu
open PageWalk Program

/-! ## The entries of a directory -/

def entryAt (buffer : BitVec 64) (i : Nat) : BitVec 64 := buffer + BitVec.ofNat 64 (32 * i)

theorem bytesOf_entryAt (m : ByteMemory) (buffer : BitVec 64) (i j : Nat) :
    bytesOf m (entryAt buffer i) j = bytesOf m buffer (32 * i + j) := by
  unfold bytesOf entryAt
  rw [BitVec.add_assoc, ← BitVec.ofNat_add]

/-- The bytes of the sector `lba`. -/
def sectorAt (disk : ByteMemory) (lba : Nat) : ByteMemory := fun j => disk (lba * 512 + j)

/-- Entry `i` of the first sector of the root directory. -/
def rootEntry (disk : ByteMemory) (rootDirStartLBA : BitVec 32) (i : Nat) : ByteMemory := fun j =>
  sectorAt disk rootDirStartLBA.toNat (32 * i + j)

/-- The bytes of the sector and of the file name with its end. -/
def searchBytes (filename buffer : BitVec 64) (n : Nat) : Set (BitVec 64) :=
  bytesAt buffer 512 ∪ bytesAt filename (n + 1)

/-- The entry is in use, and its name field is the name of `n` characters padded with spaces. -/
def Named (name entry : ByteMemory) (n : Nat) : Prop :=
  (entry 0 ≠ 0x00 ∧ entry 0 ≠ 0xe5) ∧ n ≤ 11 ∧
    ∀ j < 11, entry j = if j < n then name j else 0x20

/-- The file of the entry: its size, and the first sector of its cluster. -/
def DescribedBy (env : Environment) (entry : ByteMemory) (f : File) : Prop :=
  f.size.toNat = (entry.readInt 28).toNat ∧
    (2 ≤ (entry.readShort 26).toNat → f.start.toNat = env.partition.dataStartLBA.toNat +
      env.partition.sectorsOfCluster.toNat * ((entry.readShort 26).toNat - 2))

/-- The file of the entry `taken` is the file of the entry `named`: it has the same size and, unless
clusters are empty, starts in the same cluster, whose first sector fits in 32 bits. -/
structure SameFile (env : Environment) (named taken : ByteMemory) : Prop where
  size : taken.readInt 28 = named.readInt 28
  cluster : 2 ≤ (named.readShort 26).toNat →
    (env.partition.sectorsOfCluster = 0 ∨ taken.readShort 26 = named.readShort 26) ∧
    env.partition.dataStartLBA.toNat + env.partition.sectorsOfCluster.toNat *
      ((named.readShort 26).toNat - 2) < 2 ^ 32

/-- What `GetFileInfo` takes for the file: an entry that starts with its name. -/
def Picked (name entry : ByteMemory) (n : Nat) : Prop := entry 0 ≠ 0 ∧ ∀ j < n, name j = entry j

/-- The comparison of the name with the entry at `entry` leaves `R`. -/
def Overruns (R : Set (BitVec 64)) (m : ByteMemory) (filename entry : BitVec 64) (n : Nat) : Prop :=
  bytesOf m entry 0 ≠ 0 ∧ ∃ j < n, SameBytes m filename entry j ∧ entry + BitVec.ofNat 64 j ∉ R

theorem Named.congr {name entry entry' : ByteMemory} {n : Nat}
    (hentry : ∀ j < 32, entry j = entry' j) (h : Named name entry n) : Named name entry' n := by
  obtain ⟨⟨hzero, hdeleted⟩, hn, hname⟩ := h
  rw [hentry 0 (by decide)] at hzero hdeleted
  exact ⟨⟨hzero, hdeleted⟩, hn, fun j hj => (hentry j (by omega)).symm.trans (hname j hj)⟩

theorem Named.picked {name entry : ByteMemory} {n : Nat} (h : Named name entry n) :
    Picked name entry n := by
  obtain ⟨⟨hzero, -⟩, hn, hname⟩ := h
  refine ⟨hzero, fun j hj => ?_⟩
  rw [hname j (hj.trans_le hn), if_pos hj]

theorem entryFile_eq (env : Environment) (m : ByteMemory) (entry : BitVec 64) :
    entryFile env m entry =
      ⟨(env.partition.dataStartLBA + env.partition.sectorsOfCluster.setWidth 32 *
        (((bytesOf m entry).readShort 26).setWidth 32 - 2)).setWidth 64,
        ((bytesOf m entry).readInt 28).setWidth 64⟩ := by
  unfold entryFile
  simp only [← bytesOf_add m entry]
  rfl

/-- The sum that `GetFileInfo` makes of a cluster wraps around, but keeps clusters apart. -/
theorem clusterStart_eq_iff {start sectors : Nat} {taken named : BitVec 16} (hstart : start < 2 ^ 32)
    (hsectors : sectors < 256) (hnamed : 2 ≤ named.toNat) :
    (start + sectors * ((2 ^ 32 - 2 + taken.toNat) % 2 ^ 32)) % 2 ^ 32 =
        start + sectors * (named.toNat - 2) ↔
      (sectors = 0 ∨ taken = named) ∧ start + sectors * (named.toNat - 2) < 2 ^ 32 := by
  have hbound : ∀ c : BitVec 16, sectors * (c.toNat - 2) ≤ 255 * 65533 := fun c =>
    Nat.mul_le_mul (by omega) (by omega)
  have hp := hbound named
  rcases Nat.eq_zero_or_pos sectors with rfl | hpos
  · simp only [Nat.zero_mul, Nat.add_zero, true_or, true_and, hstart, iff_true]
    exact Nat.mod_eq_of_lt hstart
  · simp only [hpos.ne', false_or]
    rcases Nat.lt_or_ge taken.toNat 2 with hlow | hhigh
    · -- the difference is negative, and its multiple too small to wrap around again
      have hne : taken ≠ named := fun h => by
        rw [h] at hlow
        omega
      simp only [hne, false_and, iff_false]
      generalize taken.toNat = c at hlow ⊢
      obtain ⟨d, rfl⟩ := Nat.exists_eq_add_one_of_ne_zero hpos.ne'
      have hwrap : (start + (d + 1) * ((2 ^ 32 - 2 + c) % 2 ^ 32)) % 2 ^ 32 =
          (start + (2 ^ 32 - (2 - c) * (d + 1))) % 2 ^ 32 := by
        interval_cases c <;> omega
      rw [hwrap]
      interval_cases c <;> omega
    · have hq := hbound taken
      have hdiff : (2 ^ 32 - 2 + taken.toNat) % 2 ^ 32 = taken.toNat - 2 := by omega
      rw [hdiff]
      constructor
      · intro h
        have hmul : sectors * (taken.toNat - 2) = sectors * (named.toNat - 2) := by omega
        have hsub := Nat.eq_of_mul_eq_mul_left hpos hmul
        exact ⟨BitVec.eq_of_toNat_eq (by omega), by omega⟩
      · rintro ⟨rfl, hlt⟩
        exact Nat.mod_eq_of_lt hlt

/-- An entry is described by the file found in another one just when that is the same file. -/
theorem entryFile_describedBy_iff {env : Environment} {m : ByteMemory} {entry : BitVec 64}
    {named : ByteMemory} :
    DescribedBy env named (entryFile env m entry) ↔ SameFile env named (bytesOf m entry) := by
  have hsize : (((bytesOf m entry).readInt 28).setWidth 64).toNat = (named.readInt 28).toNat ↔
      (bytesOf m entry).readInt 28 = named.readInt 28 := by
    rw [BitVec.toNat_setWidth, Nat.mod_eq_of_lt (by omega), BitVec.toNat_inj]
  have hstart : ((env.partition.dataStartLBA + env.partition.sectorsOfCluster.setWidth 32 *
        (((bytesOf m entry).readShort 26).setWidth 32 - 2)).setWidth 64).toNat =
      (env.partition.dataStartLBA.toNat + env.partition.sectorsOfCluster.toNat *
        ((2 ^ 32 - 2 + ((bytesOf m entry).readShort 26).toNat) % 2 ^ 32)) % 2 ^ 32 := by
    rw [BitVec.toNat_setWidth, Nat.mod_eq_of_lt (by omega), BitVec.toNat_add, BitVec.toNat_mul,
      BitVec.toNat_sub, BitVec.toNat_setWidth, BitVec.toNat_setWidth,
      Nat.mod_eq_of_lt (a := env.partition.sectorsOfCluster.toNat) (by omega),
      Nat.mod_eq_of_lt (a := ((bytesOf m entry).readShort 26).toNat) (by omega), Nat.add_mod_mod]
    rfl
  have hzero : env.partition.sectorsOfCluster = 0 ↔ env.partition.sectorsOfCluster.toNat = 0 :=
    BitVec.toNat_inj.symm
  rw [entryFile_eq]
  unfold DescribedBy
  rw [hsize, hstart]
  constructor
  · rintro ⟨hs, hc⟩
    refine ⟨hs, fun hcluster => ?_⟩
    rw [hzero]
    exact (clusterStart_eq_iff (BitVec.isLt _) (BitVec.isLt _) hcluster).mp (hc hcluster)
  · rintro ⟨hs, hc⟩
    refine ⟨hs, fun hcluster => ?_⟩
    rw [hzero] at hc
    exact (clusterStart_eq_iff (BitVec.isLt _) (BitVec.isLt _) hcluster).mpr (hc hcluster)

/-! ## The search -/

section Search
variable {env : Environment} {R W : Set (BitVec 64)} {k : Kernel} {a b filename buffer : BitVec 64}
  {i j n left : Nat}

theorem strnlength_long (hm : Mapped R k.ram.cr3 k.ram.mem) (hR : ∀ j < left,
      a + BitVec.ofNat 64 (i + j) ∈ R)
    (hchars : ∀ j < left, k.view (a + BitVec.ofNat 64 (i + j)).toNat ≠ 0) :
    ∃ k', strnlength a i left k = .error () k' := by
  induction left generalizing i k with
  | zero => exact ⟨k, rfl⟩
  | succ left ih =>
    obtain ⟨k₁, hrun, hr⟩ := load_reads (W := ∅) hm (hR 0 (Nat.succ_pos _))
    have hnext : ∀ j, i + 1 + j = i + (j + 1) := fun j => by omega
    obtain ⟨k', hrest⟩ := ih (i := i + 1) (hr.mapped hm)
      (fun j hj => by rw [hnext]; exact hR (j + 1) (by omega))
      fun j hj => by
        rw [hr.view, hnext]
        exact hchars (j + 1) (by omega)
    have hfirst := hchars 0 (Nat.succ_pos _)
    rw [Nat.add_zero] at hrun hfirst
    refine ⟨k', ?_⟩
    unfold strnlength
    rw [bind_ok hrun, if_neg hfirst, hrest]

theorem strncmp_differs (hm : Mapped R k.ram.cr3 k.ram.mem) (ha : Within R a (j + 1))
    (hb : Within R b (j + 1)) (h : SameBytes k.view a b j) (hj : j < n)
    (hne : k.view (a + BitVec.ofNat 64 j).toNat ≠ k.view (b + BitVec.ofNat 64 j).toNat) :
    ∃ k', strncmp a b 0 n k = .ok 1 k' ∧ k.Reads R W k' := by
  obtain ⟨left, rfl⟩ : ∃ left, n = j + (left + 1) := ⟨n - j - 1, by omega⟩
  have hlast := Nat.lt_succ_self j
  obtain ⟨k₁, hstep, hr₁⟩ := strncmp_same (W := W) (left + 1) hm
    (ha.mono hlast.le) (hb.mono hlast.le) h
  obtain ⟨k₂, hrun₂, hr₂⟩ := load_reads (W := W) (hr₁.mapped hm) (ha j hlast)
  have hr := hr₁.trans hr₂
  obtain ⟨k₃, hrun₃, hr₃⟩ := load_reads (W := W) (hr.mapped hm) (hb j hlast)
  rw [hr₁.view] at hrun₂
  rw [hr.view] at hrun₃
  refine ⟨k₃, ?_, hr.trans hr₃⟩
  rw [hstep]
  unfold strncmp
  rw [bind_ok hrun₂, bind_ok hrun₃, if_pos hne]
  rfl

theorem strncmp_strays (hm : Mapped R k.ram.cr3 k.ram.mem) (ha : Within R a n)
    (hb : Within R b j) (h : SameBytes k.view a b j) (hj : j < n)
    (hout : b + BitVec.ofNat 64 j ∉ R) : k.Strays R W (final (strncmp a b 0 n k)) := by
  obtain ⟨left, rfl⟩ : ∃ left, n = j + (left + 1) := ⟨n - j - 1, by omega⟩
  obtain ⟨k₁, hstep, hr₁⟩ := strncmp_same (W := W) (left + 1) hm
    (ha.mono hj.le) hb h
  obtain ⟨k₂, hrun₂, hr₂⟩ := load_reads (W := W) (hr₁.mapped hm) (ha j hj)
  rw [hstep]
  unfold strncmp
  rw [bind_ok hrun₂]
  refine Ram.Strays.after (hr₁.trans hr₂).touches ?_
  refine Ram.Strays.bind (g := Kernel.ram) ?_ fun y => ?_
  · unfold load
    rw [onRam_final]
    exact Ram.load_strays hout
  · split_ifs
    · exact return_touches _
    · exact (strncmp_stores a b (j + 1) left).imp fun _ _ h => h.touches

/-- An entry that is not taken is passed, when its comparison stays inside. -/
theorem searchEntries_pass (env : Environment) (left : Nat) (hm : Mapped R k.ram.cr3 k.ram.mem)
    (hname : Within R filename n) (hentry : entryAt buffer i ∈ R)
    (hp : ¬Picked (bytesOf k.view filename) (bytesOf k.view (entryAt buffer i)) n)
    (ho : ¬Overruns R k.view filename (entryAt buffer i) n) :
    ∃ k', searchEntries env filename buffer n i (left + 1) k =
      searchEntries env filename buffer n (i + 1) left k' ∧ k.Reads R W k' := by
  obtain ⟨k₁, hrun₁, hr₁⟩ := load_reads (W := W) hm hentry
  have hzero := bytesOf_zero k.view (entryAt buffer i)
  by_cases hfree : k.view (entryAt buffer i).toNat = 0
  · refine ⟨k₁, ?_, hr₁⟩
    rw [searchEntries]
    exact (bind_ok hrun₁).trans (by rw [if_pos hfree])
  · -- the first character that differs
    have hdiffers : ∃ j, j < n ∧ bytesOf k.view filename j ≠
        bytesOf k.view (entryAt buffer i) j := by
      by_contra hsame
      push Not at hsame
      exact hp ⟨hzero ▸ hfree, hsame⟩
    obtain ⟨hj, hne⟩ := Nat.find_spec hdiffers
    have hbefore : SameBytes k.view filename (entryAt buffer i) (Nat.find hdiffers) := by
      intro l hl
      by_contra hdiff
      exact Nat.find_min hdiffers hl ⟨hl.trans hj, hdiff⟩
    have hinside : Within R (entryAt buffer i) (Nat.find hdiffers + 1) := by
      intro l hl
      by_contra hout
      have hle : l ≤ Nat.find hdiffers := Nat.lt_succ_iff.mp hl
      exact ho ⟨hzero ▸ hfree, l, hle.trans_lt hj, fun d hd => hbefore d (hd.trans_le hle), hout⟩
    obtain ⟨k₂, hrun₂, hr₂⟩ := strncmp_differs (W := W) (hr₁.mapped hm)
      (hname.mono hj) hinside
      (by rw [hr₁.view]; exact hbefore) hj (by rw [hr₁.view]; exact hne)
    refine ⟨k₂, ?_, hr₁.trans hr₂⟩
    rw [searchEntries]
    refine (bind_ok hrun₁).trans ?_
    rw [if_neg hfree]
    exact (bind_ok hrun₂).trans (by rw [if_pos (by decide)])

theorem searchEntries_skip (env : Environment) (left : Nat) (hm : Mapped R k.ram.cr3 k.ram.mem)
    (hname : Within R filename n) (hentries : ∀ l < i, entryAt buffer l ∈ R)
    (hp : ∀ l < i, ¬Picked (bytesOf k.view filename) (bytesOf k.view (entryAt buffer l)) n)
    (ho : ∀ l < i, ¬Overruns R k.view filename (entryAt buffer l) n) :
    ∃ k', searchEntries env filename buffer n 0 (i + left) k =
      searchEntries env filename buffer n i left k' ∧ k.Reads R W k' := by
  induction i generalizing left with
  | zero => exact ⟨k, by rw [Nat.zero_add], Kernel.Reads.refl k⟩
  | succ i ih =>
    have hi := Nat.lt_succ_self i
    obtain ⟨k₁, hstep, hr₁⟩ := ih (left + 1) (fun l hl => hentries l (hl.trans hi))
      (fun l hl => hp l (hl.trans hi)) fun l hl => ho l (hl.trans hi)
    obtain ⟨k₂, hpass, hr₂⟩ := searchEntries_pass (W := W) env left
      (hr₁.mapped hm) hname (hentries i hi) (hr₁.view ▸ hp i hi) (hr₁.view ▸ ho i hi)
    refine ⟨k₂, ?_, hr₁.trans hr₂⟩
    rw [Nat.add_right_comm, Nat.add_assoc, hstep, hpass]

theorem searchEntries_strays (hm : Mapped R k.ram.cr3 k.ram.mem) (hname : Within R filename n)
    (hentry : entryAt buffer i ∈ R) (ho : Overruns R k.view filename (entryAt buffer i) n) :
    k.Strays R W (final (searchEntries env filename buffer n i (left + 1) k)) := by
  classical
  obtain ⟨hfirst, j₀, hj₀⟩ := ho
  -- the first byte outside
  have hout : ∃ j, j < n ∧ SameBytes k.view filename (entryAt buffer i) j ∧
    entryAt buffer i + BitVec.ofNat 64 j ∉ R := ⟨j₀, hj₀⟩
  obtain ⟨hj, hsame, houtside⟩ := Nat.find_spec hout
  have hbefore : Within R (entryAt buffer i) (Nat.find hout) := by
    intro l hl
    by_contra hl'
    exact Nat.find_min hout hl ⟨hl.trans hj, fun d hd => hsame d (hd.trans hl), hl'⟩
  obtain ⟨k₁, hrun₁, hr₁⟩ := load_reads (W := W) hm hentry
  have hzero := bytesOf_zero k.view (entryAt buffer i)
  rw [searchEntries]
  refine Ram.Strays.bind_after (g := Kernel.ram) hrun₁ hr₁.touches ?_
  rw [if_neg (by rw [← hzero]; exact hfirst)]
  refine Ram.Strays.bind (g := Kernel.ram) ?_ fun y => ?_
  · exact strncmp_strays (hr₁.mapped hm) hname hbefore (by rw [hr₁.view]; exact hsame) hj houtside
  · refine Keeps.imp (R := Kernel.Stores Set.univ) ?_ fun _ _ h => h.touches
    split_ifs
    · exact searchEntries_stores n (i + 1) left
    · exact Keeps.thenStores (loadShort_stores _) fun _ =>
        Keeps.thenStores (loadInt_stores _) fun _ => return_stores _

end Search

/-! ## The right answer -/

/-- What `GetFileInfo` is to answer, for a sector of 16 entries that was read or not. -/
def RightAnswer (env : Environment) (name : ByteMemory) (entry : Nat → ByteMemory) (n : Nat)
    (read : Prop) : Option File → Prop
  | none => ¬read ∨ ∀ i < 16, ¬Named name (entry i) n
  | some f => read ∧ ∃ i < 16, Named name (entry i) n ∧ (∀ l < i, ¬Named name (entry l) n) ∧
      DescribedBy env (entry i) f

/-- `ATARead` has read the sector of the root directory between `k₀` and `k`: no request was in front
of its own, which did not fail, and the array has the bytes of that sector of the disk. -/
structure ReadRootDir (env : Environment) (k₀ k : Kernel) (ret : BitVec 32)
    (buffer : BitVec 64) : Prop where
  own : k₀.ata.queue.size = 0
  succeeded : ret ≠ -1
  sector : ∀ j < 512, bytesOf k.view buffer j =
    sectorAt env.disk env.partition.rootDirStartLBA.toNat j

section Answer
variable (env : Environment) (m : ByteMemory) (k : Kernel) (filename buffer : BitVec 64) (n : Nat)
  (read : Prop)

/-- The run returns the right answer for the name in memory in the state `k` and the directory on the
disk, and reads only the sector and the file name. -/
def AnswersRight (o : EStateM.Result Unit Kernel (Option File)) : Prop :=
  ∃ found k', o = .ok found k' ∧ k.Touches (searchBytes filename buffer n) ∅ k' ∧
    RightAnswer env (bytesOf k.view filename)
      (rootEntry env.disk env.partition.rootDirStartLBA) n read found

/-- The name can be counted, no comparison leaves the sector and the name, and an entry is taken only
if the sector was read, and if it has the file of the first entry with that name. -/
structure Unambiguous : Prop where
  countable : n ≤ intMax
  inside : ∀ i < 16,
    (∀ l < i, ¬Picked (bytesOf m filename) (bytesOf m (entryAt buffer l)) n) →
    ¬Overruns (searchBytes filename buffer n) m filename (entryAt buffer i) n
  named : ∀ i < 16,
    (∀ l < i, ¬Picked (bytesOf m filename) (bytesOf m (entryAt buffer l)) n) →
    Picked (bytesOf m filename) (bytesOf m (entryAt buffer i)) n →
    read ∧ ∃ e < 16,
      Named (bytesOf m filename) (rootEntry env.disk env.partition.rootDirStartLBA e) n ∧
      (∀ l < e,
        ¬Named (bytesOf m filename) (rootEntry env.disk env.partition.rootDirStartLBA l) n) ∧
      SameFile env (rootEntry env.disk env.partition.rootDirStartLBA e)
        (bytesOf m (entryAt buffer i))

variable {env k filename buffer n read}

theorem sector_within (h : i < 16) :
    Within (searchBytes filename buffer n) (entryAt buffer i) 32 := by
  intro j hj
  left
  refine ⟨32 * i + j, by omega, ?_⟩
  unfold entryAt
  rw [BitVec.add_assoc, ← BitVec.ofNat_add]

theorem entryAt_mem (h : i < 16) : entryAt buffer i ∈ searchBytes filename buffer n :=
  (sector_within h).start (by decide)

theorem filename_within : Within (searchBytes filename buffer n) filename (n + 1) := fun j hj =>
  Or.inr ⟨j, hj, rfl⟩

/-- The entry is taken, or its comparison leaves the sector and the name. -/
def Stops (m : ByteMemory) (filename buffer : BitVec 64) (n i : Nat) : Prop :=
  Picked (bytesOf m filename) (bytesOf m (entryAt buffer i)) n ∨
    Overruns (searchBytes filename buffer n) m filename (entryAt buffer i) n

section Outcomes
variable {i : Nat} (hm : Mapped (searchBytes filename buffer n) k.ram.cr3 k.ram.mem)
include hm

theorem searchEntries_reach (env : Environment) (hi : i ≤ 16)
    (hbefore : ∀ l < i, ¬Stops k.view filename buffer n l) :
    ∃ k', searchEntries env filename buffer n 0 16 k =
      searchEntries env filename buffer n i (16 - i) k' ∧
      k.Reads (searchBytes filename buffer n) ∅ k' := by
  obtain ⟨k', hstep, hr⟩ := searchEntries_skip (W := ∅) env (16 - i) hm
    (filename_within.mono (Nat.le_succ n))
    (fun l hl => entryAt_mem (hl.trans_le hi))
    (fun l hl hp => hbefore l hl (Or.inl hp)) fun l hl ho => hbefore l hl (Or.inr ho)
  rw [Nat.add_sub_cancel' hi] at hstep
  exact ⟨k', hstep, hr⟩

theorem searchEntries_takes (env : Environment) (hi : i < 16)
    (hbefore : ∀ l < i, ¬Stops k.view filename buffer n l)
    (hp : Picked (bytesOf k.view filename) (bytesOf k.view (entryAt buffer i)) n)
    (ho : ¬Overruns (searchBytes filename buffer n) k.view filename (entryAt buffer i) n) :
    ∃ k', searchEntries env filename buffer n 0 16 k =
      .ok (some (entryFile env k.view (entryAt buffer i))) k' ∧
      k.Reads (searchBytes filename buffer n) ∅ k' := by
  obtain ⟨k₁, hreach, hr₁⟩ := searchEntries_reach hm env hi.le hbefore
  obtain ⟨left, hleft⟩ : ∃ left, 16 - i = left + 1 := ⟨15 - i, by omega⟩
  obtain ⟨hne, hsame⟩ := hp
  have hinside : Within (searchBytes filename buffer n) (entryAt buffer i) n := by
    intro j hj
    by_contra hout
    exact ho ⟨hne, j, hj, fun l hl => hsame l (hl.trans hj), hout⟩
  have hzero : k₁.view (entryAt buffer i).toNat ≠ 0 := by
    rw [hr₁.view, ← bytesOf_zero k.view]
    exact hne
  obtain ⟨k₂, hrun₂, hr₂⟩ := searchEntries_found (W := ∅) env left
    (hr₁.mapped hm) (show entryAt buffer i = buffer + BitVec.ofNat 64 (32 * i) from rfl)
    (sector_within hi) (filename_within.mono (Nat.le_succ n)) hinside
    hzero (by rw [hr₁.view]; exact hsame)
  rw [hr₁.view] at hrun₂
  exact ⟨k₂, by rw [hreach, hleft, hrun₂], hr₁.trans hr₂⟩

theorem searchEntries_none (env : Environment)
    (hall : ∀ l < 16, ¬Stops k.view filename buffer n l) :
    ∃ k', searchEntries env filename buffer n 0 16 k = .ok none k' ∧
      k.Reads (searchBytes filename buffer n) ∅ k' := by
  obtain ⟨k₁, hreach, hr₁⟩ := searchEntries_reach hm env le_rfl hall
  exact ⟨k₁, hreach, hr₁⟩

theorem searchEntries_leaves (env : Environment) (hi : i < 16)
    (hbefore : ∀ l < i, ¬Stops k.view filename buffer n l)
    (ho : Overruns (searchBytes filename buffer n) k.view filename (entryAt buffer i) n) :
    k.Strays (searchBytes filename buffer n) ∅
      (final (searchEntries env filename buffer n 0 16 k)) := by
  obtain ⟨k₁, hreach, hr₁⟩ := searchEntries_reach hm env hi.le hbefore
  obtain ⟨left, hleft⟩ : ∃ left, 16 - i = left + 1 := ⟨15 - i, by omega⟩
  rw [hreach, hleft]
  refine Ram.Strays.after hr₁.touches (searchEntries_strays (hr₁.mapped hm)
    (filename_within.mono (Nat.le_succ n)) (entryAt_mem hi) ?_)
  rw [hr₁.view]
  exact ho

end Outcomes

/-- The search among the entries, in a state that was reached by reading. -/
theorem searchEntries_answersRight_iff {k₀ : Kernel} (hn : n ≤ intMax)
    (hm : Mapped (searchBytes filename buffer n) k.ram.cr3 k.ram.mem)
    (hr₀ : k₀.Reads (searchBytes filename buffer n) ∅ k)
    (hsector : read → ∀ i < 16, ∀ j < 32, bytesOf k.view (entryAt buffer i) j =
      rootEntry env.disk env.partition.rootDirStartLBA i j) :
    AnswersRight env k₀ filename buffer n read (searchEntries env filename buffer n 0 16 k) ↔
      Unambiguous env k₀.view filename buffer n read := by
  classical
  unfold AnswersRight
  rw [← hr₀.view]
  by_cases hstop : ∃ i, i < 16 ∧ Stops k.view filename buffer n i
  · -- the first entry at which the search stops
    obtain ⟨i, ⟨hi, hat⟩, hmin⟩ : ∃ i, (i < 16 ∧ Stops k.view filename buffer n i) ∧
        ∀ l < i, ¬(l < 16 ∧ Stops k.view filename buffer n l) :=
      ⟨Nat.find hstop, Nat.find_spec hstop, fun l hl => Nat.find_min hstop hl⟩
    have hbefore : ∀ l < i, ¬Stops k.view filename buffer n l := fun l hl hs =>
      hmin l hl ⟨hl.trans hi, hs⟩
    have hnone : ∀ l < i,
        ¬Picked (bytesOf k.view filename) (bytesOf k.view (entryAt buffer l)) n := fun l hl hp =>
      hbefore l hl (Or.inl hp)
    by_cases ho : Overruns (searchBytes filename buffer n) k.view filename (entryAt buffer i) n
    · have hleaves := searchEntries_leaves hm env hi hbefore ho
      constructor
      · rintro ⟨found, k', hrun, htouch, -⟩
        rw [hrun] at hleaves
        exact absurd htouch (hleaves.after hr₀.touches).not_touches
      · intro h
        exact absurd ho (h.inside i hi hnone)
    · have hp := hat.resolve_right ho
      obtain ⟨k', hrun, hr⟩ := searchEntries_takes hm env hi hbefore hp ho
      -- no later entry is reached
      have hlast : ∀ l, (∀ d < l, ¬Picked (bytesOf k.view filename)
          (bytesOf k.view (entryAt buffer d)) n) → l ≤ i := fun l hl =>
        Nat.le_of_not_lt fun hlt => hl i hlt hp
      constructor
      · rintro ⟨found, k'', hrun', -, hright⟩
        rw [hrun] at hrun'
        cases hrun'
        refine ⟨hn, fun l _ hl => ?_, fun l _ hl hpl => ?_⟩
        · rcases Nat.lt_or_eq_of_le (hlast l hl) with hlt | rfl
          · exact fun ho => hbefore l hlt (Or.inr ho)
          · exact ho
        · rcases Nat.lt_or_eq_of_le (hlast l hl) with hlt | rfl
          · exact absurd (Or.inl hpl) (hbefore l hlt)
          · obtain ⟨hdone, e, he, hnamed, hfirst, hdescribed⟩ := hright
            exact ⟨hdone, e, he, hnamed, hfirst, entryFile_describedBy_iff.mp hdescribed⟩
      · intro h
        obtain ⟨hdone, e, he, hnamed, hfirst, hsame⟩ := h.named i hi hnone hp
        exact ⟨_, k', hrun, (hr₀.trans hr).touches, hdone, e, he, hnamed, hfirst,
          entryFile_describedBy_iff.mpr hsame⟩
  · have hall : ∀ l < 16, ¬Stops k.view filename buffer n l := fun l hl hs => hstop ⟨l, hl, hs⟩
    obtain ⟨k', hrun, hr⟩ := searchEntries_none hm env hall
    constructor
    · intro _
      exact ⟨hn, fun l hl _ ho => hall l hl (Or.inr ho),
        fun l hl _ hp => absurd (Or.inl hp) (hall l hl)⟩
    · intro _
      refine ⟨none, k', hrun, (hr₀.trans hr).touches, or_iff_not_imp_left.mpr fun hdone l hl => ?_⟩
      exact fun hnamed => hall l hl (Or.inl
        (hnamed.congr fun j hj => (hsector (not_not.mp hdone) l hl j hj).symm).picked)

theorem ReadRootDir.entry {k₀ : Kernel} {ret : BitVec 32} (h : ReadRootDir env k₀ k ret buffer) :
    ∀ i < 16, ∀ j < 32, bytesOf k.view (entryAt buffer i) j =
      rootEntry env.disk env.partition.rootDirStartLBA i j := fun i hi j hj => by
  rw [bytesOf_entryAt]
  exact h.sector _ (by omega)

/-- `GetFileInfo` once `ATARead` has returned. -/
theorem searchRootDir_answersRight_iff
    (hm : Mapped (searchBytes filename buffer n) k.ram.cr3 k.ram.mem)
    (hchars : ∀ j < n, bytesOf k.view filename j ≠ 0) (hend : bytesOf k.view filename n = 0)
    (hsector : read → ∀ i < 16, ∀ j < 32, bytesOf k.view (entryAt buffer i) j =
      rootEntry env.disk env.partition.rootDirStartLBA i j) :
    AnswersRight env k filename buffer n read (searchRootDir env filename buffer k) ↔
      Unambiguous env k.view filename buffer n read := by
  by_cases hn : n ≤ intMax
  · obtain ⟨k₁, hrun, hr⟩ := strnlength_name (W := ∅) hm filename_within hn hchars hend
    unfold searchRootDir
    rw [bind_ok hrun]
    exact searchEntries_answersRight_iff hn (hr.mapped hm) hr (by rw [hr.view]; exact hsector)
  · obtain ⟨k₁, hrun⟩ : ∃ k₁, strnlength filename 0 (intMax + 1) k = .error () k₁ :=
      strnlength_long hm
        (fun j hj => by rw [Nat.zero_add]; exact filename_within j (by omega))
        fun j hj => by
          rw [Nat.zero_add]
          exact hchars j (by omega)
    unfold searchRootDir
    rw [bind_error hrun]
    constructor
    · rintro ⟨found, k', herror, -⟩
      cases herror
    · intro h
      exact absurd h.countable hn

/-- `GetFileInfo` gives the right answer just when the sector and the name are unambiguous. -/
theorem getFileInfo_answersRight_iff {k₀ : Kernel} {ret : BitVec 32}
    (hread : ataReadPoll env env.partition.rootDirStartLBA 512 buffer k₀ = .ok ret k)
    (hm : Mapped (searchBytes filename buffer n) k.ram.cr3 k.ram.mem)
    (hchars : ∀ j < n, bytesOf k.view filename j ≠ 0) (hend : bytesOf k.view filename n = 0) :
    AnswersRight env k filename buffer n (ReadRootDir env k₀ k ret buffer)
        (getFileInfoPoll env filename buffer k₀) ↔
      Unambiguous env k.view filename buffer n (ReadRootDir env k₀ k ret buffer) := by
  unfold getFileInfoPoll
  rw [bind_ok hread]
  exact searchRootDir_answersRight_iff hm hchars hend ReadRootDir.entry

end Answer
/-! ## A directory with one file -/

/-- The first GiB is mapped to itself. The strings `A` and `AB` are at `0x3000` and `0x3008`. -/
def oneGiB : ByteMemory
  | 0x1000 => 0x03
  | 0x1001 => 0x20
  | 0x2000 => 0x83
  | 0x3000 => 0x41
  | 0x3008 => 0x41
  | 0x3009 => 0x42
  | _ => 0

/-- The directory is in sector 1; its one entry is `AB`, with 5 bytes from cluster 2 on. -/
def directoryDisk (i : Nat) : BitVec 8 :=
  if i = 512 then 0x41
  else if i = 513 then 0x42
  else if 514 ≤ i ∧ i < 523 then 0x20
  else if i = 538 then 2
  else if i = 540 then 5
  else 0

def directoryEnvironment : Environment := ⟨directoryDisk, fun _ => 0, ⟨1, 1, 2⟩, 0, smallDisplay⟩

def directoryKernel : Kernel where
  ram := ⟨oneGiB, 0x1000, [], []⟩
  rsp0 := 0
  heap := KHeap.kHeapInit 0x100000
  frames := []
  ata := AtaSystem.ataInit fun _ => ⟨false, 0, 0, false, 0, 0⟩
  answers := []
  current := 1
  process := ⟨1, .running, ⟨0, 0, 0, 0⟩, ⟨0, 0, 0, 0x1000⟩⟩
  children := []
  cursorX := 0
  cursorY := 0

theorem oneGiB_direct {W : Set (BitVec 64)} (hW : ∀ a ∈ W, 0x4000 ≤ a.toNat ∧ a.toNat < 2 ^ 30) :
    Direct { a | a.toNat < 2 ^ 30 } W 0x1000 oneGiB := by
  intro m hm a ha
  have hlow : a.toNat < 2 ^ 30 := ha.elim id fun h => (hW a h).2
  have hunwritten : ∀ x < 0x4000, m x = oneGiB x := fun x hx => hm x fun a ha =>
    (hx.trans_le (hW a ha).1).ne'
  have hindex : ∀ level, 2 ≤ level → index a level = 0 := fun level hlevel => by
    have hle : 2 ^ 30 ≤ 2 ^ shift level := Nat.pow_le_pow_right (by decide) (by unfold shift; omega)
    unfold index
    rw [Nat.div_eq_of_lt (hlow.trans_le hle)]
  have h4 : entry m 0x1000 a 3 = 0x2003 := by
    unfold entry
    rw [hindex 3 (by decide), ByteMemory.readWord_congr fun i hi => hunwritten _ (by omega)]
    decide
  have h3 : entry m 0x2000 a 2 = 0x83 := by
    unfold entry
    rw [hindex 2 (by decide), ByteMemory.readWord_congr fun i hi => hunwritten _ (by omega)]
    decide
  have hroot : frame 0x1000 12 = 0x1000 := by decide
  have htable : frame 0x2003 12 = 0x2000 := by decide
  have hcanonical : Canonical a := Or.inl (hlow.trans (by decide))
  unfold physical walk
  rw [if_pos hcanonical, hroot, walkFrom_table (by rw [h4]; decide) (by rw [h4]; decide), h4, htable,
    walkFrom_large (by rw [h3]; decide) (by rw [h3]; decide) (by decide), h3]
  have hpage : frame 0x83 (shift 2) = 0 := by decide
  show some (frame 0x83 (shift 2) + a.toNat % 2 ^ 30) = _
  rw [hpage, Nat.zero_add, Nat.mod_eq_of_lt hlow]

/-- The sector is read into the array at `0x4000`. -/
theorem directory_read : ∃ k, ataReadPoll directoryEnvironment 1 512 0x4000 directoryKernel =
      .ok 512 k ∧
    Mapped { a | a.toNat < 2 ^ 30 } k.ram.cr3 k.ram.mem ∧
    (∀ j < 512, bytesOf k.view 0x4000 j = directoryDisk (512 + j)) ∧
    ∀ a : BitVec 64, a.toNat < 0x4000 → k.view a.toNat = oneGiB a.toNat := by
  have hidle : directoryKernel.Idle :=
    ⟨⟨by decide, by decide⟩, rfl, fun b hb => absurd hb List.not_mem_nil⟩
  have hmapped : Direct { a | a.toNat < 2 ^ 30 } (range 0x4000 512) 0x1000 oneGiB :=
    oneGiB_direct fun a ha => ⟨ha.1, ha.2.trans (by decide)⟩
  obtain ⟨k, hrun, -, hdirect, -, hinside, houtside⟩ := ataReadPoll_sector directoryEnvironment 1
    hidle hmapped (range_within (by decide)) (by decide)
  have hbuffer : (0x4000 : BitVec 64).toNat = 0x4000 := rfl
  refine ⟨k, hrun, hdirect.mapped, fun j hj => ?_, fun a ha => ?_⟩
  · have hlow : (0x4000 : BitVec 64) + BitVec.ofNat 64 j ∈ { a : BitVec 64 | a.toNat < 2 ^ 30 } := by
      show ((0x4000 : BitVec 64) + BitVec.ofNat 64 j).toNat < 2 ^ 30
      rw [toNat_add_ofNat (by omega)]
      omega
    have hbyte := hinside j hj
    rw [show (1 : BitVec 32).toNat % 2 ^ 28 * 512 = 512 by decide] at hbyte
    rw [bytesOf_direct hdirect hlow (by omega)]
    exact hbyte
  · have hlow : a ∈ { a : BitVec 64 | a.toNat < 2 ^ 30 } := ha.trans (by decide)
    unfold Kernel.view
    rw [hdirect.view_eq hlow]
    exact houtside _ (Or.inl ha)

theorem searchBytes_low {filename : BitVec 64} {n : Nat} (h : filename.toNat + n < 0x4000) :
    searchBytes filename 0x4000 n ⊆ { a | a.toNat < 2 ^ 30 } := by
  rintro a (⟨j, hj, rfl⟩ | ⟨j, hj, rfl⟩)
  · have hj : j < 512 := hj
    show (0x4000 + BitVec.ofNat 64 j).toNat < 2 ^ 30
    bv_omega
  · have hj : j < n + 1 := hj
    show (filename + BitVec.ofNat 64 j).toNat < 2 ^ 30
    rw [toNat_add_ofNat (by omega)]
    omega

theorem directory_readRootDir {k : Kernel}
    (hsector : ∀ j < 512, bytesOf k.view 0x4000 j = directoryDisk (512 + j)) :
    ReadRootDir directoryEnvironment directoryKernel k 512 0x4000 where
  own := rfl
  succeeded := by decide
  sector j hj := by
    have hlba : directoryEnvironment.partition.rootDirStartLBA.toNat = 1 := rfl
    rw [hsector j hj, hlba]
    rfl

theorem directory_free {i : Nat} (h0 : 0 < i) : rootEntry directoryDisk 1 i 0 = 0 := by
  have hlba : (1 : BitVec 32).toNat = 1 := rfl
  unfold rootEntry sectorAt directoryDisk
  rw [hlba, if_neg (by omega), if_neg (by omega), if_neg (by omega), if_neg (by omega),
    if_neg (by omega)]

theorem directory_name {j : Nat} (hj : j < 11) : rootEntry directoryDisk 1 0 j =
    if j = 0 then 0x41 else if j = 1 then 0x42 else 0x20 := by
  interval_cases j <;> decide

/-- Asked for `AB`, `GetFileInfo` gives the right answer. -/
theorem getFileInfo_answersRight_AB : ∃ k,
    ataReadPoll directoryEnvironment 1 512 0x4000 directoryKernel = .ok 512 k ∧
    ReadRootDir directoryEnvironment directoryKernel k 512 0x4000 ∧
    AnswersRight directoryEnvironment k 0x3008 0x4000 2
      (ReadRootDir directoryEnvironment directoryKernel k 512 0x4000)
      (getFileInfoPoll directoryEnvironment 0x3008 0x4000 directoryKernel) := by
  obtain ⟨k, hread, hmapped, hsector, hlow⟩ := directory_read
  have h0 : bytesOf k.view 0x3008 0 = 0x41 := hlow 0x3008 (by decide)
  have h1 : bytesOf k.view 0x3008 1 = 0x42 := hlow 0x3009 (by decide)
  have h2 : bytesOf k.view 0x3008 2 = 0 := hlow 0x300a (by decide)
  have hm : Mapped (searchBytes 0x3008 0x4000 2) k.ram.cr3 k.ram.mem := fun a ha =>
    hmapped a (searchBytes_low (by decide) ha)
  have hchars : ∀ j < 2, bytesOf k.view 0x3008 j ≠ 0 := by
    intro j hj
    interval_cases j
    · rw [h0]
      decide
    · rw [h1]
      decide
  have hroot := directory_readRootDir hsector
  refine ⟨k, hread, hroot,
    (getFileInfo_answersRight_iff hread hm hchars h2).mpr ⟨by decide, ?_, ?_⟩⟩
  · rintro i hi - ⟨-, j, hj, -, hout⟩
    exact hout (sector_within hi j (hj.trans (by decide)))
  · intro i hi _ hp
    have hentry := hroot.entry i hi
    rcases Nat.eq_zero_or_pos i with rfl | hpos
    · refine ⟨hroot, 0, by decide, ⟨⟨by decide, by decide⟩, by decide, fun j hj => ?_⟩,
        fun l hl => absurd hl (Nat.not_lt_zero l), ?_, fun _ => ⟨Or.inr ?_, by decide⟩⟩
      · refine (directory_name hj).trans ?_
        interval_cases j
        · exact h0.symm
        · exact h1.symm
        all_goals rfl
      · exact ByteMemory.readInt_congr fun j hj => hentry _ (by omega)
      · exact ByteMemory.readShort_congr fun j hj => hentry _ (by omega)
    · exact absurd ((hentry 0 (by decide)).trans (directory_free hpos)) hp.1

/-- Asked for `A`, it finds `AB`. -/
theorem getFileInfo_finds_longer_name : ∃ k,
    ataReadPoll directoryEnvironment 1 512 0x4000 directoryKernel = .ok 512 k ∧
    ReadRootDir directoryEnvironment directoryKernel k 512 0x4000 ∧
    (bytesOf k.view 0x3000 0 = 0x41 ∧ bytesOf k.view 0x3000 1 = 0) ∧
    ¬AnswersRight directoryEnvironment k 0x3000 0x4000 1
      (ReadRootDir directoryEnvironment directoryKernel k 512 0x4000)
      (getFileInfoPoll directoryEnvironment 0x3000 0x4000 directoryKernel) := by
  obtain ⟨k, hread, hmapped, hsector, hlow⟩ := directory_read
  have h0 : bytesOf k.view 0x3000 0 = 0x41 := hlow 0x3000 (by decide)
  have h1 : bytesOf k.view 0x3000 1 = 0 := hlow 0x3001 (by decide)
  have hm : Mapped (searchBytes 0x3000 0x4000 1) k.ram.cr3 k.ram.mem := fun a ha =>
    hmapped a (searchBytes_low (by decide) ha)
  have hroot := directory_readRootDir hsector
  refine ⟨k, hread, hroot, ⟨h0, h1⟩, ?_⟩
  have hrun : getFileInfoPoll directoryEnvironment 0x3000 0x4000 directoryKernel =
    searchRootDir directoryEnvironment 0x3000 0x4000 k := bind_ok hread
  rw [hrun, searchRootDir_answersRight_iff hm
    (fun j hj => by rw [Nat.lt_one_iff.mp hj, h0]; decide) h1 ReadRootDir.entry]
  intro h
  have hfirst := hroot.entry 0 (by decide)
  have hpicked : Picked (bytesOf k.view 0x3000) (bytesOf k.view (entryAt 0x4000 0)) 1 := by
    refine ⟨?_, fun j hj => ?_⟩
    · rw [hfirst 0 (by decide)]
      decide
    · rw [Nat.lt_one_iff.mp hj, hfirst 0 (by decide), h0]
      decide
  obtain ⟨-, i, hi, ⟨⟨hused, -⟩, -, hname⟩, -⟩ := h.named 0 (by decide)
    (fun l hl => absurd hl (Nat.not_lt_zero l)) hpicked
  rcases Nat.eq_zero_or_pos i with rfl | hpos
  · have hsecond : rootEntry directoryDisk 1 0 1 = 0x20 := hname 1 (by decide)
    exact absurd hsecond (by decide)
  · exact hused (directory_free hpos)

end Amaterasu
