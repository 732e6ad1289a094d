import Amaterasu.File.Directory

/-! What the search of the directory has found and what a polled `ATARead` has done when they
return, whatever is mapped and whatever is queued. -/

namespace Amaterasu
open PageWalk Program

/-- The outcome of a search through `left` places from `i` on, for the first with `P`. -/
def FirstOf {α : Type} (P : Nat → Prop) (value : Nat → α) (i left : Nat) : Option α → Prop
  | none => ∀ l, i ≤ l → l < i + left → ¬P l
  | some a => ∃ l, (i ≤ l ∧ l < i + left) ∧ P l ∧ (∀ d, i ≤ d → d < l → ¬P d) ∧ a = value l

section FirstOf
variable {α : Type} {P Q : Nat → Prop} {value : Nat → α} {i left : Nat} {o : Option α}

theorem FirstOf.here (left : Nat) (h : P i) : FirstOf P value i (left + 1) (some (value i)) :=
  ⟨i, ⟨le_rfl, by omega⟩, h, fun _ hd hlt => absurd hd (Nat.not_le.mpr hlt), rfl⟩

theorem FirstOf.skip (hi : ¬P i) (h : FirstOf P value (i + 1) left o) :
    FirstOf P value i (left + 1) o := by
  cases o with
  | none =>
    intro l hl hlt
    rcases Nat.eq_or_lt_of_le hl with rfl | hgt
    · exact hi
    · exact h l hgt (by omega)
  | some a =>
    obtain ⟨l, ⟨hl, hlt⟩, hp, hbefore, ha⟩ := h
    refine ⟨l, ⟨by omega, by omega⟩, hp, fun d hd hdl => ?_, ha⟩
    rcases Nat.eq_or_lt_of_le hd with rfl | hgt
    · exact hi
    · exact hbefore d hgt hdl

theorem FirstOf.congr (hPQ : ∀ l, P l ↔ Q l) (h : FirstOf P value i left o) :
    FirstOf Q value i left o := by
  have heq : P = Q := funext fun l => propext (hPQ l)
  rwa [← heq]

end FirstOf

/-- The entry is in use and starts with the whole file name. -/
def Begins (m : ByteMemory) (filename entry : BitVec 64) : Prop :=
  ∃ n, (∀ j < n, bytesOf m filename j ≠ 0) ∧ bytesOf m filename n = 0 ∧
    Picked (bytesOf m filename) (bytesOf m entry) n

/-! ## The search -/

section Search
variable {env : Environment} {k k' : Kernel} {la a b filename buffer : BitVec 64}
  {i n left length : Nat}

theorem Kernel.Stores.mem_eq (h : k.Stores ∅ k') : k'.ram.mem = k.ram.mem :=
  Ram.Touches.mem_eq h.touches

theorem Kernel.Stores.view_eq (h : k.Stores ∅ k') : k'.view = k.view := by
  unfold Kernel.view
  rw [h.mem_eq, h.touches.cr3]

theorem Keeps.view_eq {α : Type} {x : KernelM α} {v : α} (hx : Keeps (Kernel.Stores ∅) x)
    (h : x k = .ok v k') : k'.view = k.view := by
  have hstores := hx k
  rw [h] at hstores
  exact hstores.view_eq

theorem onRam_inv {α : Type} {x : Accessing α} {v : α} (h : onRam x k = .ok v k') :
    ∃ r, x k.ram = .ok v r ∧ k' = { k with ram := r } := by
  unfold onRam onPart at h
  cases hx : x k.ram with
  | ok a r =>
    rw [hx] at h
    cases h
    exact ⟨r, rfl, rfl⟩
  | error e r =>
    rw [hx] at h
    cases h

theorem load_ok {v : BitVec 8} (h : load la k = .ok v k') : v = k.view la.toNat := by
  obtain ⟨r, hrun, -⟩ := onRam_inv h
  exact Ram.load_ok hrun

theorem loadShort_ok {v : BitVec 16} (h : loadShort la k = .ok v k') :
    v = k.view (la + 1).toNat ++ k.view (la + 0).toNat := by
  obtain ⟨m, k₁, hall, hlast⟩ := ok_of_bind h
  obtain ⟨r, hrun, -⟩ := onRam_inv hall
  cases hlast
  rw [Ram.loadAll_ok hrun (i := 1) (by decide), Ram.loadAll_ok hrun (i := 0) (by decide)]
  rfl

theorem loadInt_ok {v : BitVec 32} (h : loadInt la k = .ok v k') :
    v = k.view (la + 3).toNat ++ k.view (la + 2).toNat ++ k.view (la + 1).toNat ++
      k.view (la + 0).toNat := by
  obtain ⟨m, k₁, hall, hlast⟩ := ok_of_bind h
  obtain ⟨r, hrun, -⟩ := onRam_inv hall
  cases hlast
  rw [Ram.loadAll_ok hrun (i := 3) (by decide), Ram.loadAll_ok hrun (i := 2) (by decide),
    Ram.loadAll_ok hrun (i := 1) (by decide), Ram.loadAll_ok hrun (i := 0) (by decide)]
  rfl

/-- A string that has been counted ends where the count does. -/
theorem strnlength_ok (h : strnlength a i left k = .ok n k') :
    (∀ j, i ≤ j → j < n → bytesOf k.view a j ≠ 0) ∧ bytesOf k.view a n = 0 := by
  induction left generalizing i k with
  | zero => cases h
  | succ left ih =>
    unfold strnlength at h
    obtain ⟨x, k₁, hload, hrest⟩ := ok_of_bind h
    have hx : x = bytesOf k.view a i := load_ok hload
    by_cases hzero : x = 0
    · rw [if_pos hzero] at hrest
      cases hrest
      exact ⟨fun j hj hlt => absurd hj (Nat.not_le.mpr hlt), hx ▸ hzero⟩
    · rw [if_neg hzero] at hrest
      have hview := Keeps.view_eq (load_stores _) hload
      obtain ⟨hchars, hend⟩ := ih hrest
      rw [hview] at hchars hend
      refine ⟨fun j hj hlt => ?_, hend⟩
      rcases Nat.eq_or_lt_of_le hj with rfl | hgt
      · exact hx ▸ hzero
      · exact hchars j hgt hlt

theorem strncmp_ok {r : BitVec 32} (h : strncmp a b i left k = .ok r k') :
    r = 0 ↔ ∀ j, i ≤ j → j < i + left → bytesOf k.view a j = bytesOf k.view b j := by
  induction left generalizing i k with
  | zero =>
    cases h
    exact ⟨fun _ j hj hlt => absurd hj (Nat.not_le.mpr hlt), fun _ => rfl⟩
  | succ left ih =>
    unfold strncmp at h
    obtain ⟨x, k₁, hfirst, hrest⟩ := ok_of_bind h
    obtain ⟨y, k₂, hsecond, hcompare⟩ := ok_of_bind hrest
    have hview₁ := Keeps.view_eq (load_stores _) hfirst
    have hview₂ := Keeps.view_eq (load_stores _) hsecond
    have hx : x = bytesOf k.view a i := load_ok hfirst
    have hy : y = bytesOf k.view b i := hview₁ ▸ load_ok hsecond
    by_cases hne : x ≠ y
    · rw [if_pos hne] at hcompare
      cases hcompare
      refine ⟨fun h => absurd h (by decide), fun hall => absurd ?_ hne⟩
      rw [hx, hy]
      exact hall i le_rfl (by omega)
    · rw [if_neg hne] at hcompare
      rw [ih hcompare, hview₂, hview₁]
      constructor
      · intro hall j hj hlt
        rcases Nat.eq_or_lt_of_le hj with rfl | hgt
        · rw [← hx, ← hy]
          exact not_not.mp hne
        · exact hall j hgt (by omega)
      · exact fun hall j hj hlt => hall j (by omega) (by omega)

/-- The search finds the first entry that starts with the name. -/
theorem searchEntries_ok {found : Option File}
    (h : searchEntries env filename buffer n i left k = .ok found k') :
    FirstOf (fun l => Picked (bytesOf k.view filename) (bytesOf k.view (entryAt buffer l)) n)
      (fun l => entryFile env k.view (entryAt buffer l)) i left found := by
  induction left generalizing i k with
  | zero =>
    cases h
    exact fun l hl hlt => absurd hl (Nat.not_le.mpr hlt)
  | succ left ih =>
    unfold searchEntries at h
    obtain ⟨x, k₁, hfirst, hrest⟩ := ok_of_bind h
    have hview₁ := Keeps.view_eq (load_stores _) hfirst
    have hx : x = bytesOf k.view (entryAt buffer i) 0 := by
      rw [bytesOf_zero]
      exact load_ok hfirst
    by_cases hfree : x = 0
    · rw [if_pos hfree] at hrest
      have hskip := ih hrest
      rw [hview₁] at hskip
      exact hskip.skip fun hp => hp.1 (hx ▸ hfree)
    · rw [if_neg hfree] at hrest
      obtain ⟨r, k₂, hcompare, hlast⟩ := ok_of_bind hrest
      have hview₂ := Keeps.view_eq (strncmp_stores _ _ _ _) hcompare
      have hsame := strncmp_ok hcompare
      rw [hview₁] at hsame
      have hpicked : Picked (bytesOf k.view filename) (bytesOf k.view (entryAt buffer i)) n ↔
          r = 0 := by
        rw [hsame]
        constructor
        · exact fun hp j _ hlt => hp.2 j (by omega)
        · exact fun hall => ⟨hx ▸ hfree, fun j hj => hall j (Nat.zero_le j) (by omega)⟩
      by_cases hr : r ≠ 0
      · rw [if_pos hr] at hlast
        have hskip := ih hlast
        rw [hview₂, hview₁] at hskip
        exact hskip.skip fun hp => hr (hpicked.mp hp)
      · rw [if_neg hr] at hlast
        obtain ⟨clusterHead, k₃, hshort, hlast⟩ := ok_of_bind hlast
        obtain ⟨filesize, k₄, hint, hlast⟩ := ok_of_bind hlast
        have hview₃ := Keeps.view_eq (loadShort_stores _) hshort
        have hcluster := loadShort_ok hshort
        have hsize := loadInt_ok hint
        rw [hview₂, hview₁] at hcluster
        rw [hview₃, hview₂, hview₁] at hsize
        cases hlast
        rw [hcluster, hsize]
        exact FirstOf.here left (hpicked.mpr (not_not.mp hr))

/-- What `GetFileInfo` returns, by the memory in which it searches. -/
theorem searchRootDir_ok {found : Option File}
    (h : searchRootDir env filename buffer k = .ok found k') :
    FirstOf (fun i => Begins k.view filename (entryAt buffer i))
      (fun i => entryFile env k.view (entryAt buffer i)) 0 16 found := by
  unfold searchRootDir at h
  obtain ⟨n, k₁, hlength, hsearch⟩ := ok_of_bind h
  obtain ⟨hchars, hend⟩ := strnlength_ok hlength
  have hfirst := searchEntries_ok hsearch
  rw [Keeps.view_eq (strnlength_stores _ _ _) hlength] at hfirst
  refine hfirst.congr fun l => ⟨fun hp => ⟨n, fun j hj => hchars j (Nat.zero_le j) hj, hend, hp⟩, ?_⟩
  -- the name has one end
  rintro ⟨d, hd, hdend, hp⟩
  rcases Nat.lt_trichotomy d n with hlt | rfl | hgt
  · exact absurd hdend (hchars d (Nat.zero_le d) hlt)
  · exact hp
  · exact absurd hend (hd n hgt)

end Search

/-! ## A polled `ATARead` -/

namespace AtaSystem

/-- The device once the call `c` has waited, where `ok` tells whether the command in service
succeeds. -/
def answered (s : AtaSystem) (c : AtaCall) (ok : Bool) : AtaDevice :=
  match (s.submitted c).device with
  | .busy command => if ok then .ready command 0 else .failed
  | d => d

/-- The requests that the polling call `c` leaves in the queue. -/
def remaining (s : AtaSystem) (c : AtaCall) (ok : Bool) : List AtaRequest :=
  let pending := s.queue.toList ataRequestQueueCapacity
  if s.queue.size = ataRequestQueueCapacity then pending
  else if s.answered c ok = .failed then pending ++ [c.request]
  else (pending ++ [c.request]).tail

/-- The polling call `c` is refused, or it finds no request but such as its own and the device does
not fail it. -/
def Passes (s : AtaSystem) (c : AtaCall) (ok : Bool) : Prop :=
  s.queue.size = ataRequestQueueCapacity ∨
    (∀ r ∈ s.queue.toList ataRequestQueueCapacity, r = c.request) ∧ s.answered c ok ≠ .failed

section Polling
variable {s t : AtaSystem} {c : AtaCall} {ok : Bool}

theorem tail_append_eq_iff {α : Type} {l : List α} {a : α} :
    (l ++ [a]).tail = l ↔ ∀ x ∈ l, x = a := by
  cases l with
  | nil => simp
  | cons x xs =>
    show xs ++ [a] = x :: xs ↔ _
    induction xs generalizing x with
    | nil => simp [eq_comm]
    | cons y ys ih =>
      rw [List.cons_append, List.cons.injEq, ih y, List.forall_mem_cons (a := x)]
      constructor
      · rintro ⟨rfl, hall⟩
        exact ⟨hall y List.mem_cons_self, hall⟩
      · rintro ⟨rfl, hall⟩
        exact ⟨hall y List.mem_cons_self, hall⟩

theorem remaining_eq_iff :
    s.remaining c ok = s.queue.toList ataRequestQueueCapacity ↔ s.Passes c ok := by
  unfold remaining Passes
  by_cases hfull : s.queue.size = ataRequestQueueCapacity
  · simp [hfull]
  · by_cases hfailed : s.answered c ok = .failed
    · simp [hfull, hfailed]
    · simp only [hfull, hfailed, if_false, tail_append_eq_iff, false_or, ne_eq, not_false_eq_true,
        and_true]

theorem answered_idle (h : ∀ command, (s.submitted c).device ≠ .busy command) :
    s.answered c ok = (s.submitted c).device := by
  unfold answered
  split
  · rename_i command hd
    exact absurd hd (h command)
  · rfl

theorem polling_answered (h : (s.submitted c).ataPollingUntilReady ok = some t) :
    ∃ i, t = { s.submitted c with device := s.answered c ok, interrupt := i } := by
  by_cases hbusy : ∃ command, (s.submitted c).device = .busy command
  · obtain ⟨command, hd⟩ := hbusy
    obtain ⟨⟨d, i, rfl⟩, hdevice⟩ := polled h
    have hd' : d = if ok then .ready command 0 else .failed := hdevice command hd
    have hanswered : s.answered c ok = if ok then .ready command 0 else .failed := by
      unfold answered
      rw [hd]
    exact ⟨i, by rw [hd', hanswered]⟩
  · rw [answered_idle fun command hd => hbusy ⟨command, hd⟩]
    refine ⟨(s.submitted c).interrupt, ?_⟩
    unfold ataPollingUntilReady at h
    split at h
    · cases h
    · rename_i command hd
      exact absurd ⟨command, hd⟩ hbusy
    · split_ifs at h
      exact (Option.some.inj h).symm
    · exact (Option.some.inj h).symm

theorem serve_stores (disk : Nat → BitVec 8) (floating : Nat → BitVec 16)
    (hfront : s.queue.front = c.request) (hd : s.device ≠ .failed) :
    ((s.serve disk floating c).outcomes.headD ⟨c, -1, []⟩).stores =
      c.request.copy (s.device.word disk floating) := by
  have hff : ataRequestQueueFront s.queue = c.request := hfront
  unfold serve
  rw [if_neg hd, hff]
  rfl

end Polling
end AtaSystem

/-- What a polled `ATARead` in the call `c` does to the rest of the kernel, and to memory when it
does not fill the buffer of another. -/
structure Kernel.Polled (env : Environment) (k : Kernel) (c : AtaCall) (k' : Kernel) : Prop where
  heap : k'.heap = k.heap
  process : k'.process = k.process
  cr3 : k'.ram.cr3 = k.ram.cr3
  queue : k'.ata.queue.toList ataRequestQueueCapacity =
    k.ata.remaining c (k.answers.headD true)
  full : k.ata.queue.size = ataRequestQueueCapacity → k'.ram.mem = k.ram.mem
  own : k.ata.queue.size ≠ ataRequestQueueCapacity →
    k.ata.answered c (k.answers.headD true) ≠ .failed →
    (∀ r ∈ k.ata.queue.toList ataRequestQueueCapacity, r = c.request) →
    ∀ R W, Direct R W k.ram.cr3 k.ram.mem → c.request.bytes ⊆ W →
    k'.ram.mem = poke k.ram.mem (c.request.copy
      ((k.ata.answered c (k.answers.headD true)).word env.disk env.floating))

/-- The kernel once the polling call `c` has waited, with `interrupt` for the line. -/
def Kernel.waited (k : Kernel) (c : AtaCall) (interrupt : Bool) : Kernel := { k with
  ata := { k.ata.submitted c with
    device := k.ata.answered c (k.answers.headD true)
    interrupt := interrupt }
  answers := k.answers.tail }

section Read
variable {env : Environment} {k k' : Kernel} {c : AtaCall} {r : BitVec 32} {interrupt : Bool}

/-- After an error nothing is taken from the queue; the screen is written only. -/
theorem ataServe_failed (hd : k.ata.device = .failed) (h : ataServe env c k = .ok r k') :
    ∃ ram x y, ram.cr3 = k.ram.cr3 ∧
      k' = { k with ram := ram, ata := k.ata.refuse c, cursorX := x, cursorY := y } := by
  obtain ⟨ram, x, htouch, herror | hok⟩ := ataServe_error_cases env c hd
  · cases herror.symm.trans h
  · cases hok.symm.trans h
    exact ⟨ram, _, _, htouch.cr3, rfl⟩

theorem ataServe_served (hd : k.ata.device ≠ .failed) (h : ataServe env c k = .ok r k') :
    ∃ ram, Ram.storeAll ((k.ata.serve env.disk env.floating c).outcomes.headD ⟨c, -1, []⟩).stores
        k.ram = .ok () ram ∧ ram.cr3 = k.ram.cr3 ∧
      k' = { k with ram := ram, ata := k.ata.serve env.disk env.floating c } := by
  unfold ataServe at h
  rw [bind_get] at h
  dsimp only at h
  rw [if_neg hd] at h
  obtain ⟨_, k₁, hstore, hrest⟩ := ok_of_bind h
  obtain ⟨ram, hrun, rfl⟩ := onRam_inv hstore
  have hkeeps : Keeps (Ram.Touches Set.univ Set.univ) (Ram.storeAll
      ((k.ata.serve env.disk env.floating c).outcomes.headD ⟨c, -1, []⟩).stores) :=
    Ram.storeAll_touches fun _ _ => trivial
  have htouch := hkeeps k.ram
  rw [hrun] at htouch
  cases hrest
  exact ⟨ram, hrun, htouch.cr3, rfl⟩

theorem ataReadPoll_cases {lba size : BitVec 32} {buffer : BitVec 64}
    (hc : c = ⟨k.current, lba.toNat, size.toInt, buffer⟩)
    (h : ataReadPoll env lba size buffer k = .ok r k') :
    (k.ata.queue.size = ataRequestQueueCapacity ∧ k' = { k with ata := k.ata.refuse c }) ∨
      k.ata.queue.size ≠ ataRequestQueueCapacity ∧
        ∃ interrupt, ataServe env c (k.waited c interrupt) = .ok r k' := by
  by_cases hfull : k.ata.queue.size = ataRequestQueueCapacity
  · left
    rw [ataReadPoll_full env hc hfull] at h
    cases h
    exact ⟨hfull, rfl⟩
  · right
    rw [ataReadPoll_space env hc hfull] at h
    cases hpoll : (k.ata.submitted c).ataPollingUntilReady (k.answers.headD true) with
    | none =>
      rw [hpoll] at h
      cases h
    | some t =>
      rw [hpoll] at h
      obtain ⟨i, rfl⟩ := AtaSystem.polling_answered hpoll
      exact ⟨hfull, i, h⟩

section Waited
variable (hf : k.ata.queue.Fits ataRequestQueueCapacity)
  (hspace : k.ata.queue.size ≠ ataRequestQueueCapacity)
include hf hspace

theorem waited_queue (c : AtaCall) (interrupt : Bool) :
    (k.waited c interrupt).ata.queue.Fits ataRequestQueueCapacity ∧
    (k.waited c interrupt).ata.queue.toList ataRequestQueueCapacity =
      k.ata.queue.toList ataRequestQueueCapacity ++ [c.request] := by
  have hcap : k.ata.queue.size < ataRequestQueueCapacity := lt_of_le_of_ne hf.size hspace
  exact ⟨hf.push hcap c.request, CircularQueue.toList_push hcap c.request⟩

theorem polled_failed (hd : k.ata.answered c (k.answers.headD true) = .failed)
    (h : ataServe env c (k.waited c interrupt) = .ok r k') : k.Polled env c k' := by
  obtain ⟨ram, x, y, hcr3, rfl⟩ := ataServe_failed (k := k.waited c interrupt) hd h
  refine ⟨rfl, rfl, hcr3, ?_, fun hfull => absurd hfull hspace, fun _ hok => absurd hd hok⟩
  unfold AtaSystem.remaining
  rw [if_neg hspace, if_pos hd]
  exact (waited_queue hf hspace c interrupt).2

theorem polled_served (hd : k.ata.answered c (k.answers.headD true) ≠ .failed)
    (h : ataServe env c (k.waited c interrupt) = .ok r k') : k.Polled env c k' := by
  obtain ⟨hfits, hlist⟩ := waited_queue hf hspace c interrupt
  have hpos : 0 < (k.waited c interrupt).ata.queue.size := Nat.succ_pos _
  obtain ⟨ram, hstore, hcr3, rfl⟩ := ataServe_served (k := k.waited c interrupt) hd h
  refine ⟨rfl, rfl, hcr3, ?_, fun hfull => absurd hfull hspace,
    fun _ _ hown R W hdirect hW => ?_⟩
  · obtain ⟨d, stores, hserve, -⟩ := AtaSystem.serve_front env.disk env.floating c
      (s := (k.waited c interrupt).ata) hd
    show ((k.waited c interrupt).ata.serve env.disk env.floating c).queue.toList _ = _
    rw [hserve]
    refine (AtaSystem.serve_pops hfits hpos _).2.trans ?_
    unfold AtaSystem.remaining
    rw [if_neg hspace, if_neg hd, hlist]
  · -- every request in the queue is this one, the front one too
    have hfront : (k.waited c interrupt).ata.queue.front = c.request := by
      have hmem := front_mem hfits hpos
      rw [hlist] at hmem
      rcases List.mem_append.mp hmem with hpending | hlast
      · exact hown _ hpending
      · exact List.mem_singleton.mp hlast
    rw [AtaSystem.serve_stores env.disk env.floating hfront hd] at hstore
    obtain ⟨ram', hrun, hmem, -⟩ := Ram.storeAll_direct hdirect fun w hw =>
      hW (AtaRequest.copy_mem hw)
    cases hrun.symm.trans hstore
    exact hmem

end Waited

theorem ataReadPoll_polled {lba size : BitVec 32} {buffer : BitVec 64}
    (hf : k.ata.queue.Fits ataRequestQueueCapacity)
    (hc : c = ⟨k.current, lba.toNat, size.toInt, buffer⟩)
    (h : ataReadPoll env lba size buffer k = .ok r k') : k.Polled env c k' := by
  rcases ataReadPoll_cases hc h with ⟨hfull, rfl⟩ | ⟨hspace, interrupt, hserve⟩
  · exact ⟨rfl, rfl, rfl, (AtaSystem.remaining_eq_iff.mpr (Or.inl hfull)).symm, fun _ => rfl,
      fun hspace => absurd hfull hspace⟩
  · by_cases hd : k.ata.answered c (k.answers.headD true) = .failed
    · exact polled_failed hf hspace hd hserve
    · exact polled_served hf hspace hd hserve

end Read

end Amaterasu
