import Amaterasu.Multitasking.Tasks

/-! The machine keeps every process as it is for itself: the frames of the processes are apart, one
of them runs, and the others are put away with their registers. -/

namespace Amaterasu
open Cpu PageWalk Function Runs Machine

def Machine.framesOf (s : Machine) (p : Nat) : List (BitVec 64) :=
  processFrames (s.process p).processMemory (s.tables p)

/-- No frame has two owners, and the allocator does not have it either. -/
structure Separate (s : Machine) : Prop where
  framed : ∀ p ∈ s.created, Framed (s.process p).processMemory (s.tables p)
  live : ∀ p ∈ s.created, ∀ a ∈ s.framesOf p, FrameSystem.frameBlock a ∈ s.frames.live
  apart : ∀ p ∈ s.created, ∀ q ∈ s.created, p ≠ q → ∀ a ∈ s.framesOf p, a ∉ s.framesOf q

/-- The machine is at `x`: the current process has the processor, the others have left it. -/
structure Represents (l : Link) (m : PageFrames) (s : Machine) (x : Tasks) : Prop where
  created : x.created = s.created
  current : x.current = s.currentProcess
  runnable : s.Runnable s.currentProcess
  tracks : ∃ q : Pool m.usable, s.frames.Tracks q
  separate : Separate s
  resident : ∀ p ∈ s.created, Resident s.cpu.mem (s.process p) (s.tables p) (x.task p)
  cr3 : s.cpu.cr3 = (s.process s.currentProcess).processMemory.l4PageTableBase
  top_le : s.cpu.top.toNat ≤ (s.kernelStack s.currentProcess).toNat + 4096
  context : s.cpu.toContext = (x.task s.currentProcess).context
  inCall : ∀ p ∈ s.created, s.inCall p = (x.task p).inCall
  idle : s.inCall s.currentProcess = false
  asleep : ∀ p ∈ s.created, (s.process p).state = .sleep → s.inCall p = true
  parked : ∀ p ∈ s.created, p ≠ s.currentProcess → (s.process p).state ≠ .zombie →
    Parked l s.cpu.mem (s.process p) (s.suspended p) (s.inCall p) (x.task p).context

section Separate
variable {s : Machine} {p q : Nat} {a b : BitVec 64} {i : Nat} {m' : ByteMemory}

theorem Separate.frame (h : Separate s) (hp : p ∈ s.created) (ha : a ∈ s.framesOf p) :
    IsFrame a := (h.framed p hp).frame a ha

theorem Separate.ne (h : Separate s) (hp : p ∈ s.created) (hq : q ∈ s.created) (hpq : p ≠ q)
    (ha : a ∈ s.framesOf p) (hb : b ∈ s.framesOf q) : a ≠ b := fun e =>
  h.apart p hp q hq hpq a ha (e ▸ hb)

theorem Separate.outside (h : Separate s) (hp : p ∈ s.created) (hq : q ∈ s.created) (hpq : p ≠ q)
    (ha : a ∈ s.framesOf p) (hb : b ∈ s.framesOf q) (hi : i < 4096) :
    Outside b (a.toNat + i) :=
  (h.frame hp ha).outside (h.frame hq hb) (h.ne hp hq hpq ha hb) hi

theorem kernelStack_mem_framesOf (s : Machine) (p : Nat) : s.kernelStack p ∈ s.framesOf p :=
  kernelStackPageFrame_mem

theorem own_mem_framesOf (ha : a ∈ ownFrames (s.process p).processMemory (s.tables p)) :
    a ∈ s.framesOf p := by
  unfold ownFrames at ha
  unfold framesOf processFrames
  simp only [List.mem_cons, List.cons_append, List.nil_append] at ha ⊢
  tauto

/-- What the user of a process reaches is on no kernel stack. -/
theorem Separate.own_outside (h : Separate s) (hp : p ∈ s.created) (hq : q ∈ s.created)
    (ha : a ∈ ownFrames (s.process p).processMemory (s.tables p)) (hi : i < 4096) :
    Outside (s.kernelStack q) (a.toNat + i) := by
  by_cases hpq : p = q
  · subst hpq
    exact ((h.framed p hp).own ha).outside (h.frame hp (kernelStack_mem_framesOf s p))
      ((h.framed p hp).ne.2.1 a ha) hi
  · exact h.outside hp hq hpq (own_mem_framesOf ha) (kernelStack_mem_framesOf s q) hi

theorem Separate.stack_outside (h : Separate s) (hp : p ∈ s.created) (hq : q ∈ s.created)
    (hpq : p ≠ q) (hi : i < 4096) : Outside (s.kernelStack q) ((s.kernelStack p).toNat + i) :=
  h.outside hp hq hpq (kernelStack_mem_framesOf s p) (kernelStack_mem_framesOf s q) hi

end Separate

section Represents
variable {l : Link} {m : PageFrames} {s : Machine} {x : Tasks} {p q : Nat} {m' : ByteMemory}

theorem Represents.memCurrent (h : Represents l m s x) : s.currentProcess ∈ s.created :=
  h.runnable.1

theorem Represents.own_eq (h : Represents l m s x) : x.own = x.task s.currentProcess := by
  unfold Tasks.own
  rw [h.current]

theorem Represents.frame (h : Represents l m s x) : IsFrame (s.kernelStack s.currentProcess) :=
  h.separate.frame h.memCurrent (kernelStack_mem_framesOf s _)

theorem Represents.userMode (h : Represents l m s x)
    (hroom : (s.kernelStack s.currentProcess).toNat + 160 ≤ s.cpu.top.toNat) :
    UserMode (s.process s.currentProcess).processMemory (s.tables s.currentProcess) s.cpu where
  root := (h.resident _ h.memCurrent).root
  tables := (h.resident _ h.memCurrent).described
  above := hroom
  below := h.top_le

/-- When nothing but kernel stacks is written, every process stays where it is. -/
theorem Represents.resident_kept (h : Represents l m s x) {qs : List Nat}
    (hqs : ∀ q ∈ qs, q ∈ s.created)
    (hm : ∀ y, (∀ q ∈ qs, Outside (s.kernelStack q) y) → m' y = s.cpu.mem y)
    (hp : p ∈ s.created) : Resident m' (s.process p) (s.tables p) (x.task p) := by
  apply (h.resident p hp).congr
  intro a ha i hi
  exact hm _ fun q hq => h.separate.own_outside hp (hqs q hq) ha hi

theorem Parked.kept {c : Context} {t : Process} {saved : State} {inCall : Bool}
    {m : ByteMemory} (h : Parked l m t saved inCall c)
    (hm : ∀ i < 4096, m' (t.processMemory.kernelStackPageFrame.toNat + i) =
      m (t.processMemory.kernelStackPageFrame.toNat + i)) : Parked l m' t saved inCall c := by
  have hroom := h.room
  apply h.congr
  intro y h1 h2
  obtain ⟨i, rfl⟩ := Nat.exists_eq_add_of_le
    (show t.processMemory.kernelStackPageFrame.toNat ≤ y by omega)
  exact hm i (by omega)

/-- And the processes on other stacks stay put away. -/
theorem Represents.parked_kept (h : Represents l m s x) {qs : List Nat}
    (hqs : ∀ q ∈ qs, q ∈ s.created)
    (hm : ∀ y, (∀ q ∈ qs, Outside (s.kernelStack q) y) → m' y = s.cpu.mem y)
    (hp : p ∈ s.created) (hpqs : p ∉ qs) (hcur : p ≠ s.currentProcess)
    (hstate : (s.process p).state ≠ .zombie) :
    Parked l m' (s.process p) (s.suspended p) (s.inCall p) (x.task p).context := by
  apply (h.parked p hp hcur hstate).kept
  intro i hi
  apply hm
  intro q hq
  exact h.separate.stack_outside hp (hqs q hq) (fun e => hpqs (e ▸ hq)) hi

/-- A process keeps its place when only frames of another one are written. -/
theorem Represents.other_kept (h : Represents l m s x)
    (hm : ∀ a ∈ s.framesOf p, ∀ i < 4096, m' (a.toNat + i) = s.cpu.mem (a.toNat + i))
    (hp : p ∈ s.created) (hcur : p ≠ s.currentProcess) :
    Resident m' (s.process p) (s.tables p) (x.task p) ∧
      ((s.process p).state ≠ .zombie →
        Parked l m' (s.process p) (s.suspended p) (s.inCall p) (x.task p).context) := by
  constructor
  · exact (h.resident p hp).congr fun a ha => hm a (own_mem_framesOf ha)
  · intro hstate
    exact (h.parked p hp hcur hstate).kept (hm _ (kernelStack_mem_framesOf s p))

theorem Resident.setContext {p : Process} {f : TableFrames} {t : Task} (h : Resident m' p f t)
    (c : Context) : Resident m' p f { t with context := c } :=
  ⟨h.root, h.described, ⟨h.holds.text, h.holds.userStack⟩, h.below, h.pid, h.state⟩

theorem Resident.setCall {p : Process} {f : TableFrames} {t : Task} (h : Resident m' p f t)
    (b : Bool) : Resident m' p f { t with inCall := b } :=
  ⟨h.root, h.described, ⟨h.holds.text, h.holds.userStack⟩, h.below, h.pid, h.state⟩

/-- `Schedule` writes to `threadInfo` what no user sees. -/
theorem Resident.record {p p' : Process} {f : TableFrames} {t : Task} (h : Resident m' p f t)
    (hpm : p'.processMemory = p.processMemory)
    (hring : p'.threadInfo.ring0rsp = p.threadInfo.ring0rsp) (hpid : p'.pid = p.pid) :
    Resident m' p' f { t with state := p'.state } where
  root := hpm ▸ h.root
  described := hpm ▸ h.described
  holds := hpm ▸ ⟨h.holds.text, h.holds.userStack⟩
  below := by rw [hring, hpm]; exact h.below
  pid := hpid.trans h.pid
  state := rfl

theorem Parked.record {p p' : Process} {saved : State} {inCall : Bool} {c : Context}
    (h : Parked l m' p saved inCall c) (hpm : p'.processMemory = p.processMemory)
    (hinfo : p'.threadInfo = p.threadInfo) : Parked l m' p' saved inCall c := by
  cases h with
  | suspended hrip hroom hsuspended hframe hbelow =>
    rw [← hpm, ← hinfo] at hroom
    rw [← hinfo] at hrip hsuspended
    exact .suspended hrip hroom hsuspended hframe (hpm ▸ hbelow)
  | forked hrip hcall hroom hframe hbelow =>
    rw [← hpm, ← hinfo] at hroom hbelow
    rw [← hinfo] at hrip hframe
    exact .forked hrip hcall hroom hframe hbelow

theorem Separate.of_memory {s t : Machine} (h : Separate s) (hcreated : t.created = s.created)
    (hframes : t.frames = s.frames) (htables : t.tables = s.tables)
    (hpm : ∀ p, (t.process p).processMemory = (s.process p).processMemory) : Separate t := by
  have hof : t.framesOf = s.framesOf := by
    funext p
    unfold framesOf
    rw [hpm, htables]
  constructor
  · intro p hp
    rw [hpm, htables]
    exact h.framed p (hcreated ▸ hp)
  · rw [hof, hframes, hcreated]
    exact h.live
  · rw [hof, hcreated]
    exact h.apart

/-! ## One step -/

/-- What the current process does to itself, with a memory that the others do not see. -/
theorem Represents.setOwn (h : Represents l m s x) {t : State} {y : Task}
    (hres : Resident t.mem (s.process s.currentProcess) (s.tables s.currentProcess) y)
    (hcr3 : t.cr3 = s.cpu.cr3)
    (htop : t.top.toNat ≤ (s.kernelStack s.currentProcess).toNat + 4096)
    (hcontext : t.toContext = y.context) (hcall : y.inCall = false)
    (hother : ∀ p ∈ s.created, p ≠ s.currentProcess → ∀ a ∈ s.framesOf p, ∀ i < 4096,
      t.mem (a.toNat + i) = s.cpu.mem (a.toNat + i)) :
    Represents l m { s with cpu := t } (x.set x.current y) := by
  have hself : (x.set x.current y).task s.currentProcess = y := by
    rw [← h.current]
    exact update_self ..
  have hold : ∀ p ≠ s.currentProcess, (x.set x.current y).task p = x.task p := fun p hp =>
    update_of_ne (h.current ▸ hp) _ _
  constructor
  · exact h.created
  · exact h.current
  · exact h.runnable
  · exact h.tracks
  · exact h.separate.of_memory rfl rfl rfl fun _ => rfl
  · intro p hp
    by_cases hpc : p = s.currentProcess
    · subst hpc
      rw [hself]
      exact hres
    · rw [hold p hpc]
      exact (h.other_kept (hother p hp hpc) hp hpc).1
  · exact hcr3.trans h.cr3
  · exact htop
  · rw [hself]
    exact hcontext
  · intro p hp
    by_cases hpc : p = s.currentProcess
    · subst hpc
      rw [hself, hcall]
      exact h.idle
    · rw [hold p hpc]
      exact h.inCall p hp
  · exact h.idle
  · exact h.asleep
  · intro p hp hpc hstate
    rw [hold p hpc]
    exact (h.other_kept (hother p hp hpc) hp hpc).2 hstate

theorem Represents.own_inCall (h : Represents l m s x) : x.own.inCall = false := by
  rw [h.own_eq, ← h.inCall _ h.memCurrent, h.idle]

/-- Only its kernel stack is written. -/
theorem Represents.setCpu (h : Represents l m s x) {t : State} (hcr3 : t.cr3 = s.cpu.cr3)
    (hrsp0 : t.rsp0 = s.cpu.rsp0)
    (hm : ∀ y, Outside (s.kernelStack s.currentProcess) y → t.mem y = s.cpu.mem y) :
    Represents l m { s with cpu := t }
      (x.set x.current { x.own with context := t.toContext }) := by
  have hcur := h.memCurrent
  have htop : t.top = s.cpu.top := by
    unfold State.top
    rw [hrsp0]
  apply h.setOwn
  · rw [h.own_eq]
    apply Resident.setContext
    apply (h.resident _ hcur).congr
    intro a ha i hi
    exact hm _ (h.separate.own_outside hcur hcur ha hi)
  · exact hcr3
  · rw [htop]
    exact h.top_le
  · rfl
  · exact h.own_inCall
  · intro p hp hpc a ha i hi
    exact hm _ (h.separate.outside hp hcur hpc ha (kernelStack_mem_framesOf s _) hi)

theorem Tasks.set_own (x : Tasks) : x.set x.current x.own = x := by
  unfold Tasks.set Tasks.own
  rw [update_eq_self]

/-- A handler leaves to where the current process was interrupted. -/
theorem Represents.back (h : Represents l m s x) {u : State}
    (hu : Leaving (s.kernelStack s.currentProcess) s.cpu u s.cpu.toContext) :
    Represents l m { s with cpu := (popAllRegisters u).iretq } x := by
  obtain ⟨hcontext, hcr3, hrsp0, hmem⟩ := hu.returns h.frame
  have hset := h.setCpu hcr3 hrsp0 hmem
  have hown : ({ x.own with context := (popAllRegisters u).iretq.toContext } : Task) = x.own := by
    rw [hcontext, h.context, ← h.own_eq]
  rwa [hown, Tasks.set_own] at hset

/-- A system call that only returns a value. -/
theorem Represents.call (h : Represents l m s x) {ret : BitVec 64} {junk : State}
    (hroom : s.HasRoom l (.call ret junk)) :
    ∀ t ∈ s.step l (.call ret junk), ∃ y ∈ x.step (.call ret junk), Represents l m t y := by
  intro t ht
  obtain rfl := Option.some.inj ht
  refine ⟨_, rfl, ?_⟩
  have hk := h.frame.below
  let u := (syscallEnter s.cpu).call (s.kernelStack s.currentProcess).toNat junk
  have hu : Leaving (s.kernelStack s.currentProcess) s.cpu u s.cpu.toContext :=
    syscallEnter_leaving junk hroom h.top_le
  have hbelow := hu.below
  obtain ⟨hcr3, hrsp0, hmem⟩ := syscallLeave_frame ret u
  have hcontext : (syscallLeave ret u).toContext = _ := syscallLeave_context hu.frame (by omega)
  have hset := h.setCpu (hcr3.trans hu.cr3) (hrsp0.trans hu.rsp0)
    fun y hy => (congrFun hmem y).trans (hu.outside y hy)
  have hown : ({ x.own with context := (syscallLeave ret u).toContext } : Task) =
      x.own.setRax ret := by
    rw [hcontext, h.context, ← h.own_eq]
    rfl
  rwa [hown] at hset

theorem Represents.user (h : Represents l m s x) (code : UserCode) :
    ∀ t ∈ s.step l (.user code), ∃ y ∈ x.step (.user code), Represents l m t y := by
  intro t ht
  obtain rfl := Option.some.inj ht
  refine ⟨_, rfl, ?_⟩
  have hcur := h.memCurrent
  have hres := h.resident _ hcur
  have hcode : code s.cpu.toContext (userLoad s.cpu.mem s.cpu.cr3) =
      code (x.task s.currentProcess).context (x.task s.currentProcess).load := by
    rw [h.context, h.cr3, hres.userLoad_eq]
  rw [hcode, h.cr3]
  let r := code (x.task s.currentProcess).context (x.task s.currentProcess).load
  obtain ⟨hstored, hmem⟩ := hres.stores (h.separate.framed _ hcur) r.2
  apply h.setOwn
  · rw [h.own_eq]
    exact hstored.setContext r.1
  · rfl
  · exact h.top_le
  · rw [h.own_eq]
    rfl
  · exact (Task.stores_inCall _ _).trans h.own_inCall
  · intro p hp hne a ha i hi
    -- the two pages of the current process are not the others'
    exact hmem _ (h.separate.outside hp hcur hne ha textSegmentPageFrame_mem hi)
      (h.separate.outside hp hcur hne ha userStackPageFrame_mem hi)

/-- From the stores of the registers to `return_from_sys_exec`. -/
theorem returnFromSysExec_spec {t : State} {k rsp rsp0 : BitVec 64} {mem : ByteMemory}
    {c : Context} (junk : State) (hsp : t.sp = rsp.toNat) (hk : IsFrame k)
    (habove : k.toNat ≤ rsp.toNat) (hbelow : rsp.toNat + 160 ≤ k.toNat + 4096) :
    let u : State := { t with mem := mem.writeWords rsp.toNat (interruptStack c), rsp0 := rsp0 }
    let v := returnFromSysExec rsp (u.call k.toNat junk)
    v.toContext = c ∧ v.cr3 = t.cr3 ∧ v.rsp0 = rsp0 ∧ ∀ y, Outside k y → v.mem y = mem y := by
  intro u v
  have hlt := hk.below
  have hlen : 8 * (interruptStack c).length = 160 := rfl
  have hu : u.sp = rsp.toNat := hsp
  have hset : ((u.call k.toNat junk).setReg .rsp rsp).sp = rsp.toNat := State.sp_setReg_self
  obtain ⟨hcr3, hrsp0, hmem⟩ := popAllRegisters_iretq ((u.call k.toNat junk).setReg .rsp rsp)
  refine ⟨popAllRegisters_context ?_ (by rw [hset]; omega), hcr3, hrsp0, fun y hy => ?_⟩
  · rw [hset, State.setReg_mem]
    exact (writeWords_words mem rsp.toNat (interruptStack c)).congr fun y h1 _ =>
      State.call_mem (Or.inr (hu ▸ h1))
  · unfold Outside at hy
    calc v.mem y = (u.call k.toNat junk).mem y := congrFun hmem y
      _ = u.mem y := State.call_mem (by omega)
      _ = mem y := writeWords_outside (by omega)

/-- `sysExec` writes the text segment and the kernel stack. -/
theorem exec_spec (entryPoint : BitVec 64) (image : Nat → BitVec 8) (size : Nat) (junk : State)
    (hk : IsFrame (s.kernelStack s.currentProcess))
    (hroom : (s.kernelStack s.currentProcess).toNat + 192 ≤ s.cpu.top.toNat)
    (htop : s.cpu.top.toNat ≤ (s.kernelStack s.currentProcess).toNat + 4096) :
    let t := s.exec entryPoint image size junk
    let text := (s.process s.currentProcess).processMemory.textSegmentPageFrame.toNat
    t.toContext = execRegisters entryPoint ∧ t.cr3 = s.cpu.cr3 ∧
      t.rsp0 = s.kernelStack s.currentProcess - 8 + pageSize ∧
      ∀ y, Outside (s.kernelStack s.currentProcess) y →
        t.mem y = if text ≤ y ∧ y < text + size then image (y - text) else s.cpu.mem y := by
  have hu := syscallEnter_leaving junk hroom htop
  have habove := hu.above
  have hbelow := hu.below
  rw [State.sp_call] at habove hbelow
  obtain ⟨hcontext, hcr3, hrsp0, hmem⟩ := returnFromSysExec_spec
    (t := (syscallEnter s.cpu).call (s.kernelStack s.currentProcess).toNat junk)
    (c := execRegisters entryPoint) junk State.sp_call hk habove hbelow
  refine ⟨hcontext, hcr3, hrsp0, fun y hy => ?_⟩
  rw [← hu.outside y hy]
  exact hmem y hy

/-- `sysExec` replaces the text and the registers of the current process. -/
theorem Represents.exec (h : Represents l m s x) {entryPoint : BitVec 64} {image : Nat → BitVec 8}
    {size : Nat} {junk : State} (hroom : s.HasRoom l (.exec entryPoint image size junk)) :
    ∀ t ∈ s.step l (.exec entryPoint image size junk),
      ∃ y ∈ x.step (.exec entryPoint image size junk), Represents l m t y := by
  intro t ht
  simp only [Machine.step] at ht
  split_ifs at ht with hsize
  case neg => cases ht
  obtain rfl := Option.some.inj ht
  refine ⟨_, if_pos hsize, ?_⟩
  have hcur := h.memCurrent
  have hres := h.resident _ hcur
  have hframed := h.separate.framed _ hcur
  have htext := hframed.frame _ textSegmentPageFrame_mem
  obtain ⟨hne, -, htables⟩ := hframed.ne
  obtain ⟨hcontext, hcr3, hrsp0, hmem⟩ :=
    exec_spec entryPoint image size junk h.frame hroom h.top_le
  -- a byte of a frame other than the text segment and the kernel stack
  have hkept : ∀ a : BitVec 64, IsFrame a → a ≠ s.kernelStack s.currentProcess →
      a ≠ (s.process s.currentProcess).processMemory.textSegmentPageFrame → ∀ i < 4096,
      (s.exec entryPoint image size junk).mem (a.toNat + i) = s.cpu.mem (a.toNat + i) := by
    intro a ha hak hat i hi
    have hout := ha.outside htext hat hi
    unfold Outside at hout
    rw [hmem _ (ha.outside h.frame hak hi), if_neg (by omega)]
  have hownKept : ∀ a ∈ ownFrames (s.process s.currentProcess).processMemory
      (s.tables s.currentProcess), a ≠ s.kernelStack s.currentProcess := hframed.ne.2.1
  apply h.setOwn
  · rw [h.own_eq]
    refine ⟨hres.root, ?_, ⟨fun i hi => ?_, fun i hi => ?_⟩, hres.below, hres.pid, hres.state⟩
    · apply hres.described.congr
      intro a ha y h1 h2
      obtain ⟨i, rfl⟩ := Nat.exists_eq_add_of_le h1
      have hown : a ∈ ownFrames (s.process s.currentProcess).processMemory
          (s.tables s.currentProcess) := List.mem_cons_of_mem _ (List.mem_cons_of_mem _ ha)
      exact hkept a (hframed.own hown) (hownKept a hown) (htables a ha).1 i (by omega)
    · have hownText := hownKept _ (List.mem_cons_of_mem _ List.mem_cons_self)
      rw [hmem _ (htext.outside h.frame hownText hi)]
      show _ = if i < size then image i else _
      rw [Nat.add_sub_cancel_left, hres.holds.text i hi]
      exact if_congr (by omega) rfl rfl
    · rw [hkept _ (hframed.frame _ userStackPageFrame_mem) (hownKept _ List.mem_cons_self)
        hne.symm i hi]
      exact hres.holds.userStack i hi
  · exact hcr3
  · have hlt := h.frame.below
    have hmask : (s.kernelStack s.currentProcess - 8 + pageSize &&& ~~~15).toNat ≤
        (s.kernelStack s.currentProcess - 8 + pageSize).toNat := by
      rw [BitVec.toNat_and]
      exact Nat.and_le_left
    unfold State.top
    rw [hrsp0]
    unfold pageSize at hmask ⊢
    bv_omega
  · exact hcontext
  · exact h.own_inCall
  · intro p hp hpc a ha i hi
    exact hkept a (h.separate.frame hp ha)
      (h.separate.ne hp hcur hpc ha (kernelStack_mem_framesOf s _))
      (h.separate.ne hp hcur hpc ha textSegmentPageFrame_mem) i hi

/-- Another process is made `PROCESS_RUNNING` again. -/
theorem Represents.wake (h : Represents l m s x) (hp : p ∈ s.created) (hne : s.currentProcess ≠ p)
    (hsleep : (s.process p).state = .sleep) :
    Represents l m (s.setState p .running) (x.set p { x.task p with state := .running }) := by
  have hself : (s.setState p .running).process p = { s.process p with state := .running } :=
    update_self ..
  have hother : ∀ q ≠ p, (s.setState p .running).process q = s.process q := fun q hq =>
    update_of_ne hq _ _
  have hself' : (x.set p { x.task p with state := .running }).task p =
      { x.task p with state := .running } := update_self ..
  have hother' : ∀ q ≠ p, (x.set p { x.task p with state := .running }).task q = x.task q :=
    fun q hq => update_of_ne hq _ _
  have hpm : ∀ q, ((s.setState p .running).process q).processMemory =
      (s.process q).processMemory := by
    intro q
    by_cases hq : q = p
    · subst hq
      rw [hself]
    · rw [hother q hq]
  have hstack : (s.setState p .running).kernelStack = s.kernelStack := by
    funext q
    exact congrArg ProcessMemory.kernelStackPageFrame (hpm q)
  constructor
  · exact h.created
  · exact h.current
  · refine ⟨h.memCurrent, ?_⟩
    show ((s.setState p .running).process s.currentProcess).state = _
    rw [hother _ hne]
    exact h.runnable.2
  · exact h.tracks
  · exact h.separate.of_memory rfl rfl rfl hpm
  · intro q hq
    by_cases hqp : q = p
    · subst hqp
      rw [hself, hself']
      exact (h.resident q hq).record rfl rfl rfl
    · rw [hother q hqp, hother' q hqp]
      exact h.resident q hq
  · rw [hpm]
    exact h.cr3
  · rw [hstack]
    exact h.top_le
  · show s.cpu.toContext = ((x.set p { x.task p with state := .running }).task
      s.currentProcess).context
    rw [hother' _ hne]
    exact h.context
  · intro q hq
    by_cases hqp : q = p
    · subst hqp
      rw [hself']
      exact h.inCall q hq
    · rw [hother' q hqp]
      exact h.inCall q hq
  · exact h.idle
  · intro q hq
    by_cases hqp : q = p
    · subst hqp
      rw [hself]
      exact ProcessState.noConfusion
    · rw [hother q hqp]
      exact h.asleep q hq
  · intro q hq hqc
    by_cases hqp : q = p
    · subst hqp
      rw [hself, hself']
      intro _
      exact (h.parked q hq hqc (by rw [hsleep]; decide)).record rfl rfl
    · rw [hother q hqp, hother' q hqp]
      exact h.parked q hq hqc

/-- The keyboard or the disk interrupts the current process, and may wake another one. -/
theorem Represents.interrupt (h : Represents l m s x) {woken : Option Nat} {junk : State}
    (hroom : s.HasRoom l (.interrupt woken junk)) :
    ∀ t ∈ s.step l (.interrupt woken junk),
      ∃ y ∈ x.step (.interrupt woken junk), Represents l m t y := by
  intro t ht
  have hback := h.back (saveAllRegisters_leaving junk hroom h.top_le)
  cases woken with
  | none =>
    obtain rfl := Option.some.inj ht
    exact ⟨x, rfl, hback⟩
  | some p =>
    simp only [Machine.step] at ht
    split_ifs at ht with hp
    case neg => cases ht
    obtain rfl := Option.some.inj ht
    obtain ⟨hmem, hsleep⟩ := hp
    have hsleep' : p ∈ x.created ∧ (x.task p).state = .sleep :=
      ⟨h.created ▸ hmem, (h.resident p hmem).state.symm.trans hsleep⟩
    have hne : s.currentProcess ≠ p := by
      rintro rfl
      exact absurd (h.runnable.2.symm.trans hsleep) (by decide)
    exact ⟨_, if_pos hsleep', hback.wake hmem hne hsleep⟩

end Represents
end Amaterasu
