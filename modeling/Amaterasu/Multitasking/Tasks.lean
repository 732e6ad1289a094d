import Amaterasu.Multitasking.Frames
import Amaterasu.Multitasking.Switch

/-! The machine as processes that each have registers and two pages of their own and take turns:
what happens to one of them never shows in another. -/

namespace Amaterasu
open Cpu PageWalk Function Runs

/-- What a process has for itself. Its two pages are where the user's half of its address space
ends. `inCall` is whether it has slept in a system call. -/
structure Task where
  context : Context
  text : Nat → BitVec 8
  userStack : Nat → BitVec 8
  pid : BitVec 32
  state : ProcessState
  inCall : Bool

/-- To its caller, a system call that has slept is an instruction. -/
def CallResult.code (result : CallResult) : UserCode := fun c _ =>
  ({ c with reg := update c.reg .rax result.ret }, result.stores)

namespace Task

def load (t : Task) (la : BitVec 64) : Option (BitVec 8) :=
  if la.toNat / 2 ^ 12 = 2 ^ 52 - 2 then some (t.text (la.toNat % 2 ^ 12))
  else if la.toNat / 2 ^ 12 = 2 ^ 52 - 1 then some (t.userStack (la.toNat % 2 ^ 12))
  else none

def store (t : Task) (w : BitVec 64 × BitVec 8) : Task :=
  if w.1.toNat / 2 ^ 12 = 2 ^ 52 - 2 then
    { t with text := update t.text (w.1.toNat % 2 ^ 12) w.2 }
  else if w.1.toNat / 2 ^ 12 = 2 ^ 52 - 1 then
    { t with userStack := update t.userStack (w.1.toNat % 2 ^ 12) w.2 }
  else t

def execute (t : Task) (code : UserCode) : Task :=
  let r := code t.context t.load
  { r.2.foldl store t with context := r.1 }

def setRax (t : Task) (v : BitVec 64) : Task :=
  { t with context := { t.context with reg := update t.context.reg .rax v } }

def exec (t : Task) (entryPoint : BitVec 64) (image : Nat → BitVec 8) (size : Nat) : Task :=
  { t with
    context := execRegisters entryPoint
    text := fun i => if i < size then image i else t.text i }

end Task

namespace Task
variable (t : Task) (ws : List (BitVec 64 × BitVec 8)) (b : Bool)

theorem store_setCall (w : BitVec 64 × BitVec 8) :
    ({ t with inCall := b } : Task).store w = { t.store w with inCall := b } := by
  unfold store
  split_ifs <;> rfl

theorem stores_setCall : ws.foldl store ({ t with inCall := b } : Task) =
    { ws.foldl store t with inCall := b } := by
  induction ws generalizing t with
  | nil => rfl
  | cons w ws ih =>
    rw [List.foldl_cons, List.foldl_cons, store_setCall, ih]

theorem stores_inCall : (ws.foldl store t).inCall = t.inCall := by
  induction ws generalizing t with
  | nil => rfl
  | cons w ws ih =>
    rw [List.foldl_cons, ih]
    unfold store
    split_ifs <;> rfl

theorem execute_setCall (code : UserCode) :
    ({ t with inCall := b } : Task).execute code = { t.execute code with inCall := b } := by
  unfold execute
  dsimp only
  rw [stores_setCall]
  rfl

end Task

structure Tasks where
  task : Nat → Task
  created : List Nat
  current : Nat

namespace Tasks

def Runnable (x : Tasks) (p : Nat) : Prop := p ∈ x.created ∧ (x.task p).state = .running

instance (x : Tasks) : DecidablePred x.Runnable := fun p =>
  inferInstanceAs (Decidable (p ∈ x.created ∧ (x.task p).state = .running))

def set (x : Tasks) (p : Nat) (t : Task) : Tasks := { x with task := update x.task p t }

def own (x : Tasks) : Task := x.task x.current

/-- The next process goes on; a system call in which it has slept comes to its end. -/
def take (x : Tasks) (t : Turn) : Tasks :=
  let y := { x with current := t.next }
  if y.own.inCall then y.set t.next { y.own.execute t.result.code with inCall := false } else y

def step (x : Tasks) : MachineEvent → Option Tasks
  | .user code => some (x.set x.current (x.own.execute code))
  | .call ret _ => some (x.set x.current (x.own.setRax ret))
  | .exec entryPoint image size _ =>
    if size ≤ 4096 then some (x.set x.current (x.own.exec entryPoint image size)) else none
  | .fork child _ _ =>
    if child ∈ x.created then none
    else
      let pid := newProcessId x.own.pid
      let t := x.set x.current (x.own.setRax (pid.signExtend 64))
      some { t.set child { x.own.setRax 0 with pid := pid } with created := child :: x.created }
  | .interrupt none _ => some x
  | .interrupt (some p) _ =>
    if p ∈ x.created ∧ (x.task p).state = .sleep then
      some (x.set p { x.task p with state := .running })
    else none
  | .timer t => if x.Runnable t.next then some (x.take t) else none
  | .sleep t =>
    let y := x.set x.current { x.own with state := .sleep, inCall := true }
    if y.Runnable t.next then some (y.take t) else none
  | .exit t =>
    let y := x.set x.current { x.own with state := .zombie }
    if y.Runnable t.next then some (y.take t) else none

end Tasks

/-! ## One process in memory -/

/-- The bytes of the process are those of its frames. -/
structure Task.Holds (t : Task) (m : ByteMemory) (p : ProcessMemory) : Prop where
  text : ∀ i < 4096, m (p.textSegmentPageFrame.toNat + i) = t.text i
  userStack : ∀ i < 4096, m (p.userStackPageFrame.toNat + i) = t.userStack i

/-- The process is in memory, and its page table leads to it. -/
structure Resident (m : ByteMemory) (p : Process) (f : TableFrames) (t : Task) : Prop where
  root : p.processMemory.l4PageTableBase = f.l4
  described : Describes m f p.processMemory.textSegmentPageFrame p.processMemory.userStackPageFrame
  holds : t.Holds m p.processMemory
  below : (p.threadInfo.ring0rsp &&& ~~~15).toNat ≤
    p.processMemory.kernelStackPageFrame.toNat + 4096
  pid : p.pid = t.pid
  state : p.state = t.state

section Resident
variable {m m' : ByteMemory} {p : Process} {f : TableFrames} {t : Task} {la : BitVec 64}
  {v : BitVec 8}

/-- Its kernel stack is of no importance here. -/
theorem Resident.congr (h : Resident m p f t)
    (hm : ∀ a ∈ ownFrames p.processMemory f, ∀ i < 4096, m' (a.toNat + i) = m (a.toNat + i)) :
    Resident m' p f t where
  root := h.root
  described := by
    apply h.described.congr
    intro a ha x h1 h2
    obtain ⟨i, rfl⟩ := Nat.exists_eq_add_of_le h1
    exact hm a (List.mem_cons_of_mem _ (List.mem_cons_of_mem _ ha)) i (by omega)
  holds := ⟨fun i hi => (hm _ (List.mem_cons_of_mem _ List.mem_cons_self) i hi).trans
      (h.holds.text i hi),
    fun i hi => (hm _ List.mem_cons_self i hi).trans (h.holds.userStack i hi)⟩
  below := h.below
  pid := h.pid
  state := h.state

theorem Resident.userLoad_eq (h : Resident m p f t) :
    userLoad m p.processMemory.l4PageTableBase = t.load := by
  funext la
  have hoffset : la.toNat % 2 ^ 12 < 4096 := Nat.mod_lt _ (by decide)
  rw [h.root, h.described.userLoad_eq, h.holds.text _ hoffset, h.holds.userStack _ hoffset]
  rfl

/-- A store of user code goes to one of the two pages or nowhere. -/
theorem Describes.userStore_eq {text stack : BitVec 64} (h : Describes m f text stack) :
    userStore m f.l4 la v =
      if la.toNat / 2 ^ 12 = 2 ^ 52 - 2 then update m (text.toNat + la.toNat % 2 ^ 12) v
      else if la.toNat / 2 ^ 12 = 2 ^ 52 - 1 then update m (stack.toNat + la.toNat % 2 ^ 12) v
      else m := by
  unfold userStore
  rw [h.walk_eq]
  unfold addressSpace
  by_cases hlow : la.toNat < 5 * 2 ^ 30
  · rw [if_pos hlow, if_neg (by omega), if_neg (by omega)]
    rfl
  · rw [if_neg hlow]
    split_ifs <;> rfl

/-- A byte of one page is none of another one. -/
theorem update_frame_other {a b : BitVec 64} (ha : IsFrame a) (hb : IsFrame b) (hab : a ≠ b)
    {i j : Nat} (hi : i < 4096) (hj : j < 4096) :
    update m (b.toNat + j) v (a.toNat + i) = m (a.toNat + i) := by
  have hout := ha.outside hb hab hi
  unfold Outside at hout
  exact update_of_ne (by omega) _ _

theorem update_frame_self {a : BitVec 64} (i j : Nat) :
    update m (a.toNat + j) v (a.toNat + i) = update (fun k => m (a.toNat + k)) j v i := by
  by_cases hij : i = j
  · rw [hij, update_self, update_self]
  · rw [update_of_ne (by omega), update_of_ne hij]

/-- The frames of a process are frames, each of them once. -/
structure Framed (p : ProcessMemory) (f : TableFrames) : Prop where
  frame : ∀ a ∈ processFrames p f, IsFrame a
  nodup : (processFrames p f).Nodup

theorem Framed.ne {p : ProcessMemory} (h : Framed p f) :
    p.textSegmentPageFrame ≠ p.userStackPageFrame ∧
      (∀ a ∈ ownFrames p f, a ≠ p.kernelStackPageFrame) ∧
      ∀ a ∈ f.toList, a ≠ p.textSegmentPageFrame ∧ a ≠ p.userStackPageFrame := by
  have hn := h.nodup
  unfold processFrames at hn
  simp only [List.cons_append, List.nil_append, List.nodup_cons, List.mem_cons, not_or] at hn
  obtain ⟨⟨huk, hut, hu⟩, ⟨hkt, hk⟩, ht, -⟩ := hn
  refine ⟨Ne.symm hut, ?_, fun a ha => ⟨fun e => ht (e ▸ ha), fun e => hu (e ▸ ha)⟩⟩
  unfold ownFrames
  rw [List.forall_mem_cons, List.forall_mem_cons]
  exact ⟨huk, Ne.symm hkt, fun a ha e => hk (e ▸ ha)⟩

theorem Framed.own {p : ProcessMemory} (h : Framed p f) {a : BitVec 64}
    (ha : a ∈ ownFrames p f) : IsFrame a := by
  apply h.frame
  unfold ownFrames at ha
  unfold processFrames
  simp only [List.mem_cons, List.cons_append, List.nil_append] at ha ⊢
  tauto

theorem Resident.store (h : Resident m p f t) (hf : Framed p.processMemory f)
    (w : BitVec 64 × BitVec 8) :
    let m' := userStore m p.processMemory.l4PageTableBase w.1 w.2
    Resident m' p f (t.store w) ∧ ∀ x, Outside p.processMemory.textSegmentPageFrame x →
      Outside p.processMemory.userStackPageFrame x → m' x = m x := by
  intro m'
  obtain ⟨hne, -, htables⟩ := hf.ne
  have ht := hf.frame _ (textSegmentPageFrame_mem (f := f))
  have hu := hf.frame _ (userStackPageFrame_mem (f := f))
  have hroot : m' = userStore m f.l4 w.1 w.2 := by rw [← h.root]
  have hmem := hroot.trans h.described.userStore_eq
  have hoffset : w.1.toNat % 2 ^ 12 < 4096 := Nat.mod_lt _ (by decide)
  have hout : ∀ x, Outside p.processMemory.textSegmentPageFrame x →
      Outside p.processMemory.userStackPageFrame x → m' x = m x := by
    intro x hxt hxu
    rw [hroot]
    exact h.described.userStore_outside hxt hxu
  refine ⟨?_, hout⟩
  -- neither page is one of the tables
  have hdescribed : Describes m' f p.processMemory.textSegmentPageFrame
      p.processMemory.userStackPageFrame := by
    apply h.described.congr
    intro a ha x h1 h2
    obtain ⟨i, rfl⟩ := Nat.exists_eq_add_of_le h1
    have hframe := hf.frame a (List.mem_append_right _ ha)
    exact hout _ (hframe.outside ht (htables a ha).1 (by omega))
      (hframe.outside hu (htables a ha).2 (by omega))
  unfold Task.store
  split_ifs at hmem ⊢
  · refine ⟨h.root, hdescribed, ⟨fun i hi => ?_, fun i hi => ?_⟩, h.below, h.pid, h.state⟩
    · rw [hmem, update_frame_self, update_apply, h.holds.text i hi]
      exact (update_apply ..).symm
    · rw [hmem, update_frame_other hu ht hne.symm hi hoffset, h.holds.userStack i hi]
  · refine ⟨h.root, hdescribed, ⟨fun i hi => ?_, fun i hi => ?_⟩, h.below, h.pid, h.state⟩
    · rw [hmem, update_frame_other ht hu hne hi hoffset, h.holds.text i hi]
    · rw [hmem, update_frame_self, update_apply, h.holds.userStack i hi]
      exact (update_apply ..).symm
  · exact ⟨h.root, hdescribed, hmem ▸ h.holds, h.below, h.pid, h.state⟩

theorem Resident.stores (hf : Framed p.processMemory f) (ws : List (BitVec 64 × BitVec 8)) :
    ∀ {m : ByteMemory} {t : Task}, Resident m p f t →
      let m' := ws.foldl (fun m w => userStore m p.processMemory.l4PageTableBase w.1 w.2) m
      Resident m' p f (ws.foldl Task.store t) ∧
        ∀ x, Outside p.processMemory.textSegmentPageFrame x →
          Outside p.processMemory.userStackPageFrame x → m' x = m x := by
  induction ws with
  | nil => exact fun h => ⟨h, fun _ _ _ => rfl⟩
  | cons w ws ih =>
    intro m t h
    obtain ⟨hfirst, hmem⟩ := h.store hf w
    obtain ⟨hrest, hmem'⟩ := ih hfirst
    exact ⟨hrest, fun x ht hu => (hmem' x ht hu).trans (hmem x ht hu)⟩

end Resident
end Amaterasu
