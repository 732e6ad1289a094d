import Amaterasu.Library.ByteMemory

/-! Registers and stack of an x86-64 processor: pushes leave words that pops take back, and an
interrupt frame restores what the interrupt found. -/

namespace Cpu
open Function

inductive Reg
  | rax | rbx | rcx | rdx | rbp | rsi | rdi
  | r8 | r9 | r10 | r11 | r12 | r13 | r14 | r15
  | rsp
deriving DecidableEq, Repr

/-- What a program sees of the processor, its memory apart. -/
@[ext]
structure Context where
  reg : Reg → BitVec 64
  rip : BitVec 64
  cs : BitVec 64
  rflags : BitVec 64
  ss : BitVec 64

/-- `rsp0` is the stack that the task state segment names for interrupts of user code. -/
structure State extends Context where
  cr3 : BitVec 64
  rsp0 : BitVec 64
  mem : ByteMemory

namespace State

def setReg (s : State) (r : Reg) (v : BitVec 64) : State := { s with reg := update s.reg r v }

def sp (s : State) : Nat := (s.reg .rsp).toNat

def push (s : State) (v : BitVec 64) : State :=
  let t := s.setReg .rsp (s.reg .rsp - 8)
  { t with mem := t.mem.writeWord t.sp v }

def pushAll (s : State) (vs : List (BitVec 64)) : State := vs.foldl push s

def pushRegs (s : State) (rs : List Reg) : State := rs.foldl (fun s r => s.push (s.reg r)) s

def popReg (s : State) (r : Reg) : State :=
  (s.setReg .rsp (s.reg .rsp + 8)).setReg r (s.mem.readWord s.sp)

def popRegs (s : State) (rs : List Reg) : State := rs.foldl popReg s

def ret (s : State) : State :=
  { s.setReg .rsp (s.reg .rsp + 8) with rip := s.mem.readWord s.sp }

/-- Where an interrupt of user code starts to push. -/
def top (s : State) : BitVec 64 := s.rsp0 &&& ~~~15

/-- An interrupt of user code. What the gate loads into `rip`, `cs`, `ss` and the flags is not
recorded. -/
def interrupt (s : State) : State :=
  (s.setReg .rsp s.top).pushAll [s.ss, s.reg .rsp, s.rflags, s.cs, s.rip]

/-- An interrupt that pushes from `top` on: interrupts of kernel code stay on the running stack. -/
def interruptAt (s : State) (top : BitVec 64) : State :=
  (s.setReg .rsp top).pushAll [s.ss, s.reg .rsp, s.rflags, s.cs, s.rip]

def iretq (s : State) : State :=
  { s.setReg .rsp (s.mem.readWord (s.sp + 24)) with
    rip := s.mem.readWord s.sp
    cs := s.mem.readWord (s.sp + 8)
    rflags := s.mem.readWord (s.sp + 16)
    ss := s.mem.readWord (s.sp + 32) }

/-- A call of compiled code that keeps `rsp` and the words from it up: the other registers and the
memory between `low` and the stack pointer may hold anything afterwards. -/
def call (s : State) (low : Nat) (junk : State) : State :=
  { s with
    reg := update junk.reg .rsp (s.reg .rsp)
    mem := fun x => if low ≤ x ∧ x < s.sp then junk.mem x else s.mem x }

section SetReg
variable {s : State} {r : Reg} {v : BitVec 64}

@[simp] theorem setReg_mem : (s.setReg r v).mem = s.mem := rfl
@[simp] theorem setReg_cr3 : (s.setReg r v).cr3 = s.cr3 := rfl
theorem sp_setReg (hr : r ≠ .rsp) : (s.setReg r v).sp = s.sp := by
  show (update s.reg r v .rsp).toNat = _
  rw [update_of_ne hr.symm]
  rfl

theorem sp_setReg_self : (s.setReg .rsp v).sp = v.toNat := by
  show (update s.reg .rsp v .rsp).toNat = _
  rw [update_self]

end SetReg

/-! ## Calls -/

section Call
variable {s : State} {low : Nat} {junk : State}

@[simp] theorem call_cr3 : (s.call low junk).cr3 = s.cr3 := rfl
@[simp] theorem sp_call : (s.call low junk).sp = s.sp := by
  show (update junk.reg .rsp (s.reg .rsp) .rsp).toNat = _
  rw [update_self]
  rfl

theorem call_mem {x : Nat} (h : x < low ∨ s.sp ≤ x) : (s.call low junk).mem x = s.mem x := by
  unfold call
  exact if_neg (by omega)

end Call
end State

/-! ## Words on a stack -/

/-- The words `ws` lie at `a`, the first one lowest. -/
def Words (m : ByteMemory) : Nat → List (BitVec 64) → Prop
  | _, [] => True
  | a, w :: ws => m.readWord a = w ∧ Words m (a + 8) ws

section Words
variable {m m' : ByteMemory} {a : Nat} {ws vs : List (BitVec 64)}

theorem words_append :
    Words m a (ws ++ vs) ↔ Words m a ws ∧ Words m (a + 8 * ws.length) vs := by
  induction ws generalizing a with
  | nil => simp [Words]
  | cons w ws ih =>
    have hlen : a + 8 + 8 * ws.length = a + 8 * (w :: ws).length := by
      rw [List.length_cons]
      omega
    simp only [List.cons_append, Words, ih, hlen, and_assoc]

theorem Words.congr (h : Words m a ws)
    (hm : ∀ x, a ≤ x → x < a + 8 * ws.length → m' x = m x) : Words m' a ws := by
  induction ws generalizing a with
  | nil => trivial
  | cons w ws ih =>
    rw [List.length_cons] at hm
    refine ⟨?_, ih h.2 fun x h1 h2 => hm x (by omega) (by omega)⟩
    rw [← h.1]
    apply ByteMemory.readWord_congr
    intro i hi
    exact hm _ (by omega) (by omega)

theorem Words.copy {b : Nat} (h : Words m a ws)
    (hm : ∀ i < 8 * ws.length, m' (b + i) = m (a + i)) : Words m' b ws := by
  induction ws generalizing a b with
  | nil => trivial
  | cons w ws ih =>
    rw [List.length_cons] at hm
    refine ⟨?_, ih h.2 fun i hi => ?_⟩
    · rw [← h.1]
      unfold ByteMemory.readWord
      have h0 : m' b = m a := hm 0 (by omega)
      rw [hm 7 (by omega), hm 6 (by omega), hm 5 (by omega), hm 4 (by omega), hm 3 (by omega),
        hm 2 (by omega), hm 1 (by omega), h0]
    · have hnext := hm (8 + i) (by omega)
      rwa [← Nat.add_assoc, ← Nat.add_assoc] at hnext

theorem Words.writeWord_head {v w : BitVec 64} (h : Words m a (w :: ws)) :
    Words (m.writeWord a v) a (v :: ws) :=
  ⟨ByteMemory.readWord_writeWord_self,
    h.2.congr fun _ h1 _ => ByteMemory.writeWord_outside (Or.inr h1)⟩

theorem writeWords_below {x : Nat} (h : x < a) : m.writeWords a ws x = m x := by
  induction ws generalizing m a with
  | nil => rfl
  | cons w ws ih =>
    show (m.writeWord a w).writeWords (a + 8) ws x = _
    rw [ih (by omega), ByteMemory.writeWord_outside (Or.inl h)]

theorem writeWords_words (m : ByteMemory) (a : Nat) (ws : List (BitVec 64)) :
    Words (m.writeWords a ws) a ws := by
  induction ws generalizing m a with
  | nil => trivial
  | cons w ws ih =>
    refine ⟨?_, ih _ _⟩
    show ((m.writeWord a w).writeWords (a + 8) ws).readWord a = w
    have hkeep : ((m.writeWord a w).writeWords (a + 8) ws).readWord a =
        (m.writeWord a w).readWord a := by
      apply ByteMemory.readWord_congr
      intro i hi
      exact writeWords_below (by omega)
    rw [hkeep]
    exact ByteMemory.readWord_writeWord_self

end Words

/-! ## Pushes -/

section Push
variable {s : State} {v : BitVec 64} {vs : List (BitVec 64)} {rs : List Reg}

theorem State.sp_push (h : 8 ≤ s.sp) : (s.push v).sp = s.sp - 8 := by
  show (update s.reg .rsp (s.reg .rsp - 8) .rsp).toNat = _
  rw [update_self]
  unfold State.sp at h ⊢
  bv_omega

theorem State.pushAll_sp (vs : List (BitVec 64)) (h : 8 * vs.length ≤ s.sp) :
    (s.pushAll vs).sp = s.sp - 8 * vs.length := by
  induction vs generalizing s with
  | nil => rfl
  | cons v vs ih =>
    rw [List.length_cons] at h ⊢
    have hv : (s.push v).sp = s.sp - 8 := State.sp_push (by omega)
    show ((s.push v).pushAll vs).sp = _
    rw [ih (by omega), hv]
    omega

/-- Only the words pushed are written. -/
theorem State.pushAll_mem (vs : List (BitVec 64)) (h : 8 * vs.length ≤ s.sp) {x : Nat}
    (hx : x < s.sp - 8 * vs.length ∨ s.sp ≤ x) : (s.pushAll vs).mem x = s.mem x := by
  induction vs generalizing s with
  | nil => rfl
  | cons v vs ih =>
    rw [List.length_cons] at h hx
    have hv : (s.push v).sp = s.sp - 8 := State.sp_push (by omega)
    show ((s.push v).pushAll vs).mem x = _
    rw [ih (by omega) (by omega)]
    show s.mem.writeWord (s.push v).sp v x = _
    exact ByteMemory.writeWord_outside (by omega)

theorem State.pushAll_words (vs : List (BitVec 64)) (h : 8 * vs.length ≤ s.sp) :
    Words (s.pushAll vs).mem (s.sp - 8 * vs.length) vs.reverse := by
  induction vs generalizing s with
  | nil => trivial
  | cons v vs ih =>
    rw [List.length_cons] at h ⊢
    have hv : (s.push v).sp = s.sp - 8 := State.sp_push (by omega)
    have hrest := ih (s := s.push v) (by omega)
    rw [hv] at hrest
    show Words ((s.push v).pushAll vs).mem _ _
    rw [List.reverse_cons, words_append, List.length_reverse]
    have hbase : s.sp - 8 * (vs.length + 1) = s.sp - 8 - 8 * vs.length := by omega
    have htop : s.sp - 8 * (vs.length + 1) + 8 * vs.length = (s.push v).sp := by omega
    rw [htop, hbase]
    -- the first word is pushed before the others, which lie below it
    refine ⟨hrest, ?_, trivial⟩
    have hkeep : ((s.push v).pushAll vs).mem.readWord (s.push v).sp =
        (s.push v).mem.readWord (s.push v).sp := by
      apply ByteMemory.readWord_congr
      intro i hi
      exact State.pushAll_mem vs (by omega) (by omega)
    rw [hkeep]
    exact ByteMemory.readWord_writeWord_self

theorem State.pushAll_reg {r : Reg} (hr : r ≠ .rsp) : (s.pushAll vs).reg r = s.reg r := by
  induction vs generalizing s with
  | nil => rfl
  | cons v vs ih =>
    show ((s.push v).pushAll vs).reg r = _
    rw [ih]
    exact update_of_ne hr _ _

theorem State.pushRegs_eq (h : Reg.rsp ∉ rs) : s.pushRegs rs = s.pushAll (rs.map s.reg) := by
  induction rs generalizing s with
  | nil => rfl
  | cons r rs ih =>
    rw [List.mem_cons, not_or] at h
    have hkeep : rs.map (s.push (s.reg r)).reg = rs.map s.reg := by
      apply List.map_congr_left
      intro q hq
      have hne : q ≠ .rsp := fun he => h.2 (he ▸ hq)
      exact update_of_ne hne _ _
    show (s.push (s.reg r)).pushRegs rs = _
    rw [ih h.2, hkeep]
    rfl

end Push

/-! ## Pops -/

section Pop
variable {s : State} {v : Reg → BitVec 64} {rs : List Reg}

theorem State.sp_popReg {r : Reg} (hr : r ≠ .rsp) (h : s.sp + 8 < 2 ^ 64) :
    (s.popReg r).sp = s.sp + 8 := by
  show (update (update s.reg .rsp (s.reg .rsp + 8)) r _ .rsp).toNat = _
  rw [update_of_ne hr.symm, update_self]
  unfold State.sp at h ⊢
  bv_omega

@[simp] theorem State.popReg_cr3 {r : Reg} : (s.popReg r).cr3 = s.cr3 := rfl
@[simp] theorem State.iretq_cr3 : s.iretq.cr3 = s.cr3 := rfl

theorem State.popRegs_mem : (s.popRegs rs).mem = s.mem := by
  induction rs generalizing s with
  | nil => rfl
  | cons r rs ih => exact ih (s := s.popReg r)

theorem State.popRegs_cr3 : (s.popRegs rs).cr3 = s.cr3 := by
  induction rs generalizing s with
  | nil => rfl
  | cons r rs ih => exact ih (s := s.popReg r)

theorem State.popRegs_sp (hsp : Reg.rsp ∉ rs) (h : s.sp + 8 * rs.length < 2 ^ 64) :
    (s.popRegs rs).sp = s.sp + 8 * rs.length := by
  induction rs generalizing s with
  | nil => rfl
  | cons r rs ih =>
    rw [List.mem_cons, not_or] at hsp
    rw [List.length_cons] at h ⊢
    have hr : (s.popReg r).sp = s.sp + 8 := State.sp_popReg (Ne.symm hsp.1) (by omega)
    show ((s.popReg r).popRegs rs).sp = _
    rw [ih hsp.2 (by omega), hr]
    omega

/-- Registers are loaded with the words on the stack, the others keep their values. -/
theorem State.popRegs_reg (hsp : Reg.rsp ∉ rs) (hn : rs.Nodup)
    (h : s.sp + 8 * rs.length < 2 ^ 64) (hw : Words s.mem s.sp (rs.map v)) {r : Reg}
    (hr : r ≠ .rsp) : (s.popRegs rs).reg r = if r ∈ rs then v r else s.reg r := by
  induction rs generalizing s with
  | nil => rfl
  | cons q rs ih =>
    rw [List.mem_cons, not_or] at hsp
    rw [List.length_cons] at h
    rw [List.nodup_cons] at hn
    have hq : (s.popReg q).sp = s.sp + 8 := State.sp_popReg (Ne.symm hsp.1) (by omega)
    have hrest := ih (s := s.popReg q) hsp.2 hn.2 (by omega) (by rw [hq]; exact hw.2)
    show ((s.popReg q).popRegs rs).reg r = _
    rw [hrest]
    by_cases hrq : r = q
    · rw [hrq, if_neg hn.1, if_pos List.mem_cons_self]
      exact (update_self ..).trans hw.1
    · have hpop : (s.popReg q).reg r = s.reg r := by
        show update (update s.reg .rsp _) q _ r = _
        rw [update_of_ne hrq, update_of_ne hr]
      rw [hpop]
      simp only [List.mem_cons, hrq, false_or]

end Pop

/-! ## Interrupt frames -/

/-- What an interrupt pushes, the last word first. -/
def Context.trap (c : Context) : List (BitVec 64) := [c.rip, c.cs, c.rflags, c.reg .rsp, c.ss]

section Frames
variable {s : State} {c : Context} {rs : List Reg}

theorem State.iretq_context (hw : Words s.mem s.sp c.trap) :
    s.iretq.toContext = { c with reg := update s.reg .rsp (c.reg .rsp) } := by
  obtain ⟨hrip, hcs, hrflags, hrsp, hss, -⟩ := hw
  unfold State.iretq State.setReg
  rw [hrip, hcs, hrflags, hrsp, hss]

/-- Pops and `iretq` bring back the saved registers, those that are not popped apart. -/
theorem State.leave_context (rs : List Reg) (hsp : Reg.rsp ∉ rs) (hn : rs.Nodup)
    (h : s.sp + 8 * rs.length < 2 ^ 64) (hw : Words s.mem s.sp (rs.map c.reg ++ c.trap)) :
    (s.popRegs rs).iretq.toContext =
      { c with reg := fun r => if r ∈ rs ∨ r = .rsp then c.reg r else s.reg r } := by
  obtain ⟨hregs, htrap⟩ := words_append.mp hw
  rw [List.length_map] at htrap
  rw [State.iretq_context (c := c)]
  · have hreg : update (s.popRegs rs).reg .rsp (c.reg .rsp) =
        fun r => if r ∈ rs ∨ r = .rsp then c.reg r else s.reg r := by
      funext r
      by_cases hr : r = .rsp
      · rw [hr, update_self, if_pos (Or.inr rfl)]
      · rw [update_of_ne hr, State.popRegs_reg hsp hn h hregs hr]
        simp only [hr, or_false]
    rw [hreg]
  · rw [State.popRegs_sp hsp h, State.popRegs_mem]
    exact htrap

/-- The frame that an interrupt and the pushes after it leave. -/
theorem State.enter_words (top : BitVec 64) (rs : List Reg) (hsp : Reg.rsp ∉ rs)
    (h : 8 * rs.length + 40 ≤ top.toNat) :
    ((s.interruptAt top).pushRegs rs).sp = top.toNat - (8 * rs.length + 40) ∧
    Words ((s.interruptAt top).pushRegs rs).mem ((s.interruptAt top).pushRegs rs).sp
      (rs.reverse.map s.reg ++ s.toContext.trap) ∧
    ∀ x, x < top.toNat - (8 * rs.length + 40) ∨ top.toNat ≤ x →
      ((s.interruptAt top).pushRegs rs).mem x = s.mem x := by
  let t := s.setReg .rsp top
  have ht : t.sp = top.toNat := by
    show (update s.reg .rsp top .rsp).toNat = _
    rw [update_self]
  have hregs : rs.map (s.interruptAt top).reg = rs.map s.reg := by
    apply List.map_congr_left
    intro r hr
    have hne : r ≠ .rsp := fun he => hsp (he ▸ hr)
    exact (State.pushAll_reg hne).trans (update_of_ne hne _ _)
  have hall : (s.interruptAt top).pushRegs rs =
      t.pushAll ([s.ss, s.reg .rsp, s.rflags, s.cs, s.rip] ++ rs.map s.reg) := by
    rw [State.pushRegs_eq hsp, hregs]
    unfold State.interruptAt State.pushAll
    rw [List.foldl_append]
  have hlen : 8 * ([s.ss, s.reg .rsp, s.rflags, s.cs, s.rip] ++ rs.map s.reg).length =
      8 * rs.length + 40 := by
    simp only [List.length_append, List.length_cons, List.length_nil, List.length_map]
    omega
  have hroom : 8 * ([s.ss, s.reg .rsp, s.rflags, s.cs, s.rip] ++ rs.map s.reg).length ≤ t.sp := by
    omega
  have hwords := State.pushAll_words _ hroom
  have hsp' := State.pushAll_sp _ hroom
  rw [← hall, ht, hlen] at hwords
  rw [← hall, ht, hlen] at hsp'
  refine ⟨hsp', ?_, fun x hx => ?_⟩
  · rw [hsp']
    rw [List.reverse_append, ← List.map_reverse] at hwords
    exact hwords
  · rw [hall]
    exact State.pushAll_mem _ hroom (by omega)

end Frames
end Cpu
