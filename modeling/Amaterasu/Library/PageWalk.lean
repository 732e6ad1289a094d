import Amaterasu.Library.ByteMemory

/-! The four-level page walk of x86-64. Level 3 is the table `cr3` points to, level 0 the one
whose entries are 4 KiB pages. Reserved bits are not looked at. -/

namespace PageWalk

/-- Bits 47 to 63 are equal. -/
def Canonical (la : BitVec 64) : Prop := la.toNat < 2 ^ 47 ∨ 2 ^ 64 - 2 ^ 47 ≤ la.toNat

instance (la : BitVec 64) : Decidable (Canonical la) :=
  inferInstanceAs (Decidable (la.toNat < 2 ^ 47 ∨ 2 ^ 64 - 2 ^ 47 ≤ la.toNat))

/-- The number of address bits below the index of a level. -/
def shift (level : Nat) : Nat := 12 + 9 * level

def index (la : BitVec 64) (level : Nat) : Nat := la.toNat / 2 ^ shift level % 512

def isPresent (e : BitVec 64) : Bool := e.getLsbD 0
def isWritable (e : BitVec 64) : Bool := e.getLsbD 1
def isUser (e : BitVec 64) : Bool := e.getLsbD 2
def isLarge (e : BitVec 64) : Bool := e.getLsbD 7

/-- The physical address in bits `k` to 51. -/
def frame (e : BitVec 64) (k : Nat) : Nat := e.toNat % 2 ^ 52 / 2 ^ k * 2 ^ k

/-- Where an address leads, and what every entry on the way permits. -/
structure Translation where
  address : Nat
  writable : Bool
  user : Bool
deriving DecidableEq

def leaf (e la : BitVec 64) (level : Nat) : Translation :=
  ⟨frame e (shift level) + la.toNat % 2 ^ shift level, isWritable e, isUser e⟩

def Translation.restrict (t : Translation) (e : BitVec 64) : Translation :=
  ⟨t.address, isWritable e && t.writable, isUser e && t.user⟩

def entry (m : ByteMemory) (table : Nat) (la : BitVec 64) (level : Nat) : BitVec 64 :=
  m.readWord (table + 8 * index la level)

def walkFrom (m : ByteMemory) (la : BitVec 64) : Nat → Nat → Option Translation
  | 0, table =>
    let e := entry m table la 0
    if isPresent e then some (leaf e la 0) else none
  | level + 1, table =>
    let e := entry m table la (level + 1)
    if isPresent e then
      if isLarge e && level < 2 then some (leaf e la (level + 1))
      else (walkFrom m la level (frame e 12)).map fun t => t.restrict e
    else none

def walk (m : ByteMemory) (cr3 la : BitVec 64) : Option Translation :=
  if Canonical la then walkFrom m la 3 (frame cr3 12) else none

/-- The tables that a walk goes on to from `table`, in order, when it takes the table that an entry
points to at `next` of the entry. -/
def nextTables (m : ByteMemory) (la : BitVec 64) (next : BitVec 64 → Nat) : Nat → Nat → List Nat
  | 0, _ => []
  | level + 1, table =>
    let e := entry m table la (level + 1)
    if isPresent e && !(isLarge e && level < 2) then
      next e :: nextTables m la next level (next e)
    else []

/-- The tables that the walk reads. -/
def walkTables (m : ByteMemory) (cr3 la : BitVec 64) : List Nat :=
  if Canonical la then
    frame cr3 12 :: nextTables m la (fun e => frame e 12) 3 (frame cr3 12)
  else []

/-- A byte that a user-mode load finds; `none` is a page fault. -/
def userLoad (m : ByteMemory) (cr3 la : BitVec 64) : Option (BitVec 8) :=
  (walk m cr3 la).bind fun t => if t.user then some (m t.address) else none

/-- The memory after a user-mode store, which is unchanged by a page fault. -/
def userStore (m : ByteMemory) (cr3 la : BitVec 64) (v : BitVec 8) : ByteMemory :=
  match walk m cr3 la with
  | some t => if t.user && t.writable then Function.update m t.address v else m
  | none => m

section Steps
variable {m : ByteMemory} {la : BitVec 64} {level table : Nat}

theorem walkFrom_absent (h : isPresent (entry m table la level) = false) :
    walkFrom m la level table = none := by
  cases level <;> simp [walkFrom, h]

theorem walkFrom_page (h : isPresent (entry m table la 0) = true) :
    walkFrom m la 0 table = some (leaf (entry m table la 0) la 0) := if_pos h

theorem walkFrom_large (h : isPresent (entry m table la (level + 1)) = true)
    (hs : isLarge (entry m table la (level + 1)) = true) (hl : level < 2) :
    walkFrom m la (level + 1) table = some (leaf (entry m table la (level + 1)) la (level + 1)) := by
  unfold walkFrom
  dsimp only
  rw [if_pos h, hs, decide_eq_true hl, Bool.and_self, if_pos rfl]

theorem walkFrom_table (h : isPresent (entry m table la (level + 1)) = true)
    (hs : (isLarge (entry m table la (level + 1)) && decide (level < 2)) = false) :
    walkFrom m la (level + 1) table =
      (walkFrom m la level (frame (entry m table la (level + 1)) 12)).map
        fun t => t.restrict (entry m table la (level + 1)) := by
  show (if _ then if _ then _ else _ else _) = _
  rw [if_pos h, hs, if_neg Bool.false_ne_true]

theorem nextTables_table {next : BitVec 64 → Nat}
    (h : isPresent (entry m table la (level + 1)) = true)
    (hs : (isLarge (entry m table la (level + 1)) && decide (level < 2)) = false) :
    nextTables m la next (level + 1) table =
      next (entry m table la (level + 1)) ::
        nextTables m la next level (next (entry m table la (level + 1))) := by
  show (if _ then _ else _) = _
  rw [h, hs, Bool.not_false, Bool.and_self, if_pos rfl]

/-- Two ways to take the tables that entries point to lead through the same tables just when they
agree on the entries of one of them. -/
theorem nextTables_eq_iff (next : BitVec 64 → Nat) (trunc : Nat → Nat) :
    nextTables m la (fun e => trunc (next e)) level table = nextTables m la next level table ↔
      ∀ t ∈ nextTables m la next level table, trunc t = t := by
  induction level generalizing table with
  | zero => simp [nextTables]
  | succ level ih =>
    unfold nextTables
    dsimp only
    split
    · rw [List.cons.injEq, List.forall_mem_cons]
      refine and_congr_right fun h => ?_
      rw [h]
      exact ih
    · simp

end Steps
end PageWalk
