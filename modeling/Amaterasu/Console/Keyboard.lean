import Amaterasu.Console.Screen
import Amaterasu.Library.Runs

/-! `kbc.c`: the scan codes of the keyboard and what they put on the screen. -/

namespace Amaterasu
open Runs

def asciiESC : BitVec 8 := 0x1b

def asciiBS : BitVec 8 := 0x08

def asciiHT : BitVec 8 := 0x09

def keyCodeLShift : BitVec 8 := 0x2a

def keyCodeRShift : BitVec 8 := 0x36

def keyCodeLCtrl : BitVec 8 := 0x1d

def keyCodeLAlt : BitVec 8 := 0x38

def kbcStatusOBFMask : BitVec 8 := 0x1

def scanCode : List (BitVec 8) :=
  [0x00, asciiESC] ++ "1234567890-=".toList.map ascii ++ [asciiBS, asciiHT] ++
  "qwertyuiop[]\n".toList.map ascii ++ [0x00] ++ "asdfghjkl;\x27`".toList.map ascii ++
  [0x00] ++ "\\zxcvbnm,./".toList.map ascii ++ [0x00, 0x00, 0x00, ascii ' ']

def calcASCIICode (c isShift : BitVec 8) : BitVec 8 :=
  let shifted (s : Char) : BitVec 8 := if isShift ≠ 0 then ascii s else c
  if ascii 'a' ≤ c ∧ c ≤ ascii 'z' then
    if isShift ≠ 0 then c - ascii 'a' + ascii 'A' else c
  else match Char.ofNat c.toNat with
  | '1' => shifted '!'
  | '2' => shifted '@'
  | '3' => shifted '#'
  | '4' => shifted '$'
  | '5' => shifted '%'
  | '6' => shifted '^'
  | '7' => shifted '&'
  | '8' => shifted '*'
  | '9' => shifted '('
  | '0' => shifted ')'
  | '-' => shifted '_'
  | '=' => shifted '+'
  | '[' => shifted '\x7b'
  | ']' => shifted '\x7d'
  | '\n' => ascii '\n'
  | ';' => shifted ':'
  | '\x27' => if isShift ≠ 0 then ascii '\x27' else ascii '\x22'
  | '\x60' => shifted '~'
  | '\\' => shifted '|'
  | ',' => shifted '<'
  | '.' => shifted '>'
  | '/' => shifted '?'
  | _ => 0

/-- What the interrupt reads from the ports 0x64 and 0x60. -/
structure KBCPorts where
  status : BitVec 8
  data : BitVec 8

def KBCPorts.keyCode (p : KBCPorts) : BitVec 8 := p.data &&& 0x7f

def KBCPorts.isBrake (p : KBCPorts) : BitVec 8 := (p.data >>> 7) &&& 1

/-- `output` are the arguments of `putc` and `reads` the indices into `scanCode`. -/
structure Keyboard where
  isShift : BitVec 8
  output : List (BitVec 8)
  reads : List Nat

namespace Keyboard

def initial : Keyboard := ⟨0, [], []⟩

def putc (k : Keyboard) (c : BitVec 8) : Keyboard := { k with output := k.output ++ [c] }

/-- `after` are the bytes behind the table. -/
def readScanCode (after : Nat → BitVec 8) (k : Keyboard) (keyCode : BitVec 8) :
    BitVec 8 × Keyboard :=
  (scanCode.getD keyCode.toNat (after keyCode.toNat),
    { k with reads := k.reads ++ [keyCode.toNat] })

def doKBCInterrupt (after : Nat → BitVec 8) (k : Keyboard) (p : KBCPorts) : Keyboard :=
  if p.status &&& kbcStatusOBFMask = 0 then k
  else
    -- the table is read for every byte, also where the character is not used
    let r := k.readScanCode after p.keyCode
    if p.keyCode = keyCodeLShift ∨ p.keyCode = keyCodeRShift then
      { r.2 with isShift := if p.isBrake = 0 then 1 else 0 }
    else if p.keyCode = keyCodeLCtrl then r.2
    else if p.keyCode = keyCodeLAlt then r.2
    else if p.isBrake = 0 then
      let c := calcASCIICode r.1 k.isShift
      if c = ascii '\n' then (r.2.putc (ascii '\r')).putc (ascii '\n') else r.2.putc c
    else r.2

end Keyboard

/-! ## The keys -/

/-- What Shift makes of the character of a key. -/
def shiftPairs : List (Char × Char) :=
  "1234567890-=[];\x27`\\,./".toList.zip "!@#$%^&*()_+\x7b\x7d:\x22~|<>?".toList

def shiftOf (c : BitVec 8) : BitVec 8 :=
  if ascii 'a' ≤ c ∧ c ≤ ascii 'z' then c - 0x20
  else ((shiftPairs.find? fun pair => ascii pair.1 = c).map fun pair => ascii pair.2).getD c

/-- The text of a key, which the entry 0 of the table says it has not. Enter is written in two. -/
def keyText (keyCode : Nat) (shift : Bool) : Option (List (BitVec 8)) :=
  (scanCode[keyCode]?.filter (· ≠ 0)).map fun c =>
    if c = ascii '\n' then [ascii '\r', ascii '\n'] else [if shift then shiftOf c else c]

/-- The keys that do not print their text. -/
def misprinted : List Nat := [0x00, 0x01, 0x0e, 0x0f, 0x28, 0x37, 0x39]

def modifiers : List (BitVec 8) := [keyCodeLShift, keyCodeRShift, keyCodeLCtrl, keyCodeLAlt]

def typed (c isShift : BitVec 8) : List (BitVec 8) :=
  let c := calcASCIICode c isShift
  if c = ascii '\n' then [ascii '\r', ascii '\n'] else [c]

theorem keyText_eq_typed_iff : ∀ i < scanCode.length, (BitVec.ofNat 8 i) ∉ modifiers →
    ∀ shift : Bool, keyText i shift = some (typed (scanCode.getD i 0) (if shift then 1 else 0)) ↔
      i ∉ misprinted := by
  decide

/-! ## Runs -/

/-- The driver, and which of the two Shift keys are down. -/
structure Typing where
  keyboard : Keyboard
  left : Bool
  right : Bool

def KBCPorts.handled (p : KBCPorts) : Prop := p.status &&& kbcStatusOBFMask ≠ 0

instance (p : KBCPorts) : Decidable p.handled :=
  inferInstanceAs (Decidable (p.status &&& kbcStatusOBFMask ≠ 0))

def KBCPorts.make (p : KBCPorts) : Bool := p.isBrake = 0

namespace Typing

def initial : Typing := ⟨Keyboard.initial, false, false⟩

def shift (t : Typing) : Bool := t.left || t.right

/-- One interrupt, with the key moved that its byte names. -/
def interrupt (after : Nat → BitVec 8) (t : Typing) (p : KBCPorts) : Typing where
  keyboard := t.keyboard.doKBCInterrupt after p
  left := if p.handled ∧ p.keyCode = keyCodeLShift then p.make else t.left
  right := if p.handled ∧ p.keyCode = keyCodeRShift then p.make else t.right

def step (after : Nat → BitVec 8) (t : Typing) (p : KBCPorts) : Option Typing :=
  some (t.interrupt after p)

/-- What the byte of `p` does to `isShift`, to the screen and to the table. -/
structure Faithful (after : Nat → BitVec 8) (t : Typing) (p : KBCPorts) : Prop where
  isShift : (t.interrupt after p).keyboard.isShift = 1 ↔ (t.interrupt after p).shift = true
  output : ∃ text, (t.interrupt after p).keyboard.output = t.keyboard.output ++ text ∧
    (text ≠ [] → p.handled ∧ p.make = true ∧ p.keyCode ∉ modifiers ∧
      keyText p.keyCode.toNat t.shift = some text)
  reads : ∃ is, (t.interrupt after p).keyboard.reads = t.keyboard.reads ++ is ∧
    ∀ i ∈ is, i < scanCode.length

/-- The key has an entry, it prints its text if it is struck, and no Shift key is let go while the
other one is down. -/
def Plain (t : Typing) (p : KBCPorts) : Prop :=
  p.handled → p.keyCode.toNat < scanCode.length ∧
    (p.make = true → p.keyCode.toNat ∉ misprinted) ∧
    (p.make = false → (p.keyCode = keyCodeLShift → t.right = false) ∧
      (p.keyCode = keyCodeRShift → t.left = false))

instance : DecidableRel Plain := fun t p =>
  inferInstanceAs (Decidable (p.handled → p.keyCode.toNat < scanCode.length ∧
    (p.make = true → p.keyCode.toNat ∉ misprinted) ∧
    (p.make = false → (p.keyCode = keyCodeLShift → t.right = false) ∧
      (p.keyCode = keyCodeRShift → t.left = false))))

/-- `isShift` is the two keys in one. -/
def Agrees (t : Typing) : Prop := t.keyboard.isShift = if t.shift then 1 else 0

section Interrupt
variable {after : Nat → BitVec 8} {t : Typing} {p : KBCPorts}

theorem interrupt_of_not_handled (hp : ¬p.handled) : t.interrupt after p = t := by
  have hbusy : p.status &&& kbcStatusOBFMask = 0 := not_not.mp hp
  simp [interrupt, Keyboard.doKBCInterrupt, hbusy, hp]

/-- The read that every handled byte makes. -/
theorem reads_interrupt (hp : p.handled) :
    (t.interrupt after p).keyboard.reads = t.keyboard.reads ++ [p.keyCode.toNat] := by
  unfold interrupt Keyboard.doKBCInterrupt
  rw [if_neg hp]
  dsimp only
  split_ifs <;> rfl

/-- A modifier key prints nothing, and a Shift key sets `isShift`. -/
theorem interrupt_of_modifier (hp : p.handled) (hkey : p.keyCode ∈ modifiers) :
    (t.interrupt after p).keyboard.output = t.keyboard.output ∧
      (t.interrupt after p).keyboard.isShift =
        if p.keyCode = keyCodeLShift ∨ p.keyCode = keyCodeRShift then
          (if p.make = true then 1 else 0) else t.keyboard.isShift := by
  unfold interrupt Keyboard.doKBCInterrupt
  rw [if_neg hp]
  dsimp only
  by_cases hshift : p.keyCode = keyCodeLShift ∨ p.keyCode = keyCodeRShift
  · rw [if_pos hshift, if_pos hshift]
    simp [Keyboard.readScanCode, KBCPorts.make]
  · rw [if_neg hshift, if_neg hshift]
    simp only [modifiers, List.mem_cons, List.not_mem_nil, or_false] at hkey
    obtain hl | hr | hctrl | halt := hkey
    · exact absurd (Or.inl hl) hshift
    · exact absurd (Or.inr hr) hshift
    · rw [if_pos hctrl]
      exact ⟨rfl, rfl⟩
    · rw [halt]
      exact ⟨rfl, rfl⟩

/-- Any other key prints when it is struck. -/
theorem interrupt_of_not_modifier (hp : p.handled) (hkey : p.keyCode ∉ modifiers) :
    (t.interrupt after p).keyboard.output = t.keyboard.output ++ (if p.make = true then
        typed (scanCode.getD p.keyCode.toNat (after p.keyCode.toNat)) t.keyboard.isShift else []) ∧
      (t.interrupt after p).keyboard.isShift = t.keyboard.isShift := by
  simp only [modifiers, List.mem_cons, List.not_mem_nil, or_false, not_or] at hkey
  obtain ⟨hl, hr, hctrl, halt⟩ := hkey
  have hbrake : p.isBrake = 0 ↔ p.make = true := decide_eq_true_iff.symm
  unfold interrupt Keyboard.doKBCInterrupt
  rw [if_neg hp, if_neg (not_or.mpr ⟨hl, hr⟩), if_neg hctrl, if_neg halt]
  by_cases hmake : p.make = true
  · rw [if_pos (hbrake.mpr hmake), if_pos hmake]
    dsimp only [Keyboard.readScanCode, typed, Keyboard.putc]
    split
    · exact ⟨List.append_assoc .., rfl⟩
    · exact ⟨rfl, rfl⟩
  · rw [if_neg (mt hbrake.mp hmake), if_neg hmake, List.append_nil]
    exact ⟨rfl, rfl⟩

theorem shift_interrupt_of_not_modifier (hkey : p.keyCode ∉ modifiers) :
    (t.interrupt after p).shift = t.shift := by
  simp only [modifiers, List.mem_cons, List.not_mem_nil, or_false, not_or] at hkey
  simp [interrupt, shift, hkey]

theorem Agrees.isShift_iff (h : Agrees t) : t.keyboard.isShift = 1 ↔ t.shift = true := by
  rw [h]
  cases t.shift <;> decide

theorem agrees_of_isShift (h01 : t.keyboard.isShift = 0 ∨ t.keyboard.isShift = 1)
    (h : t.keyboard.isShift = 1 ↔ t.shift = true) : Agrees t := by
  unfold Agrees
  obtain h0 | h1 := h01
  · rw [h0] at h ⊢
    rw [if_neg (fun hs => absurd (h.mpr hs) (by decide))]
  · rw [h1, if_pos (h.mp h1)]

theorem isShift_interrupt (h : Agrees t) :
    (t.interrupt after p).keyboard.isShift = 0 ∨ (t.interrupt after p).keyboard.isShift = 1 := by
  have hold : t.keyboard.isShift = 0 ∨ t.keyboard.isShift = 1 := by
    rw [h]
    cases t.shift
    · exact .inl rfl
    · exact .inr rfl
  by_cases hp : p.handled
  · by_cases hkey : p.keyCode ∈ modifiers
    · rw [(interrupt_of_modifier hp hkey).2]
      split_ifs
      · exact .inr rfl
      · exact .inl rfl
      · exact hold
    · rwa [(interrupt_of_not_modifier hp hkey).2]
  · rwa [interrupt_of_not_handled hp]

/-- A Shift key that is let go takes the other one with it. -/
theorem isShift_iff_of_modifier (h : Agrees t) (hp : p.handled) (hkey : p.keyCode ∈ modifiers) :
    ((t.interrupt after p).keyboard.isShift = 1 ↔ (t.interrupt after p).shift = true) ↔
      (p.make = false → (p.keyCode = keyCodeLShift → t.right = false) ∧
        (p.keyCode = keyCodeRShift → t.left = false)) := by
  rw [(interrupt_of_modifier hp hkey).2]
  have hne : keyCodeLShift ≠ keyCodeRShift := by decide
  by_cases hl : p.keyCode = keyCodeLShift
  · have hshift : (t.interrupt after p).shift = (p.make || t.right) := by
      simp [interrupt, shift, hp, hl, hne]
    rw [hshift, if_pos (.inl hl), hl]
    cases p.make <;> cases t.right <;> simp [hne]
  by_cases hr : p.keyCode = keyCodeRShift
  · have hshift : (t.interrupt after p).shift = (t.left || p.make) := by
      simp [interrupt, shift, hp, hr, hne.symm]
    rw [hshift, if_pos (.inr hr), hr]
    cases p.make <;> cases t.left <;> simp [hne.symm]
  · have hshift : (t.interrupt after p).shift = t.shift := by simp [interrupt, shift, hl, hr]
    rw [hshift, if_neg (not_or.mpr ⟨hl, hr⟩), h.isShift_iff]
    simp [hl, hr]

theorem faithful_iff_of_modifier (h : Agrees t) (hp : p.handled) (hkey : p.keyCode ∈ modifiers) :
    Faithful after t p ↔ Plain t p := by
  have htable : ∀ k ∈ modifiers, k.toNat < scanCode.length ∧ k.toNat ∉ misprinted := by decide
  obtain ⟨hlt, hprint⟩ := htable _ hkey
  constructor
  · intro hf hp
    exact ⟨hlt, fun _ => hprint, (isShift_iff_of_modifier h hp hkey).mp hf.isShift⟩
  · intro hplain
    refine ⟨(isShift_iff_of_modifier h hp hkey).mpr (hplain hp).2.2, ⟨[], ?_, ?_⟩, ?_⟩
    · rw [(interrupt_of_modifier hp hkey).1, List.append_nil]
    · exact fun hne => absurd rfl hne
    · exact ⟨_, reads_interrupt hp, by simpa using hlt⟩

theorem faithful_iff_of_not_modifier (h : Agrees t) (hp : p.handled)
    (hkey : p.keyCode ∉ modifiers) : Faithful after t p ↔ Plain t p := by
  obtain ⟨houtput, hisShift⟩ :=
    (interrupt_of_not_modifier hp hkey : (t.interrupt after p).keyboard.output = _ ∧ _)
  have htyped : p.keyCode.toNat < scanCode.length →
      (keyText p.keyCode.toNat t.shift = some (typed
        (scanCode.getD p.keyCode.toNat (after p.keyCode.toNat)) t.keyboard.isShift) ↔
          p.keyCode.toNat ∉ misprinted) := by
    intro hlt
    have hsub : BitVec.ofNat 8 p.keyCode.toNat = p.keyCode := BitVec.ofNat_toNat ..
    have hiff := keyText_eq_typed_iff _ hlt (hsub.symm ▸ hkey) t.shift
    rw [List.getD_eq_getElem?_getD, List.getElem?_eq_getElem hlt, Option.getD_some] at hiff ⊢
    rwa [h]
  constructor
  · intro hf _
    obtain ⟨is, his, hin⟩ := hf.reads
    have hlt : p.keyCode.toNat < scanCode.length := by
      apply hin
      rw [List.append_cancel_left (his.symm.trans (reads_interrupt hp))]
      exact List.mem_singleton_self _
    refine ⟨hlt, fun hmake => ?_, fun _ => ?_⟩
    · obtain ⟨text, htext, hprinted⟩ := hf.output
      rw [houtput, if_pos hmake] at htext
      obtain rfl := List.append_cancel_left htext
      apply (htyped hlt).mp
      apply (hprinted _).2.2.2
      unfold typed
      dsimp only
      split <;> exact List.cons_ne_nil _ _
    · constructor
      · rintro hl
        exact absurd (hl ▸ by decide) hkey
      · rintro hr
        exact absurd (hr ▸ by decide) hkey
  · intro hplain
    obtain ⟨hlt, hprint, -⟩ := hplain hp
    refine ⟨?_, ⟨_, houtput, fun hne => ?_⟩, _, reads_interrupt hp, by simpa using hlt⟩
    · rw [hisShift, shift_interrupt_of_not_modifier hkey]
      exact h.isShift_iff
    · by_cases hmake : p.make = true
      · rw [if_pos hmake]
        exact ⟨hp, hmake, hkey, (htyped hlt).mpr (hprint hmake)⟩
      · exact absurd (if_neg hmake) hne

theorem faithful_iff (h : Agrees t) : Faithful after t p ↔ Plain t p := by
  by_cases hp : p.handled
  · by_cases hkey : p.keyCode ∈ modifiers
    · exact faithful_iff_of_modifier h hp hkey
    · exact faithful_iff_of_not_modifier h hp hkey
  · refine ⟨fun _ hp' => absurd hp' hp, fun _ => ⟨?_, ⟨[], ?_, fun hne => absurd rfl hne⟩, [], ?_⟩⟩
    · rw [interrupt_of_not_handled hp]
      exact h.isShift_iff
    · rw [interrupt_of_not_handled hp, List.append_nil]
    · rw [interrupt_of_not_handled hp, List.append_nil]
      exact ⟨rfl, by simp⟩

theorem Agrees.interrupt (h : Agrees t) (hf : Faithful after t p) :
    Agrees (t.interrupt after p) :=
  agrees_of_isShift (isShift_interrupt h) hf.isShift

end Interrupt

/-- From the state of the driver at boot, a sequence of bytes is handled as the keys say exactly
when every byte of it is plain. -/
theorem along_faithful_iff (after : Nat → BitVec 8) (ports : List KBCPorts) :
    Along (step after) (Faithful after) initial ports ↔ Along (step after) Plain initial ports := by
  have hinitial : Agrees initial := by
    unfold Agrees
    rfl
  apply Along.iff _ hinitial
  intro s p hs
  refine ⟨faithful_iff hs, fun hf u hu => ?_⟩
  obtain rfl := Option.some.inj hu
  exact hs.interrupt hf

/-- Both Shift keys down, and the right one let go. -/
theorem released_shift_forgets_other :
    ¬Along (step fun _ => 0) (Faithful fun _ => 0) initial [⟨1, 0x2a⟩, ⟨1, 0x36⟩, ⟨1, 0xb6⟩] := by
  rintro ⟨-, hnext⟩
  obtain ⟨-, hnext⟩ := hnext _ rfl
  exact absurd (hnext _ rfl).1.isShift (by decide)

end Typing

end Amaterasu
