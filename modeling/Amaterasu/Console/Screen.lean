import Mathlib.Data.BitVec
import Mathlib.Data.List.Basic

/-! `graphic.c`: characters on the frame buffer. -/

namespace Amaterasu

def ascii (c : Char) : BitVec 8 := BitVec.ofNat 8 c.toNat

def fontWidth : Nat := 8

def fontHeight : Nat := 10

/-- The initialisers of `fontBitMap` end with the one of the tilde. -/
def fontBitMapLength : Nat := (ascii '~').toNat + 1

def unum64StrLen : Nat := 16

structure Pixel where
  r : BitVec 8
  g : BitVec 8
  b : BitVec 8
deriving DecidableEq

def background : Pixel := ⟨0, 0, 255⟩

def foreground : Pixel := ⟨255, 255, 255⟩

structure FrameBuffer where
  horizontalResolution : BitVec 32
  verticalResolution : BitVec 32

/-- A call of `DrawPixel`. -/
structure Drawn where
  x : BitVec 32
  y : BitVec 32
  pixel : Pixel
deriving DecidableEq

/-- The element of the frame buffer it writes. The product is one of two `unsigned int`s. -/
def Drawn.index (d : Drawn) (fb : FrameBuffer) : Nat :=
  (fb.horizontalResolution * d.y).toNat + d.x.toNat

/-- `glyphs` are the indices into `fontBitMap`. -/
structure Screen where
  cursorX : BitVec 32
  cursorY : BitVec 32
  drawn : List Drawn
  glyphs : List Nat

namespace Screen

def setBackGround (fb : FrameBuffer) (s : Screen) : Screen :=
  { s with drawn := s.drawn ++ (List.range fb.horizontalResolution.toNat).flatMap fun x =>
      (List.range fb.verticalResolution.toNat).map fun y =>
        ⟨BitVec.ofNat 32 x, BitVec.ofNat 32 y, background⟩ }

def graphicInit (fb : FrameBuffer) (s : Screen) : Screen :=
  { s.setBackGround fb with cursorX := 0, cursorY := 0 }

-- whether a pixel of a glyph is set, in the table and in the bytes behind it
variable (fontBitMap : Nat → Nat → Nat → Bool)

def putc (s : Screen) (c : BitVec 8) : Screen :=
  if c = ascii '\n' then
    { s with cursorX := 0, cursorY := s.cursorY + BitVec.ofNat 32 fontHeight }
  else
    { s with
      drawn := s.drawn ++ (List.range fontWidth).flatMap fun x =>
        (List.range fontHeight).map fun y =>
          ⟨s.cursorX + BitVec.ofNat 32 x, s.cursorY + BitVec.ofNat 32 y,
            if fontBitMap c.toNat y x then foreground else background⟩
      glyphs := s.glyphs ++ [c.toNat]
      cursorX := s.cursorX + BitVec.ofNat 32 fontWidth }

/-- `str` are the bytes from the address on, of which the ones behind a NUL are not read. -/
def puts (s : Screen) : List (BitVec 8) → Screen
  | [] => s
  | c :: str => if c = 0 then s else puts (s.putc fontBitMap c) str

/-- The loop of `puth`: a 64-bit number has no more than 16 digits. -/
def puthLoop : Nat → BitVec 64 → Int → List (BitVec 8) → List (BitVec 8)
  | 0, _, _, str => str
  | fuel + 1, num, i, str =>
    if num = 0 then str
    else
      let remainder : BitVec 8 := (num &&& 0xf).setWidth 8
      let c := if 10 ≤ remainder then ascii 'A' + remainder - 10 else ascii '0' + remainder
      puthLoop fuel (num >>> 4) (i - 1) (str.set i.toNat c)

def puth (s : Screen) (num : BitVec 64) : Screen :=
  s.puts fontBitMap
    (puthLoop unum64StrLen num (unum64StrLen - 1) (List.replicate unum64StrLen (ascii '0')) ++ [0])

end Screen

/-- The calls of the console. A process makes the first one with `SYSCALL_PUT`. -/
inductive ConsoleCall
  | putc (c : BitVec 8)
  | puts (str : List (BitVec 8))
  | puth (num : BitVec 64)

def Screen.call (fontBitMap : Nat → Nat → Nat → Bool) (s : Screen) : ConsoleCall → Screen
  | .putc c => s.putc fontBitMap c
  | .puts str => s.puts fontBitMap str
  | .puth num => s.puth fontBitMap num

/-! ## The text of a call -/

def hexDigit (n : Nat) : BitVec 8 :=
  if n < 10 then BitVec.ofNat 8 (0x30 + n) else BitVec.ofNat 8 (0x37 + n)

/-- The last `k` digits, most significant first. -/
def hexDigits : Nat → Nat → List (BitVec 8)
  | 0, _ => []
  | k + 1, n => hexDigits k (n / 16) ++ [hexDigit (n % 16)]

def ConsoleCall.text : ConsoleCall → List (BitVec 8)
  | putc c => [c]
  | puts str => str.takeWhile (· ≠ 0)
  | puth num => hexDigits 16 num.toNat

/-- A line of text that fits in the width, at the row `i` of characters. `cursorY` wraps. -/
def LineFits (fb : FrameBuffer) (i : Nat) (line : List (BitVec 8)) : Prop :=
  line ≠ [] → fontWidth * line.length ≤ fb.horizontalResolution.toNat ∧
    fontHeight * i % 2 ^ 32 + fontHeight ≤ fb.verticalResolution.toNat ∧
    ∀ c ∈ line, c.toNat < fontBitMapLength

namespace Screen

/-- What is drawn is on the screen, with glyphs of the table. -/
structure OnScreen (fb : FrameBuffer) (s : Screen) : Prop where
  pixels : ∀ d ∈ s.drawn, d.x < fb.horizontalResolution ∧ d.y < fb.verticalResolution ∧
    d.index fb < fb.horizontalResolution.toNat * fb.verticalResolution.toNat
  glyphs : ∀ g ∈ s.glyphs, g < fontBitMapLength

section Calls
variable {fb : FrameBuffer} {fontBitMap : Nat → Nat → Nat → Bool} {s : Screen}
  {c : BitVec 8} {x y : BitVec 32} {row col : Nat}

theorem index_lt {d : Drawn} (hx : d.x < fb.horizontalResolution)
    (hy : d.y < fb.verticalResolution) :
    d.index fb < fb.horizontalResolution.toNat * fb.verticalResolution.toNat := by
  have hx' : d.x.toNat < fb.horizontalResolution.toNat := hx
  have hy' : d.y.toNat + 1 ≤ fb.verticalResolution.toNat := hy
  calc d.index fb
      = fb.horizontalResolution.toNat * d.y.toNat % 2 ^ 32 + d.x.toNat := by
        rw [Drawn.index, BitVec.toNat_mul]
    _ ≤ fb.horizontalResolution.toNat * d.y.toNat + d.x.toNat :=
        Nat.add_le_add_right (Nat.mod_le _ _) _
    _ < fb.horizontalResolution.toNat * d.y.toNat + fb.horizontalResolution.toNat :=
        Nat.add_lt_add_left hx' _
    _ = fb.horizontalResolution.toNat * (d.y.toNat + 1) := rfl
    _ ≤ fb.horizontalResolution.toNat * fb.verticalResolution.toNat := Nat.mul_le_mul_left _ hy'

theorem onScreen_append {drawn : List Drawn} {glyphs : List Nat} :
    OnScreen fb ⟨x, y, s.drawn ++ drawn, s.glyphs ++ glyphs⟩ ↔ OnScreen fb s ∧
      (∀ d ∈ drawn, d.x < fb.horizontalResolution ∧ d.y < fb.verticalResolution) ∧
      ∀ g ∈ glyphs, g < fontBitMapLength := by
  constructor
  · rintro ⟨hpixels, hglyphs⟩
    refine ⟨⟨?_, ?_⟩, ?_, ?_⟩
    · exact fun d hd => hpixels d (List.mem_append_left _ hd)
    · exact fun g hg => hglyphs g (List.mem_append_left _ hg)
    · intro d hd
      have := hpixels d (List.mem_append_right _ hd)
      exact ⟨this.1, this.2.1⟩
    · exact fun g hg => hglyphs g (List.mem_append_right _ hg)
  · rintro ⟨h, hdrawn, hglyph⟩
    constructor
    · intro d hd
      obtain hd | hd := List.mem_append.mp hd
      · exact h.pixels d hd
      · obtain ⟨hx, hy⟩ := hdrawn d hd
        exact ⟨hx, hy, index_lt hx hy⟩
    · intro g hg
      obtain hg | hg := List.mem_append.mp hg
      · exact h.glyphs g hg
      · exact hglyph g hg

theorem graphicInit_onScreen (h : OnScreen fb s) : OnScreen fb (s.graphicInit fb) := by
  have hglyphs : s.glyphs = s.glyphs ++ [] := (List.append_nil _).symm
  unfold graphicInit setBackGround
  rw [hglyphs]
  apply onScreen_append.mpr
  refine ⟨h, ?_, fun g hg => absurd hg List.not_mem_nil⟩
  intro d hd
  obtain ⟨x, hx, hd⟩ := List.mem_flatMap.mp hd
  obtain ⟨y, hy, rfl⟩ := List.mem_map.mp hd
  rw [List.mem_range] at hx hy
  simp only [BitVec.lt_def, BitVec.toNat_ofNat]
  exact ⟨(Nat.mod_le _ _).trans_lt hx, (Nat.mod_le _ _).trans_lt hy⟩

/-- A span of a cursor stays below a resolution exactly when its end does. -/
theorem span_lt_iff {cursor bound : BitVec 32} {len : Nat} (hlen : 0 < len) (hle : len < 2 ^ 31) :
    (∀ i < len, cursor + BitVec.ofNat 32 i < bound) ↔ cursor.toNat + len ≤ bound.toNat := by
  simp only [BitVec.lt_def, BitVec.toNat_add, BitVec.toNat_ofNat]
  have hc := cursor.isLt
  have hb := bound.isLt
  constructor
  · intro h
    by_contra hlt
    rcases Nat.lt_or_ge cursor.toNat bound.toNat with hin | hout
    · have := h (bound.toNat - cursor.toNat) (by omega)
      omega
    · have := h 0 hlen
      omega
  · intro h i hi
    omega

theorem onScreen_putc (hc : c ≠ ascii '\n') : OnScreen fb (s.putc fontBitMap c) ↔
    OnScreen fb s ∧ s.cursorX.toNat + fontWidth ≤ fb.horizontalResolution.toNat ∧
      s.cursorY.toNat + fontHeight ≤ fb.verticalResolution.toNat ∧
      c.toNat < fontBitMapLength := by
  rw [putc, if_neg hc, onScreen_append, ← span_lt_iff (by decide) (by decide),
    ← span_lt_iff (by decide) (by decide)]
  simp only [List.mem_flatMap, List.mem_map, List.mem_range, List.mem_singleton, forall_eq]
  apply and_congr_right'
  constructor
  · rintro ⟨h, hglyph⟩
    refine ⟨fun i hi => ?_, fun j hj => ?_, hglyph⟩
    · exact (h _ ⟨i, hi, 0, by decide, rfl⟩).1
    · exact (h _ ⟨0, by decide, j, hj, rfl⟩).2
  · rintro ⟨hx, hy, hglyph⟩
    refine ⟨?_, hglyph⟩
    rintro d ⟨x, hxw, y, hyh, rfl⟩
    exact ⟨hx x hxw, hy y hyh⟩

/-! ## Lines of text -/

/-- The rest of a line, behind `col` characters. -/
def RestFits (fb : FrameBuffer) (i col : Nat) (line : List (BitVec 8)) : Prop :=
  line ≠ [] → fontWidth * (col + line.length) ≤ fb.horizontalResolution.toNat ∧
    fontHeight * i % 2 ^ 32 + fontHeight ≤ fb.verticalResolution.toNat ∧
    ∀ c ∈ line, c.toNat < fontBitMapLength

def LinesFit (fb : FrameBuffer) : Nat → Nat → List (List (BitVec 8)) → Prop
  | _, _, [] => True
  | i, col, line :: lines => RestFits fb i col line ∧ LinesFit fb (i + 1) 0 lines

theorem restFits_cons {line : List (BitVec 8)} : RestFits fb row col (c :: line) ↔
    (fontWidth * col + fontWidth ≤ fb.horizontalResolution.toNat ∧
      fontHeight * row % 2 ^ 32 + fontHeight ≤ fb.verticalResolution.toNat ∧
      c.toNat < fontBitMapLength) ∧ RestFits fb row (col + 1) line := by
  have hlen : col + (c :: line).length = col + 1 + line.length := by
    rw [List.length_cons, Nat.add_comm line.length, Nat.add_assoc]
  unfold RestFits
  rw [hlen, List.forall_mem_cons]
  unfold fontWidth
  cases line with
  | nil => simp [Nat.mul_add]
  | cons d line =>
    simp only [ne_eq, reduceCtorEq, not_false_eq_true, forall_const]
    constructor
    · rintro ⟨hwidth, hheight, hglyph, hglyphs⟩
      exact ⟨⟨by omega, hheight, hglyph⟩, hwidth, hheight, hglyphs⟩
    · rintro ⟨⟨-, -, hglyph⟩, hwidth, hheight, hglyphs⟩
      exact ⟨hwidth, hheight, hglyph, hglyphs⟩

theorem linesFit_iff {lines : List (List (BitVec 8))} : LinesFit fb row 0 lines ↔
    ∀ i line, lines[i]? = some line → LineFits fb (row + i) line := by
  induction lines generalizing row with
  | nil => simp [LinesFit]
  | cons line lines ih =>
    have hfits : RestFits fb row 0 line ↔ LineFits fb row line := by
      unfold RestFits LineFits
      rw [Nat.zero_add]
    rw [LinesFit, ih, hfits]
    constructor
    · rintro ⟨hline, hlines⟩ i l hl
      cases i with
      | zero =>
        obtain rfl := Option.some.inj hl
        exact hline
      | succ i => exact Nat.add_right_comm row i 1 ▸ hlines i l hl
    · intro h
      refine ⟨h 0 line rfl, fun i l hl => ?_⟩
      exact Nat.add_right_comm row i 1 ▸ h (i + 1) l hl

/-- The cursor is at a character of the grid. -/
structure At (fb : FrameBuffer) (row col : Nat) (s : Screen) : Prop where
  x : s.cursorX = BitVec.ofNat 32 (fontWidth * col)
  y : s.cursorY = BitVec.ofNat 32 (fontHeight * row)
  inside : OnScreen fb s → fontWidth * col ≤ fb.horizontalResolution.toNat

theorem At.newline (h : At fb row col s) : At fb (row + 1) 0 (s.putc fontBitMap (ascii '\n')) := by
  refine ⟨rfl, ?_, fun _ => Nat.zero_le _⟩
  rw [putc, if_pos rfl, h.y, ← BitVec.ofNat_add]
  rfl

theorem newline_onScreen : OnScreen fb (s.putc fontBitMap (ascii '\n')) ↔ OnScreen fb s := by
  rw [putc, if_pos rfl]
  constructor
  · exact fun h => ⟨h.pixels, h.glyphs⟩
  · exact fun h => ⟨h.pixels, h.glyphs⟩

theorem At.glyph_onScreen (h : At fb row col s) (hc : c ≠ ascii '\n') :
    OnScreen fb (s.putc fontBitMap c) ↔ OnScreen fb s ∧
      fontWidth * col + fontWidth ≤ fb.horizontalResolution.toNat ∧
      fontHeight * row % 2 ^ 32 + fontHeight ≤ fb.verticalResolution.toNat ∧
      c.toNat < fontBitMapLength := by
  rw [onScreen_putc hc, h.x, h.y, BitVec.toNat_ofNat, BitVec.toNat_ofNat]
  apply and_congr_right
  intro hs
  -- a line that is on the screen so far is too short to wrap
  have hlt : fontWidth * col < 2 ^ 32 := (h.inside hs).trans_lt (BitVec.isLt _)
  rw [Nat.mod_eq_of_lt hlt]

theorem At.glyph (h : At fb row col s) (hc : c ≠ ascii '\n') :
    At fb row (col + 1) (s.putc fontBitMap c) := by
  refine ⟨?_, ?_, fun hs => ((h.glyph_onScreen hc).mp hs).2.1⟩
  · rw [putc, if_neg hc, h.x, ← BitVec.ofNat_add]
    rfl
  · rw [putc, if_neg hc, h.y]

/-- What is written stays on the screen exactly when every line fits. -/
theorem At.foldl_onScreen {text : List (BitVec 8)} (h : At fb row col s) :
    OnScreen fb (text.foldl (putc fontBitMap) s) ↔
      OnScreen fb s ∧ LinesFit fb row col (text.splitOn (ascii '\n')) := by
  induction text generalizing s row col with
  | nil => simp [LinesFit, RestFits]
  | cons c text ih =>
    rw [List.foldl_cons, List.splitOn_cons_eq_if_modifyHead]
    by_cases hc : c = ascii '\n'
    · subst hc
      rw [ih h.newline, newline_onScreen, if_pos (beq_self_eq_true _)]
      simp [LinesFit, RestFits]
    · obtain ⟨line, lines, hlines⟩ :=
        List.exists_cons_of_ne_nil (List.splitOn_ne_nil (ascii '\n') text)
      rw [ih (h.glyph hc), h.glyph_onScreen hc, if_neg (by simpa using hc), hlines,
        List.modifyHead_cons, LinesFit, LinesFit, restFits_cons]
      simp only [and_assoc]

/-! ## Calls -/

theorem puts_eq (str : List (BitVec 8)) :
    s.puts fontBitMap str = (str.takeWhile (· ≠ 0)).foldl (putc fontBitMap) s := by
  induction str generalizing s with
  | nil => rfl
  | cons c str ih =>
    rw [puts]
    split_ifs with hc
    · rw [hc]
      rfl
    · have htake : (c :: str).takeWhile (· ≠ 0) = c :: str.takeWhile (· ≠ 0) :=
        List.takeWhile_cons_of_pos (decide_eq_true hc)
      rw [ih, htake, List.foldl_cons]

theorem hexDigit_ne_zero : ∀ n < 16, hexDigit n ≠ 0 := by decide

theorem hexDigits_ne_zero {k n : Nat} {c : BitVec 8} (hc : c ∈ hexDigits k n) : c ≠ 0 := by
  induction k generalizing n with
  | zero => exact absurd hc List.not_mem_nil
  | succ k ih =>
    obtain hc | hc := List.mem_append.mp hc
    · exact ih hc
    · rw [List.mem_singleton.mp hc]
      exact hexDigit_ne_zero _ (Nat.mod_lt _ (by decide))

theorem hexDigits_zero (k : Nat) : hexDigits k 0 = List.replicate k (ascii '0') := by
  induction k with
  | zero => rfl
  | succ k ih =>
    rw [hexDigits, Nat.zero_div, ih, List.replicate_succ']
    rfl

/-- The character `puth` makes of the last four bits. -/
theorem digit_eq (num : BitVec 64) :
    (if 10 ≤ (num &&& 0xf).setWidth 8 then ascii 'A' + (num &&& 0xf).setWidth 8 - 10
      else ascii '0' + (num &&& 0xf).setWidth 8) = hexDigit (num.toNat % 16) := by
  have hdigit : ∀ n < 16, (if (10 : BitVec 8) ≤ BitVec.ofNat 8 n then
      ascii 'A' + BitVec.ofNat 8 n - 10 else ascii '0' + BitVec.ofNat 8 n) = hexDigit n := by
    decide
  have hlow : (num &&& 0xf).setWidth 8 = BitVec.ofNat 8 (num.toNat % 16) := by
    apply BitVec.eq_of_toNat_eq
    have hand : (num &&& 0xf).toNat = num.toNat % 16 := Nat.and_two_pow_sub_one_eq_mod num.toNat 4
    rw [BitVec.toNat_setWidth, BitVec.toNat_ofNat, hand]
  rw [hlow]
  exact hdigit _ (Nat.mod_lt _ (by decide))

theorem puthLoop_eq (k : Nat) {num : BitVec 64} (tail : List (BitVec 8))
    (hnum : num.toNat < 16 ^ k) :
    puthLoop k num (k - 1) (List.replicate k (ascii '0') ++ tail) =
      hexDigits k num.toNat ++ tail := by
  induction k generalizing num tail with
  | zero => rfl
  | succ k ih =>
    rw [puthLoop]
    split_ifs with h0
    · rw [h0, ← hexDigits_zero]
      rfl
    · have hshift : (num >>> 4).toNat = num.toNat / 16 := by
        rw [BitVec.toNat_ushiftRight, Nat.shiftRight_eq_div_pow]
      have hset : (List.replicate (k + 1) (ascii '0') ++ tail).set k (hexDigit (num.toNat % 16)) =
          List.replicate k (ascii '0') ++ hexDigit (num.toNat % 16) :: tail := by
        rw [List.replicate_succ', List.append_assoc, List.set_append_right _ _ (by simp)]
        simp
      have hindex : ((k + 1 : Nat) - 1 : Int) = k := by omega
      dsimp only
      rw [digit_eq, hindex, Int.toNat_natCast, hset, ih, hshift, hexDigits, List.append_assoc]
      · rfl
      · rw [hshift, Nat.div_lt_iff_lt_mul (by decide)]
        exact hnum

theorem puth_eq (num : BitVec 64) :
    s.puth fontBitMap num = (hexDigits 16 num.toNat).foldl (putc fontBitMap) s := by
  have hloop := puthLoop_eq 16 [] num.isLt
  rw [List.append_nil, List.append_nil] at hloop
  have hdigits : ∀ c ∈ hexDigits 16 num.toNat, decide (c ≠ 0) = true := fun c hc =>
    decide_eq_true (hexDigits_ne_zero hc)
  unfold puth unum64StrLen
  rw [hloop, puts_eq, List.takeWhile_append_of_pos hdigits]
  simp

theorem call_eq (c : ConsoleCall) :
    s.call fontBitMap c = c.text.foldl (putc fontBitMap) s := by
  cases c with
  | putc c => rfl
  | puts str => exact puts_eq str
  | puth num => exact puth_eq num

theorem calls_eq (calls : List ConsoleCall) : calls.foldl (call fontBitMap) s =
    (calls.flatMap ConsoleCall.text).foldl (putc fontBitMap) s := by
  induction calls generalizing s with
  | nil => rfl
  | cons c calls ih =>
    rw [List.foldl_cons, ih, call_eq, List.flatMap_cons, List.foldl_append]

end Calls

/-- After `GraphicInit`, everything drawn is on the screen exactly when each line of the text
fits. -/
theorem calls_onScreen_iff (fb : FrameBuffer) (fontBitMap : Nat → Nat → Nat → Bool)
    (cursorX cursorY : BitVec 32) (calls : List ConsoleCall) :
    OnScreen fb (calls.foldl (call fontBitMap) (graphicInit fb ⟨cursorX, cursorY, [], []⟩)) ↔
      ∀ i line, ((calls.flatMap ConsoleCall.text).splitOn (ascii '\n'))[i]? = some line →
        LineFits fb i line := by
  have hinit : OnScreen fb (graphicInit fb ⟨cursorX, cursorY, [], []⟩) := by
    apply graphicInit_onScreen
    constructor
    · exact fun d hd => absurd hd List.not_mem_nil
    · exact fun g hg => absurd hg List.not_mem_nil
  have hat : At fb 0 0 (graphicInit fb ⟨cursorX, cursorY, [], []⟩) :=
    ⟨rfl, rfl, fun _ => Nat.zero_le _⟩
  rw [calls_eq, hat.foldl_onScreen, linesFit_iff]
  simp [hinit]

/-- Two characters on a screen that is one wide. -/
theorem second_character_off_screen :
    ¬OnScreen ⟨8, 10⟩ ([.putc (ascii 'a'), .putc (ascii 'a')].foldl (call fun _ _ _ => false)
      (graphicInit ⟨8, 10⟩ ⟨0, 0, [], []⟩)) := by
  intro h
  have hdrawn := h.pixels ⟨8, 0, background⟩ (by decide)
  exact absurd hdrawn.1 (by decide)

end Screen

end Amaterasu
