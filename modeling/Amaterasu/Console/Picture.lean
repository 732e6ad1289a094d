import Amaterasu.Console.Screen
import Mathlib.Logic.Function.Basic

/-! What is on the frame buffer after the calls of the console: the text, one glyph a character. -/

namespace Amaterasu
open Function

/-- `DrawPixel`, on the elements of the frame buffer. -/
def drawPixel (fb : FrameBuffer) (base : Nat → Pixel) (d : Drawn) : Nat → Pixel :=
  update base (d.index fb) d.pixel

/-- The frame buffer in the end, where it was `base` at first. -/
def Screen.picture (fb : FrameBuffer) (base : Nat → Pixel) (s : Screen) : Nat → Pixel :=
  s.drawn.foldl (drawPixel fb) base

/-- The pixel of a glyph, or of the background where there is no character. -/
def glyphPixel (fontBitMap : Nat → Nat → Nat → Bool) (c : Option (BitVec 8)) (y x : Nat) : Pixel :=
  if c.any fun c => fontBitMap c.toNat y x then foreground else background

/-- The character of the text at a row and a column. -/
def charAt (lines : List (List (BitVec 8))) (row col : Nat) : Option (BitVec 8) :=
  lines[row]?.bind (·[col]?)

section Draw
variable {fb : FrameBuffer} {base : Nat → Pixel} {l : List Drawn} {i : Nat} {v : Pixel}

/-- Calls that agree on an element. -/
theorem foldl_drawPixel (h : ∀ d ∈ l, d.index fb = i → d.pixel = v) :
    ((∃ d ∈ l, d.index fb = i) → l.foldl (drawPixel fb) base i = v) ∧
      ((∀ d ∈ l, d.index fb ≠ i) → l.foldl (drawPixel fb) base i = base i) := by
  induction l generalizing base with
  | nil => exact ⟨fun ⟨d, hd, _⟩ => absurd hd List.not_mem_nil, fun _ => rfl⟩
  | cons d l ih =>
    rw [List.foldl_cons]
    obtain ⟨hhit, hmiss⟩ := @ih (drawPixel fb base d) fun d hd =>
      h d (List.mem_cons_of_mem _ hd)
    constructor
    · intro hex
      by_cases hl : ∃ d ∈ l, d.index fb = i
      · exact hhit hl
      · rw [hmiss fun d hd heq => hl ⟨d, hd, heq⟩]
        obtain ⟨d', hd', heq⟩ := hex
        rcases List.mem_cons.mp hd' with rfl | hd'
        · rw [drawPixel, heq, update_self]
          exact h d' List.mem_cons_self heq
        · exact absurd ⟨d', hd', heq⟩ hl
    · intro hall
      rw [hmiss fun d hd => hall d (List.mem_cons_of_mem _ hd)]
      exact update_of_ne (hall d List.mem_cons_self).symm _ _

/-- The calls for a box of pixels. -/
def box (x y : BitVec 32) (width height : Nat) (pixel : Nat → Nat → Pixel) : List Drawn :=
  (List.range width).flatMap fun i => (List.range height).map fun j =>
    ⟨x + BitVec.ofNat 32 i, y + BitVec.ofNat 32 j, pixel i j⟩

theorem box_index {x y : BitVec 32} {a b width height : Nat} (ha : a < width) (hb : b < height)
    (hx : x.toNat + width ≤ fb.horizontalResolution.toNat)
    (hy : y.toNat + height ≤ fb.verticalResolution.toNat)
    (harea : fb.horizontalResolution.toNat * fb.verticalResolution.toNat ≤ 2 ^ 32) (v : Pixel) :
    Drawn.index ⟨x + BitVec.ofNat 32 a, y + BitVec.ofNat 32 b, v⟩ fb =
      fb.horizontalResolution.toNat * (y.toNat + b) + (x.toNat + a) := by
  have hh := fb.horizontalResolution.isLt
  have hv := fb.verticalResolution.isLt
  have hxa : (x + BitVec.ofNat 32 a).toNat = x.toNat + a := by
    rw [BitVec.toNat_add, BitVec.toNat_ofNat]
    omega
  have hyb : (y + BitVec.ofNat 32 b).toNat = y.toNat + b := by
    rw [BitVec.toNat_add, BitVec.toNat_ofNat]
    omega
  have hrow : fb.horizontalResolution.toNat * (y.toNat + b) < 2 ^ 32 := by
    have hle := Nat.mul_le_mul_left fb.horizontalResolution.toNat
      (show y.toNat + b + 1 ≤ fb.verticalResolution.toNat by omega)
    rw [Nat.mul_succ] at hle
    omega
  unfold Drawn.index
  rw [BitVec.toNat_mul, hxa, hyb, Nat.mod_eq_of_lt hrow]

/-- A box of pixels leaves the rest of the picture. -/
theorem box_picture {x y : BitVec 32} {width height : Nat}
    (hx : x.toNat + width ≤ fb.horizontalResolution.toNat)
    (hy : y.toNat + height ≤ fb.verticalResolution.toNat)
    (harea : fb.horizontalResolution.toNat * fb.verticalResolution.toNat ≤ 2 ^ 32)
    (pixel : Nat → Nat → Pixel) (i : Nat) :
    (box x y width height pixel).foldl (drawPixel fb) base i =
      if (x.toNat ≤ i % fb.horizontalResolution.toNat ∧
          i % fb.horizontalResolution.toNat < x.toNat + width) ∧
        y.toNat ≤ i / fb.horizontalResolution.toNat ∧
          i / fb.horizontalResolution.toNat < y.toNat + height then
        pixel (i % fb.horizontalResolution.toNat - x.toNat)
          (i / fb.horizontalResolution.toNat - y.toNat)
      else base i := by
  have hplace : ∀ d ∈ box x y width height pixel, d.index fb = i →
      ((x.toNat ≤ i % fb.horizontalResolution.toNat ∧
          i % fb.horizontalResolution.toNat < x.toNat + width) ∧
        y.toNat ≤ i / fb.horizontalResolution.toNat ∧
          i / fb.horizontalResolution.toNat < y.toNat + height) ∧
      d.pixel = pixel (i % fb.horizontalResolution.toNat - x.toNat)
          (i / fb.horizontalResolution.toNat - y.toNat) := by
    rintro d hd rfl
    obtain ⟨a, ha, hd⟩ := List.mem_flatMap.mp hd
    obtain ⟨b, hb, rfl⟩ := List.mem_map.mp hd
    rw [List.mem_range] at ha hb
    have hlt : x.toNat + a < fb.horizontalResolution.toNat := by omega
    rw [box_index ha hb hx hy harea, Nat.mul_add_mod, Nat.mod_eq_of_lt hlt,
      Nat.mul_add_div (by omega), Nat.div_eq_of_lt hlt, Nat.add_zero, Nat.add_sub_cancel_left,
      Nat.add_sub_cancel_left]
    exact ⟨by omega, rfl⟩
  obtain ⟨hhit, hmiss⟩ := @foldl_drawPixel fb base _ i _ fun d hd heq => (hplace d hd heq).2
  split_ifs with hin
  · apply hhit
    obtain ⟨⟨hx₁, hx₂⟩, hy₁, hy₂⟩ := hin
    refine ⟨⟨x + BitVec.ofNat 32 (i % fb.horizontalResolution.toNat - x.toNat),
      y + BitVec.ofNat 32 (i / fb.horizontalResolution.toNat - y.toNat),
      pixel (i % fb.horizontalResolution.toNat - x.toNat)
        (i / fb.horizontalResolution.toNat - y.toNat)⟩, ?_, ?_⟩
    · exact List.mem_flatMap.mpr ⟨_, List.mem_range.mpr (by omega),
        List.mem_map.mpr ⟨_, List.mem_range.mpr (by omega), rfl⟩⟩
    · rw [box_index (by omega) (by omega) hx hy harea, Nat.add_sub_of_le hx₁, Nat.add_sub_of_le hy₁]
      exact Nat.div_add_mod i _
  · apply hmiss
    intro d hd heq
    exact hin (hplace d hd heq).1

end Draw

/-! ## The text -/

/-- The character that the text has at a place of the grid, when its first one is at `row` and
`col`. -/
def cell : List (BitVec 8) → Nat → Nat → Nat → Nat → Option (BitVec 8)
  | [], _, _, _, _ => none
  | c :: text, row, col, r, q =>
    if c = ascii '\n' then cell text (row + 1) 0 r q
    else if r = row ∧ q = col then some c
    else cell text row (col + 1) r q

section Text
variable {text : List (BitVec 8)} {row col r q : Nat}

/-- Nothing is written before the cursor. -/
theorem cell_before (h : r < row ∨ r = row ∧ q < col) : cell text row col r q = none := by
  induction text generalizing row col with
  | nil => rfl
  | cons c text ih =>
    unfold cell
    split_ifs with hc hat
    · exact ih (Or.inl (by omega))
    · omega
    · exact ih (by omega)

/-- The rest of the line comes behind the cursor, and the next lines from their first column on. -/
theorem cell_add (k q : Nat) : cell text row col (row + k) (if k = 0 then col + q else q) =
    charAt (text.splitOn (ascii '\n')) k q := by
  induction text generalizing row col k q with
  | nil =>
    rw [List.splitOn_nil]
    cases k <;> rfl
  | cons c text ih =>
    rw [List.splitOn_cons_eq_if_modifyHead]
    by_cases hc : c = ascii '\n'
    · have hbeq : (c == ascii '\n') = true := beq_iff_eq.mpr hc
      rw [if_pos hbeq, cell, if_pos hc]
      cases k with
      | zero => exact cell_before (Or.inl (Nat.lt_succ_self row))
      | succ k =>
        have hline : cell text (row + 1) 0 (row + 1 + k) _ = _ := ih k q
        rw [Nat.zero_add, ite_self, Nat.succ_add_eq_add_succ] at hline
        exact hline
    · obtain ⟨line, lines, hlines⟩ :=
        List.exists_cons_of_ne_nil (List.splitOn_ne_nil (ascii '\n') text)
      have hbeq : ¬(c == ascii '\n') = true := mt beq_iff_eq.mp hc
      rw [if_neg hbeq, cell, if_neg hc, hlines, List.modifyHead_cons]
      rw [hlines] at ih
      cases k with
      | zero =>
        cases q with
        | zero =>
          have hat : row + 0 = row ∧ col + 0 = col := ⟨rfl, rfl⟩
          exact if_pos hat
        | succ q =>
          have hat : ¬(row + 0 = row ∧ col + (q + 1) = col) := by omega
          have hrest : cell text row (col + 1) (row + 0) (col + 1 + q) = _ := ih 0 q
          rw [Nat.add_assoc, Nat.add_comm 1 q] at hrest
          exact (if_neg hat).trans hrest
      | succ k =>
        have hat : ¬(row + (k + 1) = row ∧ q = col) := by omega
        have hrest : cell text row (col + 1) (row + (k + 1)) q = _ := ih (k + 1) q
        exact (if_neg hat).trans hrest

theorem cell_zero (text : List (BitVec 8)) (r q : Nat) :
    cell text 0 0 r q = charAt (text.splitOn (ascii '\n')) r q := by
  have h : cell text 0 0 (0 + r) _ = charAt _ r q := cell_add r q
  rwa [Nat.zero_add, Nat.zero_add, ite_self] at h

end Text

namespace Screen
variable {fb : FrameBuffer} {fontBitMap : Nat → Nat → Nat → Bool} {s : Screen} {c : BitVec 8}
  {base : Nat → Pixel} {row col : Nat}

/-- The character that the text puts over an element of the frame buffer. -/
def textAt (fb : FrameBuffer) (text : List (BitVec 8)) (row col i : Nat) : Option (BitVec 8) :=
  cell text row col (i / fb.horizontalResolution.toNat / fontHeight)
    (i % fb.horizontalResolution.toNat / fontWidth)

def glyphAt (fb : FrameBuffer) (fontBitMap : Nat → Nat → Nat → Bool) (c : Option (BitVec 8))
    (i : Nat) : Pixel :=
  glyphPixel fontBitMap c (i / fb.horizontalResolution.toNat % fontHeight)
    (i % fb.horizontalResolution.toNat % fontWidth)

theorem graphicInit_picture (fb : FrameBuffer) (base : Nat → Pixel) (s : Screen)
    (harea : fb.horizontalResolution.toNat * fb.verticalResolution.toNat ≤ 2 ^ 32) (i : Nat) :
    (s.graphicInit fb).picture fb base i =
      if i < fb.horizontalResolution.toNat * fb.verticalResolution.toNat then background
      else s.picture fb base i := by
  have hdrawn : (s.graphicInit fb).drawn = s.drawn ++ box 0 0 fb.horizontalResolution.toNat
      fb.verticalResolution.toNat fun _ _ => background := by
    unfold graphicInit setBackGround box
    simp only [zero_add]
  unfold picture
  rw [hdrawn, List.foldl_append, box_picture (Nat.zero_add _).le (Nat.zero_add _).le harea]
  have hin : ((0 ≤ i % fb.horizontalResolution.toNat ∧
        i % fb.horizontalResolution.toNat < 0 + fb.horizontalResolution.toNat) ∧
      0 ≤ i / fb.horizontalResolution.toNat ∧
        i / fb.horizontalResolution.toNat < 0 + fb.verticalResolution.toNat) ↔
      i < fb.horizontalResolution.toNat * fb.verticalResolution.toNat := by
    rcases Nat.eq_zero_or_pos fb.horizontalResolution.toNat with h | h
    · simp [h]
    · simp only [Nat.zero_le, true_and, Nat.zero_add, Nat.mod_lt _ h]
      rw [Nat.div_lt_iff_lt_mul h, Nat.mul_comm]
  exact if_congr hin rfl rfl

/-- A glyph replaces the pixels of its place in the grid. -/
theorem At.glyph_picture (h : At fb row col s) (hc : c ≠ ascii '\n')
    (hx : fontWidth * col + fontWidth ≤ fb.horizontalResolution.toNat)
    (hy : fontHeight * row + fontHeight ≤ fb.verticalResolution.toNat)
    (harea : fb.horizontalResolution.toNat * fb.verticalResolution.toNat ≤ 2 ^ 32) (i : Nat) :
    (s.putc fontBitMap c).picture fb base i =
      if i / fb.horizontalResolution.toNat / fontHeight = row ∧
          i % fb.horizontalResolution.toNat / fontWidth = col then
        glyphAt fb fontBitMap (some c) i
      else s.picture fb base i := by
  have hdrawn : (s.putc fontBitMap c).drawn = s.drawn ++ box s.cursorX s.cursorY fontWidth
      fontHeight fun x y => if fontBitMap c.toNat y x then foreground else background := by
    rw [putc, if_neg hc]
    rfl
  have hcol : s.cursorX.toNat = fontWidth * col := by
    rw [h.x, BitVec.toNat_ofNat, Nat.mod_eq_of_lt (by have := fb.horizontalResolution.isLt; omega)]
  have hrow : s.cursorY.toNat = fontHeight * row := by
    rw [h.y, BitVec.toNat_ofNat, Nat.mod_eq_of_lt (by have := fb.verticalResolution.isLt; omega)]
  unfold picture
  rw [hdrawn, List.foldl_append, box_picture (hcol ▸ hx) (hrow ▸ hy) harea, hcol, hrow]
  unfold glyphAt glyphPixel fontWidth fontHeight
  have hin : ((8 * col ≤ i % fb.horizontalResolution.toNat ∧
        i % fb.horizontalResolution.toNat < 8 * col + 8) ∧
      10 * row ≤ i / fb.horizontalResolution.toNat ∧
        i / fb.horizontalResolution.toNat < 10 * row + 10) ↔
      i / fb.horizontalResolution.toNat / 10 = row ∧
        i % fb.horizontalResolution.toNat / 8 = col := by omega
  by_cases hplace : i / fb.horizontalResolution.toNat / 10 = row ∧
      i % fb.horizontalResolution.toNat / 8 = col
  · have hx' : i % fb.horizontalResolution.toNat - 8 * col =
        i % fb.horizontalResolution.toNat % 8 := by omega
    have hy' : i / fb.horizontalResolution.toNat - 10 * row =
        i / fb.horizontalResolution.toNat % 10 := by omega
    rw [if_pos (hin.mpr hplace), if_pos hplace, hx', hy']
    rfl
  · rw [if_neg (mt hin.mp hplace), if_neg hplace]

/-- What a text leaves of the picture. -/
theorem At.foldl_picture {text : List (BitVec 8)} (h : At fb row col s)
    (harea : fb.horizontalResolution.toNat * fb.verticalResolution.toNat ≤ 2 ^ 32)
    (hrows : fontHeight * (row + (text.splitOn (ascii '\n')).length) ≤ 2 ^ 32)
    (hfits : LinesFit fb row col (text.splitOn (ascii '\n'))) (i : Nat) :
    (text.foldl (putc fontBitMap) s).picture fb base i =
      if (textAt fb text row col i).isSome then glyphAt fb fontBitMap (textAt fb text row col i) i
      else s.picture fb base i := by
  induction text generalizing s row col with
  | nil => rfl
  | cons c text ih =>
    rw [List.splitOn_cons_eq_if_modifyHead] at hrows hfits
    rw [List.foldl_cons]
    unfold textAt cell
    by_cases hc : c = ascii '\n'
    · have hbeq : (c == ascii '\n') = true := beq_iff_eq.mpr hc
      rw [if_pos hbeq] at hrows hfits
      rw [List.length_cons, ← Nat.succ_add_eq_add_succ] at hrows
      have hat : At fb (row + 1) 0 (s.putc fontBitMap c) := hc ▸ h.newline
      have hnext := ih hat hrows hfits.2
      have hkept : (s.putc fontBitMap c).picture fb base i = s.picture fb base i := by
        rw [putc, if_pos hc]
        rfl
      rw [hkept] at hnext
      rw [if_pos hc]
      exact hnext
    · obtain ⟨line, lines, hlines⟩ :=
        List.exists_cons_of_ne_nil (List.splitOn_ne_nil (ascii '\n') text)
      have hbeq : ¬(c == ascii '\n') = true := mt beq_iff_eq.mp hc
      rw [if_neg hbeq, hlines, List.modifyHead_cons] at hrows hfits
      rw [hlines] at ih
      obtain ⟨hline, hrest⟩ := hfits
      obtain ⟨⟨hx, hy, -⟩, hline⟩ := restFits_cons.mp hline
      have hrow : fontHeight * row % 2 ^ 32 = fontHeight * row := by
        apply Nat.mod_eq_of_lt
        rw [List.length_cons] at hrows
        unfold fontHeight at hrows ⊢
        omega
      rw [hrow] at hy
      rw [ih (h.glyph hc) hrows ⟨hline, hrest⟩, h.glyph_picture hc hx hy harea, if_neg hc]
      unfold textAt
      by_cases hat : i / fb.horizontalResolution.toNat / fontHeight = row ∧
          i % fb.horizontalResolution.toNat / fontWidth = col
      · -- the characters behind it do not come back here
        have hnone : cell text row (col + 1) (i / fb.horizontalResolution.toNat / fontHeight)
            (i % fb.horizontalResolution.toNat / fontWidth) = none :=
          cell_before (Or.inr ⟨hat.1, hat.2 ▸ Nat.lt_succ_self _⟩)
        rw [if_pos hat, if_pos hat, hnone]
        rfl
      · rw [if_neg hat, if_neg hat]

/-- After `GraphicInit` the frame buffer shows the lines of the text, each character by its glyph in
the table and nothing else. -/
theorem calls_picture (fb : FrameBuffer) (fontBitMap : Nat → Nat → Nat → Bool)
    (cursorX cursorY : BitVec 32) (base : Nat → Pixel) (calls : List ConsoleCall)
    (harea : fb.horizontalResolution.toNat * fb.verticalResolution.toNat ≤ 2 ^ 32) :
    let lines := (calls.flatMap ConsoleCall.text).splitOn (ascii '\n')
    fontHeight * lines.length ≤ 2 ^ 32 →
    (∀ i line, lines[i]? = some line → LineFits fb i line) → ∀ i,
    (calls.foldl (call fontBitMap) (graphicInit fb ⟨cursorX, cursorY, [], []⟩)).picture fb base i =
      if i < fb.horizontalResolution.toNat * fb.verticalResolution.toNat then
        glyphPixel fontBitMap
          (charAt lines (i / fb.horizontalResolution.toNat / fontHeight)
            (i % fb.horizontalResolution.toNat / fontWidth))
          (i / fb.horizontalResolution.toNat % fontHeight)
          (i % fb.horizontalResolution.toNat % fontWidth)
      else base i := by
  intro lines hrows hfits i
  have hat : At fb 0 0 (graphicInit fb ⟨cursorX, cursorY, [], []⟩) :=
    ⟨rfl, rfl, fun _ => Nat.zero_le _⟩
  have hlines : LinesFit fb 0 0 lines := by
    refine linesFit_iff.mpr fun i line hline => ?_
    rw [Nat.zero_add]
    exact hfits i line hline
  have hrows' : fontHeight * (0 + lines.length) ≤ 2 ^ 32 := by rwa [Nat.zero_add]
  rw [calls_eq, hat.foldl_picture harea hrows' hlines, graphicInit_picture fb base _ harea]
  unfold textAt
  rw [cell_zero]
  cases hchar : charAt lines (i / fb.horizontalResolution.toNat / fontHeight)
      (i % fb.horizontalResolution.toNat / fontWidth) with
  | none => rfl
  | some c =>
    -- a character of a line that fits
    obtain ⟨line, hline, hc⟩ := Option.bind_eq_some_iff.mp hchar
    have hne : line ≠ [] := by
      rintro rfl
      cases hc
    obtain ⟨hwidth, hheight, -⟩ := hfits _ line hline hne
    obtain ⟨hrow, -⟩ := List.getElem?_eq_some_iff.mp hline
    have hpos : 0 < fb.horizontalResolution.toNat := by
      have hlen := List.length_pos_iff.mpr hne
      unfold fontWidth at hwidth
      omega
    have hin : i < fb.horizontalResolution.toNat * fb.verticalResolution.toNat := by
      rw [Nat.mul_comm, ← Nat.div_lt_iff_lt_mul hpos]
      unfold fontHeight at hheight hrow hrows
      omega
    exact (if_pos rfl).trans (if_pos hin).symm

/-- Two lines of one character on a screen of two by two, with bars for glyphs. -/
theorem calls_picture_bars :
    ([.putc (ascii 'a'), .puts [ascii '\n', ascii 'b', 0, ascii 'c']].foldl
      (call fun c _ x => c % 8 == x) (graphicInit ⟨16, 20⟩ ⟨3, 4, [], []⟩)).picture ⟨16, 20⟩
        (fun _ => ⟨0, 0, 0⟩) (16 * 12 + 2) = foreground := by
  refine (calls_picture _ _ _ _ _ _ (by decide) (by decide) ?_ _).trans (by decide)
  intro i line hline
  have hsplit : ([.putc (ascii 'a'), .puts [ascii '\n', ascii 'b', 0, ascii 'c']].flatMap
      ConsoleCall.text).splitOn (ascii '\n') = [[ascii 'a'], [ascii 'b']] := by decide
  rw [hsplit] at hline
  have hfirst : LineFits ⟨16, 20⟩ 0 [ascii 'a'] := fun _ => by decide
  have hsecond : LineFits ⟨16, 20⟩ 1 [ascii 'b'] := fun _ => by decide
  rcases i with _ | _ | i
  · exact Option.some.inj hline ▸ hfirst
  · exact Option.some.inj hline ▸ hsecond
  · cases hline

end Screen
end Amaterasu
