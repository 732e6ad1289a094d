import Amaterasu.Ata.Runs
import Amaterasu.File.Defs
import Amaterasu.Kernel.Access

/-! Where the C code writes that draws or reads from the disk: `putc` writes the elements of the
frame buffer at the cursor, wherever it is; `ATARead` writes the buffer of the request that it
serves, and the search of the directory writes nothing. -/

namespace Amaterasu
open PageWalk Program

/-- `n` bytes from `a` on, modulo `2 ^ 64`. -/
def bytesAt (a : BitVec 64) (n : Int) : Set (BitVec 64) :=
  { x | ∃ i < n.toNat, x = a + BitVec.ofNat 64 i }

/-- The bytes that a request is to fill. -/
def AtaRequest.bytes (r : AtaRequest) : Set (BitVec 64) := bytesAt r.buffer r.sizeOfBytes

/-- The copy loop stores into the bytes of the request. -/
theorem AtaRequest.copy_mem {r : AtaRequest} {f : Nat → BitVec 16} {w : BitVec 64 × BitVec 8}
    (hw : w ∈ r.copy f) : w.1 ∈ r.bytes := by
  rcases Int.lt_or_le r.sizeOfBytes 0 with hneg | h0
  · -- a negative size has no rounds
    have hwords : r.words = 0 := by
      have hneg' : (r.sizeOfBytes + 1).tdiv 2 = -((-(r.sizeOfBytes + 1)).tdiv 2) := by
        rw [Int.neg_tdiv, neg_neg]
      have hpos : 0 ≤ (-(r.sizeOfBytes + 1)).tdiv 2 := Int.tdiv_nonneg (by omega) (by decide)
      unfold words
      omega
    unfold copy at hw
    rw [hwords] at hw
    exact absurd hw List.not_mem_nil
  · rw [copy_eq h0] at hw
    obtain ⟨i, hi, rfl⟩ := List.mem_map.mp hw
    exact ⟨i, List.mem_range.mp hi, rfl⟩

theorem wordsBytes_bytesAt {la : BitVec 64} {ws : List (BitVec 64)} {w : BitVec 64 × BitVec 8}
    (hw : w ∈ Ram.wordsBytes la ws) : w.1 ∈ bytesAt la (8 * ws.length) := by
  induction ws generalizing la with
  | nil => exact absurd hw List.not_mem_nil
  | cons v ws ih =>
    unfold Ram.wordsBytes at hw
    rcases List.mem_append.mp hw with hfirst | hrest
    · obtain ⟨i, hi, rfl⟩ := List.mem_map.mp hfirst
      have hlt : i < 8 := List.mem_range.mp hi
      exact ⟨i, by rw [List.length_cons]; omega, rfl⟩
    · obtain ⟨i, hi, heq⟩ := ih hrest
      refine ⟨8 + i, by rw [List.length_cons]; omega, ?_⟩
      rw [heq, BitVec.ofNat_add, ← BitVec.add_assoc]
      rfl

namespace Kernel

/-- The requests in the queue are to fill bytes of `W`. -/
structure QueueWithin (W : Set (BitVec 64)) (k : Kernel) : Prop where
  fits : k.ata.queue.Fits ataRequestQueueCapacity
  bytes : ∀ r ∈ k.ata.queue.toList ataRequestQueueCapacity, r.bytes ⊆ W

end Kernel

section Steps
variable {W : Set (BitVec 64)} {k k' : Kernel} {α β : Type} {env : Environment}
  {lba size : BitVec 32} {buffer : BitVec 64}

/-- A step that changes memory only, and that in `W`. -/
structure Kernel.Stores (W : Set (BitVec 64)) (k k' : Kernel) : Prop where
  touches : k.Touches Set.univ W k'
  rest : k' = { k with ram := k'.ram }

theorem return_stores (a : α) : Keeps (Kernel.Stores W) (return a : KernelM α) := fun _ =>
  ⟨Ram.Touches.refl _, rfl⟩

theorem Keeps.thenStores {x : KernelM α} {f : α → KernelM β} (hx : Keeps (Kernel.Stores W) x)
    (hf : ∀ a, Keeps (Kernel.Stores W) (f a)) : Keeps (Kernel.Stores W) (x >>= f) := by
  refine Keeps.bind (fun s t u h h' => ⟨Ram.Touches.trans h.touches h'.touches, ?_⟩) hx hf
  rw [h'.rest, h.rest]

theorem onRam_stores {x : Accessing α} (h : Keeps (Ram.Touches Set.univ W) x) :
    Keeps (Kernel.Stores W) (onRam x) := by
  intro k
  refine ⟨onRam_touches h k, ?_⟩
  unfold onRam onPart
  split <;> rfl

theorem load_stores (la : BitVec 64) : Keeps (Kernel.Stores W) (load la) :=
  onRam_stores (Ram.load_touches trivial)

theorem loadWord_stores (la : BitVec 64) : Keeps (Kernel.Stores W) (loadWord la) :=
  Keeps.thenStores (onRam_stores (Ram.loadAll_touches fun _ _ => trivial)) fun _ => return_stores _

theorem loadShort_stores (la : BitVec 64) : Keeps (Kernel.Stores W) (loadShort la) :=
  Keeps.thenStores (onRam_stores (Ram.loadAll_touches fun _ _ => trivial)) fun _ => return_stores _

theorem loadInt_stores (la : BitVec 64) : Keeps (Kernel.Stores W) (loadInt la) :=
  Keeps.thenStores (onRam_stores (Ram.loadAll_touches fun _ _ => trivial)) fun _ => return_stores _

theorem storeWords_stores {la : BitVec 64} (ws : List (BitVec 64))
    (h : bytesAt la (8 * ws.length) ⊆ W) : Keeps (Kernel.Stores W) (storeWords la ws) :=
  onRam_stores (Ram.storeAll_touches fun _ hw => h (wordsBytes_bytesAt hw))

theorem memcpy_stores {dst src n : BitVec 64} (h : bytesAt dst n.toNat ⊆ W) :
    Keeps (Kernel.Stores W) (memcpy dst src n) :=
  onRam_stores (Ram.copy_touches fun i hi => ⟨trivial, h ⟨i, hi, rfl⟩⟩)

/-! ## Drawing -/

/-- The elements for `n` columns of a line of text. `putc` does not look at the resolution. -/
def lineBytes (display : Display) (x y : BitVec 32) (n : Nat) : Set (BitVec 64) :=
  { a | ∃ i < n, ∃ j < fontHeight,
      a ∈ bytesAt (display.element (x + BitVec.ofNat 32 i) (y + BitVec.ofNat 32 j)) 3 }

theorem lineBytes_shift {display : Display} {x y : BitVec 32} {m n : Nat} :
    lineBytes display (x + BitVec.ofNat 32 m) y n ⊆ lineBytes display x y (m + n) := by
  rintro a ⟨i, hi, j, hj, ha⟩
  rw [BitVec.add_assoc, ← BitVec.ofNat_add] at ha
  exact ⟨m + i, by omega, j, hj, ha⟩

theorem lineBytes_mono {display : Display} {x y : BitVec 32} {m n : Nat} (h : m ≤ n) :
    lineBytes display x y m ⊆ lineBytes display x y n := by
  rintro a ⟨i, hi, j, hj, ha⟩
  exact ⟨i, hi.trans_le h, j, hj, ha⟩

theorem drawPixel_bytesAt {display : Display} {d : Drawn} {w : BitVec 64 × BitVec 8}
    (hw : w ∈ display.stores d) : w.1 ∈ bytesAt (display.element d.x d.y) 3 := by
  simp only [Display.stores, List.mem_cons, List.not_mem_nil, or_false] at hw
  rcases hw with rfl | rfl | rfl
  · exact ⟨2, by decide, rfl⟩
  · exact ⟨1, by decide, rfl⟩
  · exact ⟨0, by decide, (BitVec.add_zero _).symm⟩

/-- Stores that are all in `W` come to an end, with a page fault or without one. -/
theorem storeAll_cases {ws : List (BitVec 64 × BitVec 8)} (h : ∀ w ∈ ws, w.1 ∈ W) (r : Ram) :
    ∃ t, Ram.Touches Set.univ W r t ∧
      (Ram.storeAll ws r = .error () t ∨ Ram.storeAll ws r = .ok () t) := by
  have hkeeps : Keeps (Ram.Touches Set.univ W) (Ram.storeAll ws) := Ram.storeAll_touches h
  have htouch := hkeeps r
  cases hrun : Ram.storeAll ws r with
  | ok u t =>
    rw [hrun] at htouch
    exact ⟨t, htouch, Or.inr rfl⟩
  | error u t =>
    rw [hrun] at htouch
    exact ⟨t, htouch, Or.inl rfl⟩

/-- The program makes the stores and then moves the cursor. -/
structure Kernel.Draws (k : Kernel) (ws : List (BitVec 64 × BitVec 8)) (x y : BitVec 32)
    (p : KernelM Unit) : Prop where
  runs : ∀ ram, Ram.storeAll ws k.ram = .ok () ram →
    p k = .ok () { k with ram := ram, cursorX := x, cursorY := y }
  faults : ∀ ram, Ram.storeAll ws k.ram = .error () ram →
    ∃ x', p k = .error () { k with ram := ram, cursorX := x' }

theorem Kernel.Draws.touches {ws : List (BitVec 64 × BitVec 8)} {x y : BitVec 32}
    {p : KernelM Unit} (h : k.Draws ws x y p) (hin : ∀ w ∈ ws, w.1 ∈ W) :
    k.Touches Set.univ W (final (p k)) := by
  obtain ⟨ram, htouch, herror | hok⟩ := storeAll_cases hin k.ram
  · obtain ⟨x', hrun⟩ := h.faults ram herror
    rw [hrun]
    exact htouch
  · rw [h.runs ram hok]
    exact htouch

theorem putc_newline (display : Display) (k : Kernel) :
    k.Draws [] 0 (k.cursorY + BitVec.ofNat 32 fontHeight) (putc display (ascii '\n')) := by
  constructor
  · intro ram hrun
    cases hrun
    rfl
  · intro ram hrun
    cases hrun

theorem putc_glyph (display : Display) {c : BitVec 8} (hc : c ≠ ascii '\n') (x y : BitVec 32) :
    ∃ ws, (∀ w ∈ ws, w.1 ∈ lineBytes display x y fontWidth) ∧
      ∀ k : Kernel, k.cursorX = x → k.cursorY = y →
        k.Draws ws (x + BitVec.ofNat 32 fontWidth) y (putc display c) := by
  obtain ⟨drawn, hputc, hdrawn⟩ : ∃ drawn : List Drawn,
      Screen.putc display.fontBitMap ⟨x, y, [], []⟩ c =
        ⟨x + BitVec.ofNat 32 fontWidth, y, drawn, [c.toNat]⟩ ∧
      ∀ d ∈ drawn, ∃ i < fontWidth, ∃ j < fontHeight,
        d.x = x + BitVec.ofNat 32 i ∧ d.y = y + BitVec.ofNat 32 j := by
    refine ⟨_, if_neg hc, fun d hd => ?_⟩
    obtain ⟨i, hi, hd⟩ := List.mem_flatMap.mp hd
    obtain ⟨j, hj, rfl⟩ := List.mem_map.mp hd
    exact ⟨i, List.mem_range.mp hi, j, List.mem_range.mp hj, rfl, rfl⟩
  refine ⟨drawn.flatMap display.stores, fun w hw => ?_, ?_⟩
  · obtain ⟨d, hd, hw⟩ := List.mem_flatMap.mp hw
    obtain ⟨i, hi, j, hj, hx, hy⟩ := hdrawn d hd
    exact ⟨i, hi, j, hj, hx ▸ hy ▸ drawPixel_bytesAt hw⟩
  · rintro k rfl rfl
    unfold putc
    constructor
    · intro ram hrun
      rw [bind_get, hputc]
      exact bind_ok (onRam_ok hrun)
    · intro ram hrun
      rw [bind_get, hputc]
      exact ⟨k.cursorX, bind_error (onRam_error hrun)⟩

theorem putc_touches (display : Display) (c : BitVec 8) (k : Kernel) :
    k.Touches Set.univ (lineBytes display k.cursorX k.cursorY fontWidth)
      (final (putc display c k)) := by
  by_cases hc : c = ascii '\n'
  · rw [hc]
    exact (putc_newline display k).touches fun w hw => absurd hw List.not_mem_nil
  · obtain ⟨ws, hin, hdraws⟩ := putc_glyph display hc k.cursorX k.cursorY
    exact (hdraws k rfl rfl).touches hin

/-- A line of text is drawn from the cursor on, and the cursor ends at the start of the next. -/
theorem puts_line (display : Display) {line : List (BitVec 8)}
    (hline : ∀ c ∈ line, c ≠ 0 ∧ c ≠ ascii '\n') (x y : BitVec 32) :
    ∃ ws, (∀ w ∈ ws, w.1 ∈ lineBytes display x y (fontWidth * line.length)) ∧
      ∀ k : Kernel, k.cursorX = x → k.cursorY = y →
        k.Draws ws 0 (y + BitVec.ofNat 32 fontHeight) (puts display (line ++ [ascii '\n'])) := by
  induction line generalizing x with
  | nil =>
    refine ⟨[], fun w hw => absurd hw List.not_mem_nil, ?_⟩
    rintro k - rfl
    constructor
    · exact fun ram hrun => bind_ok ((putc_newline display k).runs ram hrun)
    · exact fun ram hrun => nomatch hrun
  | cons c line ih =>
    obtain ⟨hnul, hc⟩ := hline c List.mem_cons_self
    obtain ⟨ws, hin, hdraws⟩ := putc_glyph display hc x y
    obtain ⟨ws', hin', hdraws'⟩ :=
      ih (fun c hc => hline c (List.mem_cons_of_mem _ hc)) (x + BitVec.ofNat 32 fontWidth)
    have hlength : fontWidth * (c :: line).length = fontWidth + fontWidth * line.length := by
      rw [List.length_cons, Nat.mul_add, Nat.mul_one, Nat.add_comm]
    rw [hlength, List.cons_append, puts, if_neg hnul]
    refine ⟨ws ++ ws', fun w hw => ?_, fun k hx hy => ?_⟩
    · rcases List.mem_append.mp hw with hw | hw
      · exact lineBytes_mono (Nat.le_add_right _ _) (hin w hw)
      · exact lineBytes_shift (hin' w hw)
    have hglyph := hdraws k hx hy
    have hrest : ∀ ram, Kernel.Draws
        { k with ram := ram, cursorX := x + BitVec.ofNat 32 fontWidth, cursorY := y } ws' 0
        (y + BitVec.ofNat 32 fontHeight) (puts display (line ++ [ascii '\n'])) := fun ram =>
      hdraws' _ rfl rfl
    constructor
    · intro ram hrun
      rw [Ram.storeAll_append] at hrun
      obtain ⟨_, ram₁, hfirst, hsecond⟩ := ok_of_bind hrun
      rw [bind_ok (hglyph.runs ram₁ hfirst), (hrest ram₁).runs ram hsecond]
    · intro ram hrun
      rw [Ram.storeAll_append] at hrun
      cases hfirst : Ram.storeAll ws k.ram with
      | ok u ram₁ =>
        rw [bind_ok hfirst] at hrun
        obtain ⟨x', hfault⟩ := (hrest ram₁).faults ram hrun
        refine ⟨x', (bind_ok (hglyph.runs ram₁ hfirst)).trans (hfault.trans ?_)⟩
        rw [hy]
      | error u ram₁ =>
        rw [bind_error hfirst] at hrun
        cases hrun
        obtain ⟨x', hfault⟩ := hglyph.faults ram hfirst
        exact ⟨x', bind_error hfault⟩

/-- The lines of `n` failed reads, from the cursor on. -/
def errorBytes (display : Display) : Nat → BitVec 32 → BitVec 32 → Set (BitVec 64)
  | 0, _, _ => ∅
  | n + 1, x, y => lineBytes display x y (fontWidth * 5) ∪
      errorBytes display n 0 (y + BitVec.ofNat 32 fontHeight)

theorem errorBytes_succ {display : Display} {x y : BitVec 32} {n : Nat} :
    errorBytes display n x y ⊆ errorBytes display (n + 1) x y := by
  induction n generalizing x y with
  | zero => exact Set.empty_subset _
  | succ n ih => exact Set.union_subset_union_right _ ih

namespace Kernel

/-- From a queue within `W`, where the lines of `n` errors and of those that come later are in `W`
too, a program writes into `W` only and leaves heap and process as they are. -/
def Confined (display : Display) (W : Set (BitVec 64)) (n : Nat) (x : KernelM α) : Prop :=
  ∀ (k : Kernel) (later : Nat), k.QueueWithin W →
    errorBytes display (later + n) k.cursorX k.cursorY ⊆ W →
    k.Touches Set.univ W (final (x k)) ∧ (final (x k)).heap = k.heap ∧
      (final (x k)).process = k.process ∧
      ∀ a k', x k = .ok a k' →
        k'.QueueWithin W ∧ errorBytes display later k'.cursorX k'.cursorY ⊆ W

theorem Confined.bind {display : Display} {m n : Nat} {x : KernelM α} {f : α → KernelM β}
    (hx : Confined display W n x) (hf : ∀ a, Confined display W m (f a)) :
    Confined display W (m + n) (x >>= f) := by
  intro k later hk hlines
  obtain ⟨htouch, hheap, hprocess, hok⟩ := hx k (later + m) hk (Nat.add_assoc .. ▸ hlines)
  cases hr : x k with
  | error e k₁ =>
    rw [hr] at htouch hheap hprocess
    rw [bind_error hr]
    exact ⟨htouch, hheap, hprocess, fun _ _ h => nomatch h⟩
  | ok a k₁ =>
    rw [hr] at htouch hheap hprocess
    obtain ⟨hk₁, hlines₁⟩ := hok a k₁ hr
    obtain ⟨htouch', hheap', hprocess', hok'⟩ := hf a k₁ later hk₁ hlines₁
    rw [bind_ok hr]
    exact ⟨Ram.Touches.trans htouch htouch', hheap'.trans hheap, hprocess'.trans hprocess, hok'⟩

end Kernel

theorem Kernel.Stores.confined {x : KernelM α} (hx : Keeps (Kernel.Stores W) x)
    (display : Display) : Kernel.Confined display W 0 x := by
  intro k later hk hlines
  have hstores := hx k
  have hrest := hstores.rest
  refine ⟨hstores.touches, ?_, ?_, fun a k' hr => ?_⟩
  · rw [hrest]
  · rw [hrest]
  · have hk' : k' = { k with ram := k'.ram } := by
      rw [hr] at hrest
      exact hrest
    rw [hk']
    exact ⟨⟨hk.fits, hk.bytes⟩, hlines⟩

/-! ## `ATARead` -/

section Equations
variable {c : AtaCall} (env) (hc : c = ⟨k.current, lba.toNat, size.toInt, buffer⟩)
include hc

theorem ataSubmit_full (hfull : k.ata.queue.size = ataRequestQueueCapacity) :
    ataSubmit lba size buffer k = .ok none { k with ata := k.ata.refuse c } := by
  unfold ataSubmit
  dsimp only
  rw [← hc, AtaSystem.submit_full hfull]

theorem ataSubmit_space (hspace : k.ata.queue.size ≠ ataRequestQueueCapacity) :
    ataSubmit lba size buffer k = .ok (some c) { k with ata := k.ata.submitted c } := by
  unfold ataSubmit
  dsimp only
  rw [← hc, AtaSystem.submit_space hspace]

theorem ataReadPoll_full (hfull : k.ata.queue.size = ataRequestQueueCapacity) :
    ataReadPoll env lba size buffer k = .ok (-1) { k with ata := k.ata.refuse c } := by
  unfold ataReadPoll
  rw [bind_ok (ataSubmit_full hc hfull)]
  rfl

/-- With space in the queue, the call waits for the device and then serves a request. -/
theorem ataReadPoll_space (hspace : k.ata.queue.size ≠ ataRequestQueueCapacity) :
    ataReadPoll env lba size buffer k =
      match (k.ata.submitted c).ataPollingUntilReady (k.answers.headD true) with
      | none => .error () { k with ata := k.ata.submitted c }
      | some ata => ataServe env c { k with ata := ata, answers := k.answers.tail } := by
  unfold ataReadPoll
  rw [bind_ok (ataSubmit_space hc hspace)]
  dsimp only
  rw [bind_get]
  dsimp only
  cases (k.ata.submitted c).ataPollingUntilReady (k.answers.headD true) <;> rfl

end Equations

/-- After an error nothing is taken from the queue, and the message is drawn. -/
theorem ataServe_error (env : Environment) (c : AtaCall) (hd : k.ata.device = .failed) :
    ∃ ws, (∀ w ∈ ws, w.1 ∈ lineBytes env.display k.cursorX k.cursorY (fontWidth * 5)) ∧
      (∀ ram, Ram.storeAll ws k.ram = .ok () ram → ataServe env c k = .ok (-1) { k with
        ram := ram
        ata := k.ata.refuse c
        cursorX := 0
        cursorY := k.cursorY + BitVec.ofNat 32 fontHeight }) ∧
      ∀ ram, Ram.storeAll ws k.ram = .error () ram →
        ∃ x, ataServe env c k = .error () { k with ram := ram, cursorX := x } := by
  have hline : ∀ c ∈ ([0x45, 0x52, 0x52, 0x4f, 0x52] : List (BitVec 8)), c ≠ 0 ∧ c ≠ ascii '\n' := by
    decide
  obtain ⟨ws, hin, hdraws⟩ := puts_line env.display hline k.cursorX k.cursorY
  have hk := hdraws k rfl rfl
  unfold ataServe
  rw [bind_get]
  dsimp only
  rw [if_pos hd, AtaSystem.serve_failed _ _ hd]
  refine ⟨ws, hin, fun ram hrun => bind_ok (hk.runs ram hrun), fun ram hrun => ?_⟩
  obtain ⟨x, hfault⟩ := hk.faults ram hrun
  exact ⟨x, bind_error hfault⟩

/-- Whether or not the message is drawn to its end. -/
theorem ataServe_error_cases (env : Environment) (c : AtaCall) (hd : k.ata.device = .failed) :
    ∃ ram x, Ram.Touches Set.univ (lineBytes env.display k.cursorX k.cursorY (fontWidth * 5)) k.ram
        ram ∧
      (ataServe env c k = .error () { k with ram := ram, cursorX := x } ∨
        ataServe env c k = .ok (-1) { k with
          ram := ram
          ata := k.ata.refuse c
          cursorX := 0
          cursorY := k.cursorY + BitVec.ofNat 32 fontHeight }) := by
  obtain ⟨ws, hin, hruns, hfaults⟩ := ataServe_error env c hd
  obtain ⟨ram, htouch, herror | hok⟩ := storeAll_cases hin k.ram
  · obtain ⟨x, hfault⟩ := hfaults ram herror
    exact ⟨ram, x, htouch, Or.inl hfault⟩
  · exact ⟨ram, 0, htouch, Or.inr (hruns ram hok)⟩

/-- Otherwise the bytes of the front request are stored. -/
theorem ataServe_front (env : Environment) (c : AtaCall) (hd : k.ata.device ≠ .failed) : ∃ ram,
    Ram.Touches Set.univ k.ata.queue.front.bytes k.ram ram ∧
      (ataServe env c k = .error () { k with ram := ram } ∨
        ∃ r, ataServe env c k = .ok r { k with
          ram := ram
          ata := k.ata.serve env.disk env.floating c }) := by
  have hstores : ∀ w ∈ ((k.ata.serve env.disk env.floating c).outcomes.headD ⟨c, -1, []⟩).stores,
      w.1 ∈ k.ata.queue.front.bytes := by
    intro w hw
    obtain ⟨d, stores, hserve, hempty | ⟨f, hcopy⟩⟩ :=
      AtaSystem.serve_front env.disk env.floating c hd
    all_goals rw [hserve] at hw
    · rw [hempty] at hw
      exact absurd hw List.not_mem_nil
    · rw [hcopy] at hw
      exact AtaRequest.copy_mem hw
  unfold ataServe
  rw [bind_get]
  dsimp only
  rw [if_neg hd]
  obtain ⟨ram, htouch, herror | hok⟩ := storeAll_cases hstores k.ram
  · exact ⟨ram, htouch, Or.inl (bind_error (onRam_error herror))⟩
  · exact ⟨ram, htouch, Or.inr ⟨_, bind_ok (onRam_ok hok)⟩⟩

/-- The call that serves writes the front request's bytes or the message. -/
theorem ataServe_touches (env : Environment) (c : AtaCall) (hfront : k.ata.queue.front.bytes ⊆ W)
    (herror : k.ata.device = .failed → errorBytes env.display 1 k.cursorX k.cursorY ⊆ W) :
    k.Touches Set.univ W (final (ataServe env c k)) := by
  by_cases hd : k.ata.device = .failed
  · have hline := Set.subset_union_left.trans (herror hd)
    obtain ⟨ram, x, htouch, hrun | hrun⟩ := ataServe_error_cases env c hd
    all_goals
      rw [hrun]
      exact htouch.mono (Set.Subset.refl _) hline
  · obtain ⟨ram, htouch, hrun | ⟨r, hrun⟩⟩ := ataServe_front env c hd
    all_goals
      rw [hrun]
      exact htouch.mono (Set.Subset.refl _) hfront

theorem front_mem {q : AtaRequestQueue} (hf : q.Fits ataRequestQueueCapacity) (hpos : 0 < q.size) :
    q.front ∈ q.toList ataRequestQueueCapacity := by
  rw [CircularQueue.toList_pop hf hpos]
  exact List.mem_cons_self

theorem ataServe_confined (env : Environment) (c : AtaCall) {later : Nat} (hk : k.QueueWithin W)
    (hpos : 0 < k.ata.queue.size)
    (hlines : errorBytes env.display (later + 1) k.cursorX k.cursorY ⊆ W) :
    k.Touches Set.univ W (final (ataServe env c k)) ∧
      (final (ataServe env c k)).heap = k.heap ∧ (final (ataServe env c k)).process = k.process ∧
      ∀ r k', ataServe env c k = .ok r k' →
        k'.QueueWithin W ∧ errorBytes env.display later k'.cursorX k'.cursorY ⊆ W := by
  have hfirst : errorBytes env.display 1 k.cursorX k.cursorY ⊆ W := by
    refine (Set.union_subset_union_right _ (Set.empty_subset _)).trans hlines
  refine ⟨ataServe_touches env c (hk.bytes _ (front_mem hk.fits hpos)) fun _ => hfirst, ?_⟩
  by_cases hd : k.ata.device = .failed
  · obtain ⟨ram, x, -, hrun | hrun⟩ := ataServe_error_cases env c hd
    · rw [hrun]
      exact ⟨rfl, rfl, fun _ _ h => nomatch h⟩
    · rw [hrun]
      refine ⟨rfl, rfl, fun r k' h => ?_⟩
      cases h
      exact ⟨⟨hk.fits, hk.bytes⟩, Set.subset_union_right.trans hlines⟩
  · obtain ⟨ram, -, hrun | ⟨r, hrun⟩⟩ := ataServe_front env c hd
    · rw [hrun]
      exact ⟨rfl, rfl, fun _ _ h => nomatch h⟩
    · rw [hrun]
      refine ⟨rfl, rfl, fun r k' h => ?_⟩
      cases h
      obtain ⟨d, stores, hserve, -⟩ := AtaSystem.serve_front env.disk env.floating c hd
      obtain ⟨hfits, hlist⟩ := AtaSystem.serve_pops hk.fits hpos ({ · with isComplete := true })
      refine ⟨⟨?_, fun r hr => hk.bytes r (List.mem_of_mem_tail ?_)⟩, errorBytes_succ.trans hlines⟩
      · show (k.ata.serve env.disk env.floating c).queue.Fits _
        rw [hserve]
        exact hfits
      · rw [← hlist]
        have hr : r ∈ (k.ata.serve env.disk env.floating c).queue.toList _ := hr
        rw [hserve] at hr
        exact hr

theorem polling_queue {s t : AtaSystem} {ok : Bool} (h : s.ataPollingUntilReady ok = some t) :
    t.queue = s.queue := by
  unfold AtaSystem.ataPollingUntilReady AtaSystem.settle at h
  split at h
  · cases h
  · rename_i hbusy
    rw [hbusy] at h
    cases h
    rfl
  · split_ifs at h
    cases h
    rfl
  · cases h
    rfl

theorem Kernel.QueueWithin.submitted {c : AtaCall} (hk : k.QueueWithin W)
    (hspace : k.ata.queue.size ≠ ataRequestQueueCapacity) (hc : c.request.bytes ⊆ W) :
    (k.ata.submitted c).queue.Fits ataRequestQueueCapacity ∧
      ∀ r ∈ (k.ata.submitted c).queue.toList ataRequestQueueCapacity, r.bytes ⊆ W := by
  have hcap : k.ata.queue.size < ataRequestQueueCapacity := lt_of_le_of_ne hk.fits.size hspace
  refine ⟨hk.fits.push hcap _, fun r hr => ?_⟩
  rw [show (k.ata.submitted c).queue = k.ata.queue.push _ c.request from rfl,
    CircularQueue.toList_push hcap] at hr
  rcases List.mem_append.mp hr with hr | hr
  · exact hk.bytes r hr
  · rw [List.mem_singleton.mp hr]
    exact hc

theorem ataReadPoll_confined (env : Environment) (h : bytesAt buffer size.toInt ⊆ W) :
    Kernel.Confined env.display W 1 (ataReadPoll env lba size buffer) := by
  intro k later hk hlines
  let c : AtaCall := ⟨k.current, lba.toNat, size.toInt, buffer⟩
  by_cases hfull : k.ata.queue.size = ataRequestQueueCapacity
  · rw [ataReadPoll_full (c := c) env rfl hfull]
    refine ⟨Ram.Touches.refl _, rfl, rfl, fun r k' hr => ?_⟩
    cases hr
    exact ⟨⟨hk.fits, hk.bytes⟩, errorBytes_succ.trans hlines⟩
  · rw [ataReadPoll_space (c := c) env rfl hfull]
    obtain ⟨hfits, hbytes⟩ := hk.submitted hfull (c := c) h
    cases hpoll : (k.ata.submitted c).ataPollingUntilReady (k.answers.headD true) with
    | none => exact ⟨Ram.Touches.refl _, rfl, rfl, fun _ _ h => nomatch h⟩
    | some ata =>
      have hq := polling_queue hpoll
      let k' : Kernel := { k with ata := ata, answers := k.answers.tail }
      have hk' : k'.QueueWithin W := ⟨hq ▸ hfits, hq ▸ hbytes⟩
      have hpos : 0 < k'.ata.queue.size := by
        show 0 < ata.queue.size
        rw [hq]
        exact Nat.succ_pos _
      exact ataServe_confined (k := k') env c hk' hpos hlines

/-! ## `GetFileInfo` and `ReadFile` -/

variable {filename : BitVec 64}

theorem strnlength_stores (a : BitVec 64) (length left : Nat) :
    Keeps (Kernel.Stores W) (strnlength a length left) := by
  induction left generalizing length with
  | zero => exact fun _ => ⟨Ram.Touches.refl _, rfl⟩
  | succ left ih =>
    unfold strnlength
    refine Keeps.thenStores (load_stores _) fun c => ?_
    split_ifs
    · exact return_stores _
    · exact ih _

theorem strncmp_stores (a b : BitVec 64) (i left : Nat) :
    Keeps (Kernel.Stores W) (strncmp a b i left) := by
  induction left generalizing i with
  | zero => exact return_stores _
  | succ left ih =>
    unfold strncmp
    refine Keeps.thenStores (load_stores _) fun x => ?_
    refine Keeps.thenStores (load_stores _) fun y => ?_
    split_ifs
    · exact return_stores _
    · exact ih _

theorem searchEntries_stores (length i left : Nat) :
    Keeps (Kernel.Stores W) (searchEntries env filename buffer length i left) := by
  induction left generalizing i with
  | zero => exact return_stores _
  | succ left ih =>
    unfold searchEntries
    refine Keeps.thenStores (load_stores _) fun x => ?_
    split_ifs
    · exact ih _
    · refine Keeps.thenStores (strncmp_stores _ _ _ _) fun y => ?_
      split_ifs
      · exact ih _
      · exact Keeps.thenStores (loadShort_stores _) fun _ =>
          Keeps.thenStores (loadInt_stores _) fun _ => return_stores _

theorem searchRootDir_stores :
    Keeps (Kernel.Stores W) (searchRootDir env filename buffer) :=
  Keeps.thenStores (strnlength_stores _ _ _) fun _ => searchEntries_stores _ _ _

theorem getFileInfoPoll_confined (env : Environment) (filename : BitVec 64)
    (h : bytesAt buffer 512 ⊆ W) :
    Kernel.Confined env.display W 1 (getFileInfoPoll env filename buffer) :=
  Kernel.Confined.bind (ataReadPoll_confined env h) fun _ =>
    Kernel.Stores.confined searchRootDir_stores env.display

theorem loadFile_stores (file : BitVec 64) : Keeps (Kernel.Stores W) (loadFile file) :=
  Keeps.thenStores (loadWord_stores _) fun _ => Keeps.thenStores (loadWord_stores _) fun _ =>
    return_stores _

end Steps

end Amaterasu
