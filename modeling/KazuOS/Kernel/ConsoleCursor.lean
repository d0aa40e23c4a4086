import Mathlib.Data.List.Induction

/-! The cursor of the console, with the built-in font. All of its metrics are whole numbers of
pixels, so the positions are as well. The sequences that move the cursor by some cells stop at the
edge of the screen; the one that sends it to a given cell does not. -/
namespace KazuOS.Kernel

def glyphWidth : Nat := 7
def glyphHeight : Nat := 14
def glyphScale : Nat := 2
def charWidth : Nat := glyphWidth * glyphScale
def charHeight : Nat := glyphHeight * glyphScale
def charAscent : Nat := 11 * glyphScale

def lineHeight : Int := charHeight
def fontDescent : Int := charHeight - charAscent

/-- The size of a framebuffer in pixels. -/
structure ScreenSize where
  width : Nat
  height : Nat

inductive EscapeState where
  | normal
  | esc
  | csi
  deriving DecidableEq, Repr

structure Console where
  cursorX : Int
  cursorY : Int
  escapeState : EscapeState
  csiParams : List Nat
  csiParamCount : Nat
  deriving DecidableEq, Repr

namespace Console

def new : Console := ⟨0, lineHeight, .normal, [0, 0, 0, 0], 0⟩

def newline (fb : ScreenSize) (c : Console) : Console :=
  let y := c.cursorY + lineHeight
  let scrollPx := max lineHeight 1
  { c with cursorX := 0, cursorY := if (fb.height : Int) ≤ y then y - scrollPx else y }

def drawChar (fb : ScreenSize) (c : Console) : Console :=
  let c := if (fb.width : Int) ≤ c.cursorX + charWidth then c.newline fb else c
  let c := if (fb.height : Int) ≤ c.cursorY + fontDescent then c.newline fb else c
  { c with cursorX := c.cursorX + charWidth }

/-- The cell that `H` names, counted from zero. A missing number is one. -/
def targetX (c : Console) : Int := (max (c.csiParams.getD 1 0) 1 - 1 : Nat) * charWidth
def targetY (c : Console) : Int := lineHeight + (max (c.csiParams.getD 0 0) 1 - 1 : Nat) * lineHeight

def csiDispatch (fb : ScreenSize) (c : Console) (cmd : Char) : Console :=
  let n : Int := max (c.csiParams.getD 0 0) 1
  match cmd with
  | 'J' =>
      if c.csiParams.getD 0 0 = 2 ∨ c.csiParams.getD 0 0 = 3 then
        { c with cursorX := 0, cursorY := lineHeight }
      else c
  | 'H' | 'f' => { c with cursorX := c.targetX, cursorY := c.targetY }
  | 'A' => { c with cursorY := max (c.cursorY - n * lineHeight) lineHeight }
  | 'B' => { c with cursorY := min (c.cursorY + n * lineHeight) (fb.height - fontDescent) }
  | 'C' => { c with cursorX := min (c.cursorX + n * charWidth) fb.width }
  | 'D' => { c with cursorX := max (c.cursorX - n * charWidth) 0 }
  | _ => c

def saturate (n : Nat) : Nat := min n 65535

def processChar (fb : ScreenSize) (c : Console) (ch : Char) : Console :=
  match c.escapeState with
  | .normal =>
      match ch with
      | '\n' => c.newline fb
      | '\r' => { c with cursorX := 0 }
      | '\x08' => { c with cursorX := max (c.cursorX - charWidth) 0 }
      | '\x1b' => { c with escapeState := .esc }
      | _ => c.drawChar fb
  | .esc =>
      if ch = '[' then
        { c with csiParams := [0, 0, 0, 0], csiParamCount := 0, escapeState := .csi }
      else { c with escapeState := .normal }
  | .csi =>
      if ch.isDigit then
        { c with csiParams := c.csiParams.modify (min c.csiParamCount 3) fun p =>
            saturate (saturate (p * 10) + (ch.toNat - '0'.toNat)) }
      else if ch = ';' then
        if c.csiParamCount < 3 then { c with csiParamCount := c.csiParamCount + 1 } else c
      else
        { csiDispatch fb { c with csiParamCount := c.csiParamCount + 1 } ch with
          escapeState := .normal }

def print (fb : ScreenSize) (text : List Char) : Console := text.foldl (processChar fb) new

structure OnScreen (fb : ScreenSize) (c : Console) : Prop where
  left : 0 ≤ c.cursorX
  right : c.cursorX ≤ fb.width
  top : lineHeight ≤ c.cursorY
  bottom : c.cursorY ≤ fb.height

/-- A character that is drawn, and not one that moves the cursor or starts a sequence. -/
def Draws (c : Console) (ch : Char) : Prop :=
  c.escapeState = .normal ∧ ch ≠ '\n' ∧ ch ≠ '\r' ∧ ch ≠ '\x08' ∧ ch ≠ '\x1b'

/-- The end of a sequence that names a cell. -/
def Places (c : Console) (ch : Char) : Prop := c.escapeState = .csi ∧ (ch = 'H' ∨ ch = 'f')

/-- What a character must not do: be drawn on a screen narrower than it, or send the cursor to a
cell that the screen does not have. -/
structure Allowed (fb : ScreenSize) (c : Console) (ch : Char) : Prop where
  fits : c.Draws ch → charWidth ≤ fb.width
  reaches : c.Places ch → c.targetX ≤ fb.width ∧ c.targetY ≤ fb.height

variable {fb : ScreenSize} {c : Console} {ch : Char}

/-- Only the cursor matters. -/
theorem OnScreen.congr {c' : Console} (h : c.OnScreen fb) (hx : c'.cursorX = c.cursorX)
    (hy : c'.cursorY = c.cursorY) : c'.OnScreen fb := by
  obtain ⟨hleft, hright, htop, hbottom⟩ := h
  exact ⟨hx ▸ hleft, hx ▸ hright, hy ▸ htop, hy ▸ hbottom⟩

theorem OnScreen.newline (h : c.OnScreen fb) : (c.newline fb).OnScreen fb := by
  obtain ⟨-, -, htop, hbottom⟩ := h
  have hline : lineHeight = 28 := rfl
  constructor
  · exact Int.le_refl 0
  · exact Int.natCast_nonneg fb.width
  · simp only [Console.newline]
    split <;> omega
  · simp only [Console.newline]
    split <;> omega

theorem OnScreen.feed (h : c.OnScreen fb) (p : Prop) [Decidable p] :
    (if p then c.newline fb else c).OnScreen fb := by
  split
  · exact h.newline
  · exact h

/-- Drawing moves the cursor by a cell, from the left edge if there was no room. -/
theorem drawChar_onScreen (h : c.OnScreen fb) :
    (c.drawChar fb).OnScreen fb ↔ charWidth ≤ fb.width := by
  -- A line feed for want of room on the line, then one for want of room below it.
  obtain ⟨first, hfirst⟩ : ∃ first,
      first = if (fb.width : Int) ≤ c.cursorX + charWidth then c.newline fb else c := ⟨_, rfl⟩
  obtain ⟨second, hsecond⟩ : ∃ second, second =
      if (fb.height : Int) ≤ first.cursorY + fontDescent then first.newline fb else first :=
    ⟨_, rfl⟩
  have honscreen : second.OnScreen fb := by
    rw [hsecond, hfirst]
    exact (h.feed _).feed _
  have hroom : first.cursorX = 0 ∨ first.cursorX + charWidth < fb.width := by
    rw [hfirst]
    split
    · exact .inl rfl
    · exact .inr (by omega)
  have hx : second.cursorX = 0 ∨ second.cursorX + charWidth < fb.width := by
    rw [hsecond]
    split
    · exact .inl rfl
    · exact hroom
  have hdrawn : c.drawChar fb = { second with cursorX := second.cursorX + charWidth } := by
    rw [hsecond, hfirst]
    rfl
  rw [hdrawn]
  obtain ⟨hleft, hright, htop, hbottom⟩ := honscreen
  constructor
  · rintro ⟨-, hfits, -, -⟩
    dsimp only at hfits
    omega
  · intro hfits
    refine ⟨?_, ?_, htop, hbottom⟩
    · dsimp only
      omega
    · dsimp only
      omega

/-- A cell that `H` names lies neither above the screen nor to its left. -/
theorem placed_onScreen (c : Console) :
    ({ c with cursorX := c.targetX, cursorY := c.targetY } : Console).OnScreen fb ↔
      c.targetX ≤ fb.width ∧ c.targetY ≤ fb.height := by
  constructor
  · rintro ⟨-, hx, -, hy⟩
    exact ⟨hx, hy⟩
  · rintro ⟨hx, hy⟩
    have hrow : 0 ≤ ((max (c.csiParams.getD 0 0) 1 - 1 : Nat) : Int) * lineHeight :=
      Int.mul_nonneg (Int.natCast_nonneg _) (by decide)
    refine ⟨Int.mul_nonneg (Int.natCast_nonneg _) (by decide), hx, ?_, hy⟩
    dsimp only [targetY]
    omega

/-- Of the sequences only those that name a cell can leave the screen. -/
theorem csiDispatch_onScreen (hheight : 2 * charHeight ≤ fb.height) (h : c.OnScreen fb)
    (cmd : Char) : (c.csiDispatch fb cmd).OnScreen fb ↔
      (cmd = 'H' ∨ cmd = 'f' → c.targetX ≤ fb.width ∧ c.targetY ≤ fb.height) := by
  have hline : lineHeight = 28 := rfl
  have hchar : charHeight = 28 := rfl
  have hdescent : fontDescent = 6 := rfl
  have hwidth : charWidth = 14 := rfl
  have hplaced := @placed_onScreen fb c
  have honscreen := h
  obtain ⟨hleft, hright, htop, hbottom⟩ := h
  have hn : 0 ≤ max ((c.csiParams.getD 0 0 : Nat) : Int) 1 := by omega
  unfold csiDispatch
  dsimp only
  -- The distance of a move is a variable from here on.
  generalize max ((c.csiParams.getD 0 0 : Nat) : Int) 1 = n at hn ⊢
  have hy := Int.mul_nonneg hn (by decide : 0 ≤ lineHeight)
  have hx := Int.mul_nonneg hn (by decide : 0 ≤ (charWidth : Int))
  generalize n * lineHeight = dy at hy ⊢
  generalize n * (charWidth : Int) = dx at hx ⊢
  split
  · refine iff_of_true ?_ fun hcmd => absurd hcmd (by decide)
    split
    · exact ⟨Int.le_refl 0, Int.natCast_nonneg _, Int.le_refl _, by dsimp only; omega⟩
    · exact honscreen
  · simpa using hplaced
  · simpa using hplaced
  · refine iff_of_true ⟨hleft, hright, ?_, ?_⟩ fun hcmd => absurd hcmd (by decide)
    · exact Int.le_max_right _ _
    · dsimp only
      omega
  · refine iff_of_true ⟨hleft, hright, ?_, ?_⟩ fun hcmd => absurd hcmd (by decide)
    · dsimp only
      omega
    · dsimp only
      omega
  · refine iff_of_true ⟨?_, Int.min_le_right _ _, htop, hbottom⟩ fun hcmd => absurd hcmd (by decide)
    dsimp only
    omega
  · refine iff_of_true ⟨Int.le_max_right _ _, ?_, htop, hbottom⟩ fun hcmd => absurd hcmd (by decide)
    dsimp only
    omega
  · rename_i hH hf _ _ _ _
    refine iff_of_true honscreen ?_
    rintro (heq | heq)
    · exact absurd heq hH
    · exact absurd heq hf

/-- One character. -/
theorem processChar_onScreen (hheight : 2 * charHeight ≤ fb.height) (h : c.OnScreen fb)
    (ch : Char) : (c.processChar fb ch).OnScreen fb ↔ c.Allowed fb ch := by
  unfold processChar
  cases hstate : c.escapeState with
  | normal =>
    have hplaces : ¬c.Places ch := fun hplaces => by
      rw [Places, hstate] at hplaces
      cases hplaces.1
    have hallowed : c.Allowed fb ch ↔ (c.Draws ch → charWidth ≤ fb.width) :=
      ⟨fun h => h.fits, fun h => ⟨h, fun hp => absurd hp hplaces⟩⟩
    rw [hallowed]
    dsimp only
    split
    · exact iff_of_true h.newline fun hdraws => absurd rfl hdraws.2.1
    · exact iff_of_true ⟨Int.le_refl 0, Int.natCast_nonneg _, h.top, h.bottom⟩ fun hdraws =>
        absurd rfl hdraws.2.2.1
    · refine iff_of_true ⟨Int.le_max_right _ _, ?_, h.top, h.bottom⟩ fun hdraws =>
        absurd rfl hdraws.2.2.2.1
      have hright := h.right
      dsimp only
      omega
    · exact iff_of_true (h.congr rfl rfl) fun hdraws => absurd rfl hdraws.2.2.2.2
    · rename_i hfeed hreturn hback hescape
      rw [drawChar_onScreen h]
      exact ⟨fun hfits _ => hfits, fun hfits => hfits ⟨hstate, hfeed, hreturn, hback, hescape⟩⟩
  | esc =>
    have hquiet : c.Allowed fb ch := by
      constructor
      · rintro ⟨hnormal, -⟩
        rw [hstate] at hnormal
        cases hnormal
      · rintro ⟨hcsi, -⟩
        rw [hstate] at hcsi
        cases hcsi
    dsimp only
    split
    · exact iff_of_true (h.congr rfl rfl) hquiet
    · exact iff_of_true (h.congr rfl rfl) hquiet
  | csi =>
    have hallowed : c.Allowed fb ch ↔
        (ch = 'H' ∨ ch = 'f' → c.targetX ≤ fb.width ∧ c.targetY ≤ fb.height) := by
      constructor
      · exact fun h hch => h.reaches ⟨hstate, hch⟩
      · refine fun h => ⟨fun hdraws => ?_, fun hplaces => h hplaces.2⟩
        rw [Draws, hstate] at hdraws
        cases hdraws.1
    rw [hallowed]
    dsimp only
    split
    · rename_i hdigit
      refine iff_of_true (h.congr rfl rfl) ?_
      rintro (rfl | rfl) <;> cases hdigit
    · split
      · rename_i hsemicolon
        refine iff_of_true ?_ ?_
        · split
          · exact h.congr rfl rfl
          · exact h
        · rw [hsemicolon]
          exact fun hch => absurd hch (by decide)
      · have hmoved := csiDispatch_onScreen (c := ⟨c.cursorX, c.cursorY, .csi, c.csiParams,
          c.csiParamCount + 1⟩) hheight (h.congr rfl rfl) ch
        refine Iff.trans ?_ hmoved
        exact ⟨fun h => h.congr rfl rfl, fun h => h.congr rfl rfl⟩

theorem print_concat (fb : ScreenSize) (text : List Char) (ch : Char) :
    print fb (text ++ [ch]) = (print fb text).processChar fb ch := by
  rw [print, List.foldl_append]
  rfl

/-- The cursor stays on the screen exactly as long as no character is drawn on a screen narrower
than it and no sequence names a cell beyond the screen. -/
theorem cursor_on_screen_iff {fb : ScreenSize} (hheight : 2 * charHeight ≤ fb.height)
    (text : List Char) :
    (∀ front, front <+: text → (print fb front).OnScreen fb) ↔
      ∀ front ch, front ++ [ch] <+: text → (print fb front).Allowed fb ch := by
  constructor
  · intro h front ch hfront
    have hbefore := h front ((List.prefix_append front [ch]).trans hfront)
    rw [← processChar_onScreen hheight hbefore, ← print_concat]
    exact h _ hfront
  · intro h front
    induction front using List.reverseRecOn with
    | nil =>
      have hchar : charHeight = 28 := rfl
      have hline : lineHeight = 28 := rfl
      exact fun _ => ⟨Int.le_refl 0, Int.natCast_nonneg _, Int.le_refl _, by
        simp only [print, List.foldl_nil, new]
        omega⟩
    | append_singleton front ch ih =>
      intro hfront
      rw [print_concat]
      exact (processChar_onScreen hheight (ih ((List.prefix_append front [ch]).trans hfront))
        ch).mpr (h front ch hfront)

/-- A greeting at the last line of a small screen, that scrolls. -/
theorem cursor_on_screen_iff_greeting :
    (print ⟨64, 60⟩ ("hi\x1b[2B\n\x1b[2;1H!").toList).OnScreen ⟨64, 60⟩ := by
  have hall : ∀ n ≤ 14, (fun c : Console => (c.escapeState = .csi → c.targetX ≤ 64 ∧ c.targetY ≤ 60))
      (print ⟨64, 60⟩ (("hi\x1b[2B\n\x1b[2;1H!").toList.take n)) := by decide +kernel
  refine (cursor_on_screen_iff (by decide) _).mpr (fun front ch hfront => ?_) _ (List.prefix_refl _)
  have hshort := (List.prefix_append front [ch]).trans hfront
  have htarget := hall front.length hshort.length_le
  rw [← List.prefix_iff_eq_take.mp hshort] at htarget
  exact ⟨fun _ => by decide, fun hplaces => htarget hplaces.1⟩

/-- A cell far below a screen of 1024 by 768. -/
theorem cursor_leaves_screen :
    (print ⟨1024, 768⟩ ("\x1b[999;1H").toList).cursorY = 27972 ∧
      ¬(print ⟨1024, 768⟩ ("\x1b[999;1H").toList).OnScreen ⟨1024, 768⟩ := by
  have hy : (print ⟨1024, 768⟩ ("\x1b[999;1H").toList).cursorY = 27972 := by decide +kernel
  refine ⟨hy, fun h => ?_⟩
  have hbottom := h.bottom
  rw [hy] at hbottom
  exact absurd hbottom (by decide)

end Console

end KazuOS.Kernel
