import Mathlib.Tactic.IntervalCases
import KazuOS.Lib.Bits

/-! The physical frame allocator: one bit of a byte array for each 4 KiB frame,
set while the frame is used. Addresses and counts are the naturals below
`2 ^ 64`; the sums that may leave that range wrap, as the release build does. -/
namespace KazuOS.Memory

abbrev frameSize : Nat := 4096

def tyConventional : Nat := 7

def wrap (value : Nat) : Nat := value % 2 ^ 64

/-- The rounding division of `u64::div_ceil`. -/
def divCeil (value divisor : Nat) : Nat := (value + divisor - 1) / divisor

theorem divCeil_pages (count : Nat) : divCeil (count * 4096) 4096 = count := by
  unfold divCeil
  omega

/-- The bytes behind the bitmap pointer. -/
abbrev Bitmap := List (BitVec 8)

/-- An entry of the firmware's memory map. -/
structure MemoryMapEntry where
  physStart : Nat
  pageCount : Nat
  ty : Nat
  aligned : physStart % frameSize = 0

structure Pmm where
  bitmap : Bitmap
  totalFrames : Nat
  usableFrames : Nat
  nextFrame : Nat

structure PmmStats where
  totalFrames : Nat
  usedFrames : Nat
  freeFrames : Nat
  deriving DecidableEq

namespace Pmm

def setBit (bitmap : Bitmap) (index : Nat) (value : Bool) : Bitmap :=
  let byte := bitmap.getD (index / 8) 0
  let bit := index % 8
  if value then bitmap.set (index / 8) (byte ||| (1#8 <<< bit))
  else bitmap.set (index / 8) (byte &&& ~~~(1#8 <<< bit))

def getBit (bitmap : Bitmap) (index : Nat) : Bool :=
  let byte := bitmap.getD (index / 8) 0
  let bit := index % 8
  (byte >>> bit) &&& 1#8 != 0#8

/-- Marks every frame that a region touches and counts the bits it changed. -/
def markRegion (bitmap : Bitmap) (totalFrames physStart size : Nat) (used : Bool) : Bitmap × Nat :=
  let startFrame := physStart / frameSize
  let endFrame := min (divCeil (wrap (physStart + size)) frameSize) totalFrames
  (List.range' startFrame (endFrame - startFrame)).foldl
    (fun (bitmap, changed) frame =>
      (setBit bitmap frame used,
        if getBit bitmap frame != used then changed + 1 else changed))
    (bitmap, 0)

/-- The body of `init`'s loop over the memory map, on the bits and the count of
usable frames. -/
def markEntry (totalFrames : Nat) (state : Bitmap × Nat) (entry : MemoryMapEntry) : Bitmap × Nat :=
  if entry.ty = tyConventional then
    let marked := markRegion state.1 totalFrames entry.physStart
      (wrap (entry.pageCount * frameSize)) false
    (marked.1, state.2 + marked.2)
  else state

def init (bitmap bitmapSize : Nat) (memoryMap : List MemoryMapEntry) : Pmm :=
  let totalFrames := bitmapSize * 8
  let marked := memoryMap.foldl (markEntry totalFrames) (List.replicate bitmapSize 0xff#8, 0)
  let bitmapPages := divCeil bitmapSize frameSize
  { bitmap := (markRegion marked.1 totalFrames bitmap (wrap (bitmapPages * frameSize)) true).1
    totalFrames
    usableFrames := marked.2
    nextFrame := 0 }

def markUsed (pmm : Pmm) (physStart size : Nat) : Pmm :=
  { pmm with bitmap := (markRegion pmm.bitmap pmm.totalFrames physStart size true).1 }

def allocFrameBelow (pmm : Pmm) (limit : Nat) : Option Nat × Pmm :=
  let limitFrame := limit / frameSize
  match (List.range (min limitFrame pmm.totalFrames)).find? (fun frame => !getBit pmm.bitmap frame) with
  | some frame =>
      (some (frame * frameSize), { pmm with bitmap := setBit pmm.bitmap frame true })
  | none => (none, pmm)

def allocFrame (pmm : Pmm) : Option Nat × Pmm :=
  let start := pmm.nextFrame
  match (List.range pmm.totalFrames).find?
      (fun i => !getBit pmm.bitmap ((start + i) % pmm.totalFrames)) with
  | some i =>
      let frame := (start + i) % pmm.totalFrames
      (some (frame * frameSize),
        { pmm with
          bitmap := setBit pmm.bitmap frame true
          nextFrame := (frame + 1) % pmm.totalFrames })
  | none => (none, pmm)

def setBits (bitmap : Bitmap) (start count : Nat) (value : Bool) : Bitmap :=
  (List.range count).foldl (fun bitmap i => setBit bitmap (start + i) value) bitmap

/-- First fit over the starting frames; a start is passed over at the first used
frame of its run. -/
def allocFrames (pmm : Pmm) (count : Nat) : Option Nat × Pmm :=
  match (List.range (pmm.totalFrames - count)).find?
      (fun start => (List.range count).all fun i => !getBit pmm.bitmap (start + i)) with
  | some start =>
      (some (start * frameSize),
        { pmm with
          bitmap := setBits pmm.bitmap start count true
          nextFrame := (start + count) % pmm.totalFrames })
  | none => (none, pmm)

def freeFrame (pmm : Pmm) (addr : Nat) : Pmm :=
  let frame := addr / frameSize
  if frame < pmm.totalFrames then { pmm with bitmap := setBit pmm.bitmap frame false } else pmm

def freeFrames (pmm : Pmm) (addr count : Nat) : Pmm :=
  (List.range count).foldl (fun pmm i => freeFrame pmm (addr + i * frameSize)) pmm

/-- Only conventional memory counts as total, so reserved regions do not inflate
the used figure. -/
def stats (pmm : Pmm) : PmmStats :=
  let freeFrames := (List.range pmm.totalFrames).countP (fun frame => !getBit pmm.bitmap frame)
  let total := pmm.usableFrames
  { totalFrames := total, usedFrames := total - freeFrames, freeFrames }

/-! What each operation does to single bits. -/

@[simp] theorem length_setBit (bitmap : Bitmap) (index : Nat) (value : Bool) :
    (setBit bitmap index value).length = bitmap.length := by
  unfold setBit
  cases value <;> simp

theorem getBit_eq (bitmap : Bitmap) (index : Nat) :
    getBit bitmap index = (bitmap.getD (index / 8) 0).getLsbD (index % 8) := by
  unfold getBit
  exact Lib.shiftRight_and_one_ne_zero _ _ (by decide)

theorem getBit_setBit (bitmap : Bitmap) (index probe : Nat) (value : Bool)
    (hindex : index < bitmap.length * 8) :
    getBit (setBit bitmap index value) probe =
      if probe = index then value else getBit bitmap probe := by
  have hbyte : index / 8 < bitmap.length := by omega
  have hbit : probe % 8 < 8 := Nat.mod_lt _ (by decide)
  rw [getBit_eq, getBit_eq]
  by_cases hsame : probe / 8 = index / 8
  · have hlookup (byte : BitVec 8) :
        (bitmap.set (index / 8) byte).getD (index / 8) 0 = byte := by
      simp [List.getD, hbyte]
    have hprobe : probe % 8 = index % 8 ↔ probe = index := by omega
    rw [hsame]
    cases value
    · simp only [setBit, hlookup, Bool.false_eq_true, ↓reduceIte, BitVec.getLsbD_and,
        BitVec.getLsbD_not, Lib.getLsbD_one_shiftLeft _ _ hbit, hprobe, hbit]
      by_cases h : probe = index <;> simp [h]
    · simp only [setBit, hlookup, ↓reduceIte, BitVec.getLsbD_or,
        Lib.getLsbD_one_shiftLeft _ _ hbit, hprobe]
      by_cases h : probe = index <;> simp [h]
  · have hne : probe ≠ index := fun h => hsame (by rw [h])
    have hother (byte : BitVec 8) :
        (bitmap.set (index / 8) byte).getD (probe / 8) 0 = bitmap.getD (probe / 8) 0 := by
      simp [List.getD, Ne.symm hsame]
    rw [if_neg hne]
    cases value <;> simp only [setBit, hother, Bool.false_eq_true, ↓reduceIte]

@[simp] theorem length_setBits (bitmap : Bitmap) (start count : Nat) (value : Bool) :
    (setBits bitmap start count value).length = bitmap.length := by
  unfold setBits
  induction count with
  | zero => rfl
  | succ count ih => rw [List.range_succ, List.foldl_append]; simpa using ih

theorem getBit_setBits (bitmap : Bitmap) (start count probe : Nat) (value : Bool)
    (hbound : start + count ≤ bitmap.length * 8) :
    getBit (setBits bitmap start count value) probe =
      if start ≤ probe ∧ probe < start + count then value else getBit bitmap probe := by
  induction count with
  | zero =>
    rw [if_neg (by omega)]
    rfl
  | succ count ih =>
    have hstep : setBits bitmap start (count + 1) value =
        setBit (setBits bitmap start count value) (start + count) value := by
      unfold setBits
      rw [List.range_succ, List.foldl_append]
      rfl
    rw [hstep, getBit_setBit _ _ _ _ (by simp; omega), ih (by omega)]
    by_cases hlast : probe = start + count
    · rw [if_pos hlast, if_pos (by omega)]
    · rw [if_neg hlast]
      by_cases hin : start ≤ probe ∧ probe < start + count
      · rw [if_pos hin, if_pos (by omega)]
      · rw [if_neg hin, if_neg (by omega)]

/-- The first frame after a region, as `markRegion` computes it. -/
def regionEnd (totalFrames physStart size : Nat) : Nat :=
  min (divCeil (wrap (physStart + size)) frameSize) totalFrames

/-- The loop of `markRegion`, started from any count of changes. -/
private def markFrames (state : Bitmap × Nat) (frames : List Nat) (used : Bool) : Bitmap × Nat :=
  frames.foldl
    (fun (bitmap, changed) frame =>
      (setBit bitmap frame used,
        if getBit bitmap frame != used then changed + 1 else changed))
    state

private theorem markFrames_concat (state : Bitmap × Nat) (frames : List Nat) (frame : Nat)
    (used : Bool) :
    markFrames state (frames ++ [frame]) used =
      (setBit (markFrames state frames used).1 frame used,
        if getBit (markFrames state frames used).1 frame != used
        then (markFrames state frames used).2 + 1 else (markFrames state frames used).2) := by
  unfold markFrames
  rw [List.foldl_append]
  rfl

private theorem markRegion_eq (bitmap : Bitmap) (totalFrames physStart size : Nat) (used : Bool) :
    markRegion bitmap totalFrames physStart size used =
      markFrames (bitmap, 0) (List.range' (physStart / frameSize)
        (regionEnd totalFrames physStart size - physStart / frameSize)) used := rfl

private theorem markFrames_spec (bitmap : Bitmap) (start count : Nat) (used : Bool)
    (hbound : start + count ≤ bitmap.length * 8 ∨ count = 0) :
    (markFrames (bitmap, 0) (List.range' start count) used).1.length = bitmap.length ∧
      ∀ probe, getBit (markFrames (bitmap, 0) (List.range' start count) used).1 probe =
        if start ≤ probe ∧ probe < start + count then used else getBit bitmap probe := by
  induction count with
  | zero =>
    refine ⟨rfl, fun probe => ?_⟩
    rw [if_neg (by omega)]
    rfl
  | succ count ih =>
    obtain ⟨hlength, hbits⟩ := ih (by omega)
    rw [List.range'_1_concat, markFrames_concat]
    refine ⟨by simp [hlength], fun probe => ?_⟩
    rw [getBit_setBit _ _ _ _ (by omega), hbits]
    by_cases hlast : probe = start + count
    · rw [if_pos hlast, if_pos (by omega)]
    · rw [if_neg hlast]
      by_cases hin : start ≤ probe ∧ probe < start + count
      · rw [if_pos hin, if_pos (by omega)]
      · rw [if_neg hin, if_neg (by omega)]

section MarkRegion

variable (bitmap : Bitmap) (totalFrames physStart size : Nat) (used : Bool)
  (htotal : totalFrames = bitmap.length * 8)
include htotal

private theorem regionFrames_bound :
    physStart / frameSize + (regionEnd totalFrames physStart size - physStart / frameSize) ≤
        bitmap.length * 8 ∨
      regionEnd totalFrames physStart size - physStart / frameSize = 0 := by
  unfold regionEnd
  omega

theorem length_markRegion :
    (markRegion bitmap totalFrames physStart size used).1.length = bitmap.length := by
  rw [markRegion_eq]
  exact (markFrames_spec _ _ _ _ (regionFrames_bound _ _ _ _ htotal)).1

theorem getBit_markRegion (probe : Nat) :
    getBit (markRegion bitmap totalFrames physStart size used).1 probe =
      if physStart / frameSize ≤ probe ∧ probe < regionEnd totalFrames physStart size then used
      else getBit bitmap probe := by
  rw [markRegion_eq, (markFrames_spec _ _ _ _ (regionFrames_bound _ _ _ _ htotal)).2]
  congr 1
  exact propext (by omega)

end MarkRegion

/-- The number of clear bits among the managed frames. -/
def freeCount (bitmap : Bitmap) (totalFrames : Nat) : Nat :=
  (List.range totalFrames).countP (fun frame => !getBit bitmap frame)

theorem freeCount_mono {before after : Bitmap} {totalFrames : Nat}
    (shrinks : ∀ frame, frame < totalFrames →
      getBit after frame = false → getBit before frame = false) :
    freeCount after totalFrames ≤ freeCount before totalFrames := by
  apply List.countP_mono_left
  intro frame hframe hfree
  have := shrinks frame (List.mem_range.mp hframe) (by simpa using hfree)
  simpa using this

private theorem freeCount_clear (bitmap : Bitmap) (frame : Nat)
    (hframe : frame < bitmap.length * 8) :
    freeCount (setBit bitmap frame false) (bitmap.length * 8) =
      freeCount bitmap (bitmap.length * 8) + (getBit bitmap frame).toNat := by
  have hcount := Lib.countP_range_update (fun n => !getBit bitmap n)
    (fun n => !getBit (setBit bitmap frame false) n) frame (bitmap.length * 8) hframe
    (fun n hn => by rw [getBit_setBit _ _ _ _ hframe, if_neg hn])
  simp only [getBit_setBit _ _ _ _ hframe, ↓reduceIte] at hcount
  unfold freeCount
  simp only [getBit_setBit _ _ _ _ hframe]
  cases h : getBit bitmap frame <;> simp [h] at hcount ⊢ <;> omega

/-- Clearing a region frees exactly the frames the call reports as changed. -/
theorem freeCount_markRegion_clear (bitmap : Bitmap) (totalFrames physStart size : Nat)
    (htotal : totalFrames = bitmap.length * 8) :
    freeCount (markRegion bitmap totalFrames physStart size false).1 totalFrames =
      freeCount bitmap totalFrames + (markRegion bitmap totalFrames physStart size false).2 := by
  have hbound := regionFrames_bound bitmap totalFrames physStart size htotal
  rw [markRegion_eq]
  generalize physStart / frameSize = start at hbound ⊢
  generalize regionEnd totalFrames physStart size - start = count at hbound ⊢
  subst htotal
  induction count with
  | zero => rfl
  | succ count ih =>
    have hih := ih (by omega)
    have hlength := (markFrames_spec bitmap start count false (by omega)).1
    rw [List.range'_1_concat, markFrames_concat]
    have hclear := freeCount_clear (markFrames (bitmap, 0) (List.range' start count) false).1
      (start + count) (by omega)
    rw [hlength] at hclear
    rw [hclear, hih]
    cases getBit (markFrames (bitmap, 0) (List.range' start count) false).1 (start + count)
    · simp
    · simp
      omega

theorem getBit_replicate_ones (bitmapSize frame : Nat) (hframe : frame < bitmapSize * 8) :
    getBit (List.replicate bitmapSize 0xff#8) frame = true := by
  have hbyte : (List.replicate bitmapSize 0xff#8).getD (frame / 8) 0 = 0xff#8 := by
    simp [List.getD, show frame / 8 < bitmapSize by omega]
  have hbit : frame % 8 < 8 := Nat.mod_lt _ (by decide)
  rw [getBit_eq, hbyte]
  generalize frame % 8 = bit at hbit
  interval_cases bit <;> rfl

end Pmm

end KazuOS.Memory
