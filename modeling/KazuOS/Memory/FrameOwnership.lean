import KazuOS.Lib.Run
import KazuOS.Memory.Pmm

/-! Who holds which frame. Boot hands the allocator its memory map and reserves
the regions already in use; afterwards clients allocate ranges and give back
ranges they hold. The clear bits are then exactly the frames boot left free and
nobody holds. -/
namespace KazuOS.Memory.FrameOwnership

open Pmm

/-- A region of physical memory. The range a region covers does not wrap around
the address space. -/
structure Region where
  start : Nat
  size : Nat
  fits : start + size < 2 ^ 64

structure BootInfo where
  memoryMap : List MemoryMapEntry
  kernelStart : Nat
  kernelEnd : Nat
  heap : Region
  framebuffer : Region
  font : Region
  kernel_le : kernelStart ≤ kernelEnd
  kernel_fits : kernelEnd < 2 ^ 64

def maxPhys (boot : BootInfo) : Nat :=
  ((boot.memoryMap.filter fun entry => entry.ty = tyConventional).map fun entry =>
    wrap (entry.physStart + wrap (entry.pageCount * 4096))).foldl max 0

def bitmapSize (boot : BootInfo) : Nat :=
  let totalFrames := maxPhys boot / 4096
  let bitmapBytes := divCeil totalFrames 8
  let bitmapPages := divCeil bitmapBytes 4096
  bitmapPages * 4096

/-- The bitmap pointer is the kernel heap's answer to the allocation request, or
null when there is nothing to manage. -/
def bitmapPtr (boot : BootInfo) (allocated : Nat) : Nat :=
  if bitmapSize boot > 0 then allocated else 0

def initMemory (boot : BootInfo) (allocated : Nat) : Pmm :=
  let pmm := Pmm.init (bitmapPtr boot allocated) (bitmapSize boot) boot.memoryMap
  let pmm := pmm.markUsed 0 boot.kernelEnd
  let pmm := pmm.markUsed boot.kernelStart (boot.kernelEnd - boot.kernelStart)
  let pmm := pmm.markUsed boot.heap.start boot.heap.size
  let pmm := pmm.markUsed boot.framebuffer.start boot.framebuffer.size
  pmm.markUsed boot.font.start boot.font.size

/-- A frame range as the allocator hands it out. -/
structure Range where
  base : Nat
  count : Nat
  deriving DecidableEq

def Range.first (range : Range) : Nat := range.base / frameSize

inductive Op where
  | allocFrame
  | allocFrameBelow (limit : Nat)
  | allocFrames (count : Nat)
  | freeFrame (addr : Nat)
  | freeFrames (addr count : Nat)

/-- The allocator together with the ranges its callers currently hold. -/
structure Clients where
  pmm : Pmm
  held : List Range

def Clients.take (held : List Range) (count : Nat) : Option Nat × Pmm → Clients
  | (some base, pmm) => ⟨pmm, ⟨base, count⟩ :: held⟩
  | (none, pmm) => ⟨pmm, held⟩

/-- One call. A free is possible only for a range the caller holds. -/
def step (s : Clients) : Op → Option Clients
  | .allocFrame => some (Clients.take s.held 1 s.pmm.allocFrame)
  | .allocFrameBelow limit => some (Clients.take s.held 1 (s.pmm.allocFrameBelow limit))
  | .allocFrames count => some (Clients.take s.held count (s.pmm.allocFrames count))
  | .freeFrame addr =>
      if ⟨addr, 1⟩ ∈ s.held then
        some ⟨s.pmm.freeFrame addr, s.held.erase ⟨addr, 1⟩⟩
      else none
  | .freeFrames addr count =>
      if ⟨addr, count⟩ ∈ s.held then
        some ⟨s.pmm.freeFrames addr count, s.held.erase ⟨addr, count⟩⟩
      else none

def Range.Covers (range : Range) (frame : Nat) : Prop :=
  range.first ≤ frame ∧ frame < range.first + range.count

instance (range : Range) (frame : Nat) : Decidable (range.Covers frame) :=
  inferInstanceAs (Decidable (_ ∧ _))

def Range.Disjoint (left right : Range) : Prop :=
  ∀ frame, left.Covers frame → ¬right.Covers frame

/-- The ownership invariant, relative to the bitmap boot produced. -/
structure Owned (boot : Pmm) (s : Clients) : Prop where
  total : s.pmm.totalFrames = boot.totalFrames
  usable : s.pmm.usableFrames = boot.usableFrames
  length : s.pmm.bitmap.length * 8 = boot.totalFrames
  bits : ∀ frame, frame < boot.totalFrames →
    (getBit s.pmm.bitmap frame = false ↔
      getBit boot.bitmap frame = false ∧ ∀ range ∈ s.held, ¬range.Covers frame)
  disjoint : s.held.Pairwise Range.Disjoint
  aligned : ∀ range ∈ s.held, range.base % frameSize = 0
  within : ∀ range ∈ s.held, ∀ frame, range.Covers frame →
    frame < boot.totalFrames ∧ getBit boot.bitmap frame = false

/-- What the three searches have in common: on success a run of free frames is
marked used and nothing else changes; on failure nothing changes. -/
structure Allocates (pmm : Pmm) (count : Nat) (result : Option Nat × Pmm) : Prop where
  total : result.2.totalFrames = pmm.totalFrames
  usable : result.2.usableFrames = pmm.usableFrames
  found : ∀ base, result.1 = some base → ∃ start, base = start * frameSize ∧
    start + count ≤ pmm.totalFrames ∧
    (∀ i, i < count → getBit pmm.bitmap (start + i) = false) ∧
    result.2.bitmap = setBits pmm.bitmap start count true
  missed : result.1 = none → result.2.bitmap = pmm.bitmap

theorem setBits_one (bitmap : Bitmap) (start : Nat) (value : Bool) :
    setBits bitmap start 1 value = setBit bitmap start value := rfl

theorem allocFrameBelow_allocates (pmm : Pmm) (limit : Nat) :
    Allocates pmm 1 (pmm.allocFrameBelow limit) := by
  unfold allocFrameBelow
  dsimp only
  split
  · rename_i frame hfind
    have hfree := List.find?_some hfind
    have hrange := List.mem_range.mp (List.mem_of_find?_eq_some hfind)
    refine ⟨rfl, rfl, ?_, by simp⟩
    intro base hbase
    refine ⟨frame, (Option.some.inj hbase).symm, by omega, ?_, rfl⟩
    intro i hi
    have hzero : i = 0 := by omega
    subst hzero
    simpa using hfree
  · exact ⟨rfl, rfl, by simp, by simp⟩

theorem allocFrame_allocates (pmm : Pmm) : Allocates pmm 1 pmm.allocFrame := by
  unfold allocFrame
  dsimp only
  split
  · rename_i i hfind
    have hfree := List.find?_some hfind
    have hrange := List.mem_range.mp (List.mem_of_find?_eq_some hfind)
    have hframe : (pmm.nextFrame + i) % pmm.totalFrames < pmm.totalFrames :=
      Nat.mod_lt _ (by omega)
    refine ⟨rfl, rfl, ?_, by simp⟩
    intro base hbase
    refine ⟨_, (Option.some.inj hbase).symm, by omega, ?_, rfl⟩
    intro j hj
    have hzero : j = 0 := by omega
    subst hzero
    simpa using hfree
  · exact ⟨rfl, rfl, by simp, by simp⟩

theorem allocFrames_allocates (pmm : Pmm) (count : Nat) :
    Allocates pmm count (pmm.allocFrames count) := by
  unfold allocFrames
  split
  · rename_i start hfind
    have hfree := List.find?_some hfind
    have hrange := List.mem_range.mp (List.mem_of_find?_eq_some hfind)
    refine ⟨rfl, rfl, ?_, by simp⟩
    intro base hbase
    refine ⟨start, (Option.some.inj hbase).symm, by omega, ?_, rfl⟩
    intro i hi
    have hall := List.all_eq_true.mp hfree i (List.mem_range.mpr hi)
    simpa using hall
  · exact ⟨rfl, rfl, by simp, by simp⟩

variable {seen : List MemoryMapEntry} {s : Clients} {pmm : Pmm}

/-- The scan from the cursor wraps around once, so it passes every frame. -/
theorem allocFrame_none (hnone : pmm.allocFrame.1 = none) (frame : Nat)
    (hframe : frame < pmm.totalFrames) : getBit pmm.bitmap frame = true := by
  unfold allocFrame at hnone
  dsimp only at hnone
  split at hnone
  · contradiction
  · rename_i hfind
    have hall := List.find?_eq_none.mp hfind
    have hpos : 0 < pmm.totalFrames := Nat.zero_lt_of_lt hframe
    let offset := (frame + pmm.totalFrames - pmm.nextFrame % pmm.totalFrames) % pmm.totalFrames
    have hoffset : (pmm.nextFrame + offset) % pmm.totalFrames = frame := by
      have hcursor : pmm.nextFrame % pmm.totalFrames < pmm.totalFrames := Nat.mod_lt _ hpos
      have hsum : pmm.nextFrame % pmm.totalFrames +
          (frame + pmm.totalFrames - pmm.nextFrame % pmm.totalFrames) =
            frame + pmm.totalFrames := by omega
      calc (pmm.nextFrame + offset) % pmm.totalFrames
          = (pmm.nextFrame % pmm.totalFrames +
              (frame + pmm.totalFrames - pmm.nextFrame % pmm.totalFrames)) %
                pmm.totalFrames := by
            rw [Nat.add_mod, Nat.mod_mod, ← Nat.add_mod]
            conv_rhs => rw [Nat.add_mod, Nat.mod_mod, ← Nat.add_mod]
        _ = frame := by rw [hsum, Nat.add_mod_right, Nat.mod_eq_of_lt hframe]
    have hused := hall offset (List.mem_range.mpr (Nat.mod_lt _ hpos))
    rw [hoffset] at hused
    simpa using hused

theorem allocFrameBelow_none {limit : Nat} (hnone : (pmm.allocFrameBelow limit).1 = none)
    (frame : Nat) (hframe : frame < pmm.totalFrames)
    (hlimit : frame * frameSize + frameSize ≤ limit) : getBit pmm.bitmap frame = true := by
  unfold allocFrameBelow at hnone
  dsimp only at hnone
  split at hnone
  · contradiction
  · rename_i hfind
    have hbelow : frame < limit / frameSize := by
      rw [Nat.lt_div_iff_mul_lt (by decide)]
      simp only [frameSize] at hlimit ⊢
      omega
    have hused := List.find?_eq_none.mp hfind frame (List.mem_range.mpr (by omega))
    simpa using hused

theorem Range.covers_of_start (start count frame : Nat) :
    (Range.mk (start * frameSize) count).Covers frame ↔ start ≤ frame ∧ frame < start + count := by
  unfold Range.Covers Range.first
  rw [Nat.mul_div_cancel _ (by decide : 0 < frameSize)]

theorem Range.disjoint_symm {left right : Range} (h : left.Disjoint right) : right.Disjoint left :=
  fun frame hright hleft => h frame hleft hright

section Steps

variable {boot : Pmm} {s : Clients}

theorem Owned.take (owned : Owned boot s) {count : Nat} {result : Option Nat × Pmm}
    (allocates : Allocates s.pmm count result) : Owned boot (Clients.take s.held count result) := by
  obtain ⟨answer, pmm⟩ := result
  cases answer with
  | none =>
    have hsame : pmm.bitmap = s.pmm.bitmap := allocates.missed rfl
    exact {
      total := allocates.total.trans owned.total
      usable := allocates.usable.trans owned.usable
      length := by simpa [Clients.take, hsame] using owned.length
      bits := by simpa [Clients.take, hsame] using owned.bits
      disjoint := owned.disjoint
      aligned := owned.aligned
      within := owned.within }
  | some base =>
    obtain ⟨start, rfl, hbound, hfree, hbitmap⟩ := allocates.found base rfl
    have hbitmap : pmm.bitmap = setBits s.pmm.bitmap start count true := hbitmap
    have htotal := owned.total
    have hlength := owned.length
    have hrun : ∀ frame, start ≤ frame ∧ frame < start + count →
        frame < boot.totalFrames ∧ getBit boot.bitmap frame = false ∧
          ∀ range ∈ s.held, ¬range.Covers frame := by
      rintro frame ⟨hlow, hhigh⟩
      have hframe : frame < boot.totalFrames := by omega
      have hclear := hfree (frame - start) (by omega)
      rw [show start + (frame - start) = frame by omega] at hclear
      exact ⟨hframe, (owned.bits frame hframe).mp hclear⟩
    refine ⟨allocates.total.trans owned.total, allocates.usable.trans owned.usable,
      ?_, ?_, ?_, ?_, ?_⟩
    · simpa [Clients.take, hbitmap] using hlength
    · intro frame hframe
      simp only [Clients.take, hbitmap, List.forall_mem_cons, Range.covers_of_start]
      rw [getBit_setBits _ _ _ _ _ (by omega)]
      by_cases hin : start ≤ frame ∧ frame < start + count
      · simp [hin]
      · simpa [hin] using owned.bits frame hframe
    · refine List.Pairwise.cons ?_ owned.disjoint
      intro range hrange frame hcovers
      exact (hrun frame ((Range.covers_of_start ..).mp hcovers)).2.2 range hrange
    · intro range hrange
      rcases List.mem_cons.mp hrange with rfl | hold
      · exact Nat.mul_mod_left _ _
      · exact owned.aligned range hold
    · intro range hrange frame hcovers
      rcases List.mem_cons.mp hrange with rfl | hold
      · have := hrun frame ((Range.covers_of_start ..).mp hcovers)
        exact ⟨this.1, this.2.1⟩
      · exact owned.within range hold frame hcovers

theorem Owned.giveBack (owned : Owned boot s) {range : Range} (hrange : range ∈ s.held)
    {pmm : Pmm} (hpmm : pmm =
      { s.pmm with bitmap := setBits s.pmm.bitmap range.first range.count false }) :
    Owned boot ⟨pmm, s.held.erase range⟩ := by
  subst hpmm
  have hperm := List.perm_cons_erase hrange
  have hpair : (range :: s.held.erase range).Pairwise Range.Disjoint :=
    (hperm.pairwise_iff Range.disjoint_symm).mp owned.disjoint
  obtain ⟨hothers, hrest⟩ := List.pairwise_cons.mp hpair
  have hmem : ∀ other ∈ s.held.erase range, other ∈ s.held := fun _ => List.mem_of_mem_erase
  have hsplit : ∀ other ∈ s.held, other = range ∨ other ∈ s.held.erase range := fun other h =>
    List.mem_cons.mp (hperm.mem_iff.mp h)
  have hlength := owned.length
  have hbound : range.first + range.count ≤ s.pmm.bitmap.length * 8 ∨
      range.count = 0 := by
    rcases Nat.eq_zero_or_pos range.count with hzero | hpos
    · exact Or.inr hzero
    · have hlast := (owned.within range hrange
        (range.first + range.count - 1) ⟨by omega, by omega⟩).1
      omega
  have hget (frame : Nat) : getBit (setBits s.pmm.bitmap range.first range.count false) frame =
      if range.Covers frame then false else getBit s.pmm.bitmap frame := by
    rcases hbound with hbound | hzero
    · rw [getBit_setBits _ _ _ _ _ hbound]
      rfl
    · have hnone : ¬range.Covers frame := fun h => by have := h.2; have := h.1; omega
      rw [hzero, if_neg hnone]
      rfl
  refine ⟨owned.total, owned.usable, ?_, ?_, hrest,
    fun other h => owned.aligned other (hmem other h),
    fun other h => owned.within other (hmem other h)⟩
  · rw [length_setBits]
    exact hlength
  · intro frame hframe
    rw [hget]
    by_cases hcovers : range.Covers frame
    · simp only [hcovers, ↓reduceIte, true_iff]
      exact ⟨(owned.within range hrange frame hcovers).2,
        fun other h => hothers other h frame hcovers⟩
    · simp only [hcovers, ↓reduceIte]
      rw [owned.bits frame hframe]
      refine and_congr_right fun _ => ⟨fun h other hother => h other (hmem other hother), ?_⟩
      intro h other hother
      rcases hsplit other hother with rfl | hother
      · exact hcovers
      · exact h other hother

end Steps

theorem freeFrame_eq (pmm : Pmm) (addr : Nat) (hframe : addr / frameSize < pmm.totalFrames) :
    pmm.freeFrame addr =
      { pmm with bitmap := setBits pmm.bitmap (addr / frameSize) 1 false } := by
  unfold freeFrame
  dsimp only
  rw [if_pos hframe, setBits_one]

theorem freeFrames_eq (pmm : Pmm) (addr count : Nat)
    (hframes : addr / frameSize + count ≤ pmm.totalFrames) :
    pmm.freeFrames addr count =
      { pmm with bitmap := setBits pmm.bitmap (addr / frameSize) count false } := by
  unfold freeFrames
  induction count with
  | zero => rfl
  | succ count ih =>
    have hframe : (addr + count * frameSize) / frameSize = addr / frameSize + count :=
      Nat.add_mul_div_right _ _ (by decide)
    rw [List.range_succ, List.foldl_append, ih (by omega), List.foldl_cons, List.foldl_nil]
    unfold freeFrame setBits
    dsimp only
    rw [hframe, if_pos (by omega), List.range_succ, List.foldl_append]
    rfl

theorem Owned.covers_bound {boot : Pmm} (owned : Owned boot s) {range : Range}
    (hrange : range ∈ s.held) (hpos : 0 < range.count) :
    range.first + range.count ≤ s.pmm.totalFrames := by
  have hlast := (owned.within range hrange
    (range.first + range.count - 1) ⟨by omega, by omega⟩).1
  have := owned.total
  omega

theorem step_owned (boot : Pmm) (s : Clients) (op : Op) (t : Clients) (owned : Owned boot s)
    (hstep : step s op = some t) : Owned boot t := by
  cases op with
  | allocFrame =>
    cases Option.some.inj hstep
    exact owned.take (allocFrame_allocates _)
  | allocFrameBelow limit =>
    cases Option.some.inj hstep
    exact owned.take (allocFrameBelow_allocates _ _)
  | allocFrames count =>
    cases Option.some.inj hstep
    exact owned.take (allocFrames_allocates _ _)
  | freeFrame addr =>
    simp only [step] at hstep
    split at hstep
    · rename_i hheld
      cases Option.some.inj hstep
      exact owned.giveBack hheld (freeFrame_eq s.pmm addr (owned.covers_bound hheld Nat.one_pos))
    · contradiction
  | freeFrames addr count =>
    simp only [step] at hstep
    split at hstep
    · rename_i hheld
      cases Option.some.inj hstep
      rcases Nat.eq_zero_or_pos count with rfl | hpos
      · exact owned.giveBack hheld rfl
      · exact owned.giveBack hheld (freeFrames_eq s.pmm addr count (owned.covers_bound hheld hpos))
    · contradiction

/-! What boot leaves behind. -/

/-- The whole frame lies inside a conventional entry of the memory map. -/
def Conventional (memoryMap : List MemoryMapEntry) (frame : Nat) : Prop :=
  ∃ entry ∈ memoryMap, entry.ty = tyConventional ∧ entry.physStart ≤ frame * frameSize ∧
    frame * frameSize + frameSize ≤ entry.physStart + entry.pageCount * frameSize

/-- Some byte of the frame lies in the region `(start, size)`. -/
def Intersects (frame : Nat) (region : Nat × Nat) : Prop :=
  region.1 < frame * frameSize + frameSize ∧ frame * frameSize < region.1 + region.2

/-- The regions of `initMemory`'s `markUsed` calls, and the bitmap itself. -/
def reserved (boot : BootInfo) (allocated : Nat) : List (Nat × Nat) :=
  [(bitmapPtr boot allocated, bitmapSize boot), (0, boot.kernelEnd),
    (boot.kernelStart, boot.kernelEnd - boot.kernelStart), (boot.heap.start, boot.heap.size),
    (boot.framebuffer.start, boot.framebuffer.size), (boot.font.start, boot.font.size)]

/-- The bitmap covers the managed frames, its clear frames are conventional and
outside the given regions, and no more are clear than were counted usable. -/
structure Booted (memoryMap : List MemoryMapEntry) (regions : List (Nat × Nat)) (pmm : Pmm) :
    Prop where
  length : pmm.bitmap.length * 8 = pmm.totalFrames
  conventional : ∀ frame, frame < pmm.totalFrames → getBit pmm.bitmap frame = false →
    Conventional memoryMap frame
  unreserved : ∀ frame, frame < pmm.totalFrames → getBit pmm.bitmap frame = false →
    ∀ region ∈ regions, ¬Intersects frame region
  usable : freeCount pmm.bitmap pmm.totalFrames ≤ pmm.usableFrames

theorem Booted.markUsed {memoryMap : List MemoryMapEntry} {regions : List (Nat × Nat)}
    (booted : Booted memoryMap regions pmm) (physStart size : Nat)
    (hfits : physStart + size < 2 ^ 64) :
    Booted memoryMap ((physStart, size) :: regions) (pmm.markUsed physStart size) := by
  have htotal := booted.length.symm
  have hget := getBit_markRegion pmm.bitmap pmm.totalFrames physStart size true htotal
  have hshrinks : ∀ frame, frame < pmm.totalFrames →
      getBit (pmm.markUsed physStart size).bitmap frame = false →
        getBit pmm.bitmap frame = false ∧ ¬Intersects frame (physStart, size) := by
    intro frame hframe hclear
    rw [Pmm.markUsed, hget] at hclear
    split at hclear
    · contradiction
    · rename_i hout
      refine ⟨hclear, fun hmeets => hout ?_⟩
      obtain ⟨hlow, hhigh⟩ := hmeets
      simp only [regionEnd, divCeil, wrap, frameSize] at hlow hhigh ⊢
      omega
  refine ⟨?_, ?_, ?_, ?_⟩
  · rw [Pmm.markUsed, length_markRegion _ _ _ _ _ htotal]
    exact booted.length
  · intro frame hframe hclear
    exact booted.conventional frame hframe (hshrinks frame hframe hclear).1
  · intro frame hframe hclear region hregion
    rcases List.mem_cons.mp hregion with rfl | hold
    · exact (hshrinks frame hframe hclear).2
    · exact booted.unreserved frame hframe (hshrinks frame hframe hclear).1 region hold
  · exact (freeCount_mono fun frame hframe hclear => (hshrinks frame hframe hclear).1).trans
      booted.usable

/-- A page-aligned entry is not rounded outward: every frame it clears is whole. -/
theorem conventional_of_entry (entry : MemoryMapEntry) (totalFrames frame : Nat)
    (hlow : entry.physStart / frameSize ≤ frame)
    (hhigh : frame < regionEnd totalFrames entry.physStart (wrap (entry.pageCount * frameSize))) :
    entry.physStart ≤ frame * frameSize ∧
      frame * frameSize + frameSize ≤ entry.physStart + entry.pageCount * frameSize := by
  have haligned := entry.aligned
  simp only [regionEnd, divCeil, wrap, frameSize] at *
  omega

/-- The loop invariant of `init`: the clear frames are conventional and counted. -/
structure Counted (totalFrames : Nat) (seen : List MemoryMapEntry) (state : Bitmap × Nat) :
    Prop where
  length : state.1.length * 8 = totalFrames
  conventional : ∀ frame, frame < totalFrames → getBit state.1 frame = false →
    Conventional seen frame
  usable : freeCount state.1 totalFrames = state.2

theorem Conventional.append {frame : Nat} (h : Conventional seen frame) (entry : MemoryMapEntry) :
    Conventional (seen ++ [entry]) frame := by
  obtain ⟨old, hold, hrest⟩ := h
  exact ⟨old, List.mem_append_left _ hold, hrest⟩

variable {state : Bitmap × Nat} {totalFrames : Nat} {boot : BootInfo} {allocated : Nat}

theorem Counted.markEntry (counted : Counted totalFrames seen state) (entry : MemoryMapEntry) :
    Counted totalFrames (seen ++ [entry]) (Pmm.markEntry totalFrames state entry) := by
  have htotal := counted.length.symm
  unfold Pmm.markEntry
  split
  · rename_i hty
    refine ⟨?_, ?_, ?_⟩
    · rw [length_markRegion _ _ _ _ _ htotal]
      exact counted.length
    · intro frame hframe hclear
      rw [getBit_markRegion _ _ _ _ _ htotal] at hclear
      split at hclear
      · rename_i hin
        exact ⟨entry, by simp, hty, conventional_of_entry entry totalFrames frame hin.1 hin.2⟩
      · exact (counted.conventional frame hframe hclear).append entry
    · rw [freeCount_markRegion_clear _ _ _ _ htotal, counted.usable]
  · exact ⟨counted.length,
      fun frame hframe hclear => (counted.conventional frame hframe hclear).append entry,
      counted.usable⟩

theorem Counted.entries (memoryMap : List MemoryMapEntry)
    (counted : Counted totalFrames seen state) :
    Counted totalFrames (seen ++ memoryMap) (memoryMap.foldl (Pmm.markEntry totalFrames) state) := by
  induction memoryMap generalizing seen state with
  | nil => simpa using counted
  | cons entry rest ih => simpa using ih (counted.markEntry entry)

theorem counted_ones (bitmapSize : Nat) :
    Counted (bitmapSize * 8) [] (List.replicate bitmapSize 0xff#8, 0) := by
  refine ⟨by simp, ?_, ?_⟩
  · intro frame hframe hclear
    rw [getBit_replicate_ones _ _ hframe] at hclear
    contradiction
  · unfold freeCount
    rw [List.countP_eq_zero]
    intro frame hframe
    simp [getBit_replicate_ones _ _ (List.mem_range.mp hframe)]

theorem init_booted (bitmap size : Nat) (memoryMap : List MemoryMapEntry)
    (hpages : size % frameSize = 0) (hfits : bitmap + size < 2 ^ 64) :
    Booted memoryMap [(bitmap, size)] (Pmm.init bitmap size memoryMap) := by
  have counted := (counted_ones size).entries memoryMap
  have hsize : wrap (divCeil size frameSize * frameSize) = size := by
    simp only [wrap, divCeil, frameSize] at *
    omega
  have hbooted : Booted memoryMap []
      ⟨(memoryMap.foldl (markEntry (size * 8)) (List.replicate size 0xff#8, 0)).1, size * 8,
        (memoryMap.foldl (markEntry (size * 8)) (List.replicate size 0xff#8, 0)).2, 0⟩ :=
    ⟨counted.length, counted.conventional, by simp, counted.usable.le⟩
  have hmarked := hbooted.markUsed bitmap size hfits
  unfold Pmm.init
  dsimp only
  rw [hsize]
  exact hmarked

theorem initMemory_booted (boot : BootInfo) (allocated : Nat)
    (hbitmap : bitmapPtr boot allocated + bitmapSize boot < 2 ^ 64) :
    Booted boot.memoryMap (reserved boot allocated).reverse (initMemory boot allocated) := by
  have hend := boot.kernel_fits
  have hle := boot.kernel_le
  have hpages : bitmapSize boot % frameSize = 0 := Nat.mul_mod_left _ _
  exact (((((init_booted _ _ boot.memoryMap hpages hbitmap).markUsed 0 boot.kernelEnd
    (by omega)).markUsed boot.kernelStart (boot.kernelEnd - boot.kernelStart)
    (by omega)).markUsed boot.heap.start boot.heap.size boot.heap.fits).markUsed
    boot.framebuffer.start boot.framebuffer.size boot.framebuffer.fits).markUsed
    boot.font.start boot.font.size boot.font.fits

/-! The allocator's guarantees along every run. -/

def FreeFrame (pmm : Pmm) (frame : Nat) : Prop :=
  frame < pmm.totalFrames ∧ getBit pmm.bitmap frame = false

structure HeldSafely (boot : BootInfo) (allocated : Nat) (held : List Range) : Prop where
  disjoint : held.Pairwise Range.Disjoint
  aligned : ∀ range ∈ held, range.base % frameSize = 0
  conventional : ∀ range ∈ held, ∀ frame, range.Covers frame →
    Conventional boot.memoryMap frame
  unreserved : ∀ range ∈ held, ∀ frame, range.Covers frame →
    ∀ region ∈ reserved boot allocated, ¬Intersects frame region

theorem owned_boot (boot : BootInfo) (allocated : Nat)
    (hbitmap : bitmapPtr boot allocated + bitmapSize boot < 2 ^ 64) :
    Owned (initMemory boot allocated) ⟨initMemory boot allocated, []⟩ where
  total := rfl
  usable := rfl
  length := (initMemory_booted boot allocated hbitmap).length
  bits := by simp
  disjoint := List.Pairwise.nil
  aligned := by simp
  within := by simp

theorem Owned.heldSafely
    (booted : Booted boot.memoryMap (reserved boot allocated).reverse (initMemory boot allocated))
    (owned : Owned (initMemory boot allocated) s) : HeldSafely boot allocated s.held where
  disjoint := owned.disjoint
  aligned := owned.aligned
  conventional := fun range hrange frame hcovers =>
    have hfree := owned.within range hrange frame hcovers
    booted.conventional frame hfree.1 hfree.2
  unreserved := fun range hrange frame hcovers region hregion =>
    have hfree := owned.within range hrange frame hcovers
    booted.unreserved frame hfree.1 hfree.2 region (List.mem_reverse.mpr hregion)

theorem Owned.stats_balance
    (booted : Booted boot.memoryMap (reserved boot allocated).reverse (initMemory boot allocated))
    (owned : Owned (initMemory boot allocated) s) :
    s.pmm.stats.usedFrames + s.pmm.stats.freeFrames = s.pmm.stats.totalFrames := by
  have hfree : freeCount s.pmm.bitmap s.pmm.totalFrames ≤ s.pmm.usableFrames := by
    rw [owned.total, owned.usable]
    refine (freeCount_mono fun frame hframe hclear => ?_).trans booted.usable
    exact ((owned.bits frame hframe).mp hclear).1
  unfold stats
  dsimp only
  unfold freeCount at hfree
  omega

theorem frame_allocator_safe (boot : BootInfo) (allocated : Nat)
    (hbitmap : bitmapPtr boot allocated + bitmapSize boot < 2 ^ 64) (ops : List Op) (s : Clients)
    (run : Lib.Run (fun s op t => step s op = some t) ⟨initMemory boot allocated, []⟩ ops s) :
    HeldSafely boot allocated s.held ∧
      (∀ frame, FreeFrame s.pmm frame ↔
        FreeFrame (initMemory boot allocated) frame ∧ ∀ range ∈ s.held, ¬range.Covers frame) ∧
      (s.pmm.allocFrame.1 = none → ∀ frame, ¬FreeFrame s.pmm frame) ∧
      (∀ limit, (s.pmm.allocFrameBelow limit).1 = none →
        ∀ frame, frame * frameSize + frameSize ≤ limit → ¬FreeFrame s.pmm frame) ∧
      s.pmm.stats.usedFrames + s.pmm.stats.freeFrames = s.pmm.stats.totalFrames := by
  have booted := initMemory_booted boot allocated hbitmap
  have owned : Owned (initMemory boot allocated) s :=
    run.preserves (step_owned (initMemory boot allocated)) (owned_boot boot allocated hbitmap)
  refine ⟨owned.heldSafely booted, ?_, ?_, ?_, owned.stats_balance booted⟩
  · intro frame
    unfold FreeFrame
    rw [owned.total, and_assoc]
    exact and_congr_right fun hframe => owned.bits frame hframe
  · rintro hnone frame ⟨hframe, hclear⟩
    rw [allocFrame_none hnone frame hframe] at hclear
    contradiction
  · rintro limit hnone frame hlimit ⟨hframe, hclear⟩
    rw [allocFrameBelow_none hnone frame hframe hlimit] at hclear
    contradiction

/-- A machine with 16 MiB of conventional memory above the first MiB. -/
def smallBoot : BootInfo where
  memoryMap := [⟨0, 256, 7, rfl⟩, ⟨0x100000, 4096, 7, rfl⟩, ⟨0x1100000, 16, 0, rfl⟩]
  kernelStart := 0x100000
  kernelEnd := 0x200000
  heap := ⟨0x400000, 0x200000, by decide⟩
  framebuffer := ⟨0x80000000, 0x300000, by decide⟩
  font := ⟨0x300000, 0x1234, by decide⟩
  kernel_le := by decide
  kernel_fits := by decide

theorem frame_allocator_safe_smallBoot :
    bitmapPtr smallBoot 0x400000 + bitmapSize smallBoot < 2 ^ 64 ∧
      ∃ s, Lib.Run (fun s op t => step s op = some t) ⟨initMemory smallBoot 0x400000, []⟩
          [.allocFrame, .allocFrames 16, .allocFrameBelow 0x100000] s ∧
        HeldSafely smallBoot 0x400000 s.held := by
  have hbitmap : bitmapPtr smallBoot 0x400000 + bitmapSize smallBoot < 2 ^ 64 := by decide
  obtain ⟨s, run⟩ : ∃ s, Lib.Run (fun s op t => step s op = some t)
      ⟨initMemory smallBoot 0x400000, []⟩
      [.allocFrame, .allocFrames 16, .allocFrameBelow 0x100000] s :=
    ⟨_, .cons rfl (.cons rfl (.cons rfl (.nil _)))⟩
  exact ⟨hbitmap, s, run, (frame_allocator_safe smallBoot 0x400000 hbitmap _ s run).1⟩

end KazuOS.Memory.FrameOwnership
