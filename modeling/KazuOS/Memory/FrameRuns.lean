import KazuOS.Memory.FrameOwnership
import KazuOS.Memory.Release

/-! Runs of frames that one caller takes and may give back. -/
namespace KazuOS.Memory

open Pmm FrameOwnership

/-- The frame allocator before and after a run of free frames was taken. -/
structure TakesRun (start count : Nat) (a b : Pmm) : Prop where
  total : b.totalFrames = a.totalFrames
  length : b.bitmap.length = a.bitmap.length
  bound : start + count ≤ a.totalFrames
  free : ∀ frame, start ≤ frame → frame < start + count → getBit a.bitmap frame = false
  used : ∀ frame, getBit b.bitmap frame = true ↔
    getBit a.bitmap frame = true ∨ start ≤ frame ∧ frame < start + count

variable {a b c : Pmm} {start start' count count' : Nat}

theorem TakesRun.sized (h : TakesRun start count a b) (ha : a.Sized) : b.Sized := by
  unfold Pmm.Sized
  rw [h.total, h.length]
  exact ha

theorem allocFrames_takes (ha : a.Sized) {base : Nat}
    (halloc : a.allocFrames count = (some base, b)) :
    ∃ start, base = start * frameSize ∧ TakesRun start count a b := by
  unfold Pmm.Sized at ha
  have hallocates := allocFrames_allocates a count
  rw [halloc] at hallocates
  obtain ⟨start, hbase, hbound, hfree, hbitmap⟩ := hallocates.found base rfl
  refine ⟨start, hbase, hallocates.total, ?_, hbound, ?_, ?_⟩
  · rw [hbitmap, length_setBits]
  · intro frame hle hlt
    have hat := hfree (frame - start) (by omega)
    rwa [Nat.add_sub_cancel' hle] at hat
  · intro frame
    rw [hbitmap, getBit_setBits _ _ _ _ _ (by omega)]
    split
    · rename_i hin
      simp [hin]
    · rename_i hout
      simp [hout]

theorem allocFrames_missed (halloc : a.allocFrames count = (none, b)) (frame : Nat) :
    FreeFrame b frame ↔ FreeFrame a frame := by
  have hallocates := allocFrames_allocates a count
  rw [halloc] at hallocates
  have hbitmap : b.bitmap = a.bitmap := hallocates.missed rfl
  have htotal : b.totalFrames = a.totalFrames := hallocates.total
  rw [FreeFrame, FreeFrame, hbitmap, htotal]

/-- A frame that was taken is not free any more. -/
theorem TakesRun.not_free (h : TakesRun start count a b) (hcount : 0 < count) :
    FreeFrame a start ∧ ¬FreeFrame b start := by
  have hbound := h.bound
  refine ⟨⟨by omega, h.free start (Nat.le_refl _) (by omega)⟩, ?_⟩
  rintro ⟨-, hbit⟩
  have hused := (h.used start).mpr (.inr ⟨Nat.le_refl _, by omega⟩)
  rw [hbit] at hused
  cases hused

theorem TakesRun.free_sub (h : TakesRun start count a b) {frame : Nat} (hfree : FreeFrame b frame) :
    FreeFrame a frame := by
  refine ⟨h.total ▸ hfree.1, ?_⟩
  by_contra hbit
  have hused := (h.used frame).mpr (.inl (by simpa using hbit))
  rw [hfree.2] at hused
  cases hused

theorem frees_freeFrames (ha : a.Sized) (start count : Nat) :
    Frees (fun frame => start ≤ frame ∧ frame < start + count) a
      (a.freeFrames (start * frameSize) count) := by
  have hpos : 0 < frameSize := by decide
  rw [freeFrames_eq_foldl]
  refine (frees_foldl ha (frameAddrs (start * frameSize) count)).congr ?_
  intro frame
  have haddr : ∀ i, (start * frameSize + i * frameSize) / frameSize = start + i := by
    intro i
    rw [← Nat.add_mul, Nat.mul_div_cancel _ hpos]
  constructor
  · rintro ⟨addr, hmem, rfl⟩
    obtain ⟨i, hi, rfl⟩ := List.mem_map.mp hmem
    rw [haddr]
    have hlt := List.mem_range.mp hi
    omega
  · rintro ⟨hle, hlt⟩
    refine ⟨_, List.mem_map.mpr ⟨frame - start, List.mem_range.mpr (by omega), rfl⟩, ?_⟩
    rw [haddr]
    omega

/-- Two runs that were taken one after the other and given back. -/
theorem free_of_frees (first : TakesRun start count a b) (second : TakesRun start' count' b c)
    (hc : c.Sized) (frame : Nat) :
    FreeFrame ((c.freeFrames (start * frameSize) count).freeFrames (start' * frameSize) count')
      frame ↔ FreeFrame a frame := by
  have hfirst := frees_freeFrames hc start count
  have hboth := hfirst.trans (frees_freeFrames (hfirst.sized hc) start' count')
  have htotal := hboth.total.trans (second.total.trans first.total)
  have hused := hboth.used frame
  rw [second.used, first.used] at hused
  have hgiven : getBit ((c.freeFrames (start * frameSize) count).freeFrames
      (start' * frameSize) count').bitmap frame = true ↔ getBit a.bitmap frame = true := by
    rw [hused]
    constructor
    · tauto
    · intro hbit
      refine ⟨.inl (.inl hbit), ?_⟩
      rintro (⟨hle, hlt⟩ | ⟨hle, hlt⟩)
      · rw [first.free frame hle hlt] at hbit
        cases hbit
      · have hlater := second.free frame hle hlt
        rw [(first.used frame).mpr (.inl hbit)] at hlater
        cases hlater
  rw [FreeFrame, FreeFrame, htotal, ← Bool.not_eq_true, ← Bool.not_eq_true, hgiven]

/-! First fit. -/

/-- A run of free frames among those that are managed. -/
def FreeRun (pmm : Pmm) (count start : Nat) : Prop :=
  start + count ≤ pmm.totalFrames ∧ ∀ i < count, getBit pmm.bitmap (start + i) = false

/-- A call found a run if there is one, the lowest, and took the frames of it and no others. -/
structure FirstFit (a : Pmm) (count : Nat) (answer : Option Nat × Pmm) : Prop where
  complete : answer.1.isSome ↔ ∃ start, FreeRun a count start
  lowest : ∀ base, answer.1 = some base → ∃ start, base = start * frameSize ∧
    FreeRun a count start ∧ (∀ earlier < start, ¬FreeRun a count earlier) ∧
    ∀ frame, getBit answer.2.bitmap frame =
      if start ≤ frame ∧ frame < start + count then true else getBit a.bitmap frame
  missed : answer.1 = none → answer.2 = a

/-- The loop stops before the run that ends with the last frame. -/
def OnlyLastRun (pmm : Pmm) (count : Nat) : Prop :=
  FreeRun pmm count (pmm.totalFrames - count) ∧
    ∀ start < pmm.totalFrames - count, ¬FreeRun pmm count start

theorem all_free_iff (pmm : Pmm) (count start : Nat) :
    ((List.range count).all fun i => !getBit pmm.bitmap (start + i)) = true ↔
      ∀ i < count, getBit pmm.bitmap (start + i) = false := by
  simp only [List.all_eq_true, List.mem_range, Bool.not_eq_eq_eq_not, Bool.not_true]

theorem allocFrames_firstFit_iff (ha : a.Sized) (count : Nat) :
    FirstFit a count (a.allocFrames count) ↔ ¬OnlyLastRun a count := by
  unfold Pmm.Sized at ha
  unfold allocFrames
  split
  · rename_i start hfind
    obtain ⟨hall, hmem, hbefore⟩ := List.find?_range_eq_some.mp hfind
    have hlt := List.mem_range.mp hmem
    have hrun : FreeRun a count start := ⟨by omega, (all_free_iff a count start).mp hall⟩
    refine iff_of_true ⟨iff_of_true rfl ⟨start, hrun⟩, ?_, nofun⟩ fun h => h.2 start hlt hrun
    rintro base ⟨⟩
    refine ⟨start, rfl, hrun, ?_, ?_⟩
    · intro earlier hearlier hfree
      have hused := hbefore earlier hearlier
      rw [(all_free_iff a count earlier).mpr hfree.2] at hused
      cases hused
    · exact fun frame => getBit_setBits _ _ _ _ _ (by omega)
  · rename_i hfind
    have hnone : ∀ start < a.totalFrames - count, ¬FreeRun a count start := by
      intro start hlt hfree
      have hused := List.find?_range_eq_none.mp hfind start hlt
      rw [(all_free_iff a count start).mpr hfree.2] at hused
      cases hused
    constructor
    · intro h hlast
      exact absurd (h.complete.mpr ⟨_, hlast.1⟩) Bool.false_ne_true
    · intro hlast
      refine ⟨⟨nofun, ?_⟩, nofun, fun _ => rfl⟩
      rintro ⟨start, hfree⟩
      -- a free run would start behind the loop, so it would be the last
      have hbound := hfree.1
      by_cases hlt : start < a.totalFrames - count
      · exact absurd hfree (hnone start hlt)
      · obtain rfl : start = a.totalFrames - count := by omega
        exact absurd ⟨hfree, hnone⟩ hlast

/-- Two of eight frames, with the last six in use. -/
theorem allocFrames_firstFit_iff_two :
    FirstFit ⟨[0xfc], 8, 8, 0⟩ 2 (Pmm.allocFrames ⟨[0xfc], 8, 8, 0⟩ 2) := by
  refine (allocFrames_firstFit_iff (a := ⟨[0xfc], 8, 8, 0⟩) rfl 2).mpr fun h => ?_
  exact absurd (h.1.2 0 (by decide)) (by decide)

/-- All eight frames are free, and a request for eight is refused. -/
theorem last_run_is_missed :
    (Pmm.allocFrames ⟨[0], 8, 8, 0⟩ 8).1 = none ∧ FreeRun ⟨[0], 8, 8, 0⟩ 8 0 := by
  refine ⟨by decide, by decide, ?_⟩
  decide

end KazuOS.Memory
