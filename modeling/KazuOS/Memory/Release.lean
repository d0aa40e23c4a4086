import KazuOS.Memory.AddressSpaces
import KazuOS.Memory.Pmm

/-! What giving memory back does: which frames become free, and which pages of an
address space stop being mapped. -/
namespace KazuOS.Memory

open Pmm

/-- The frame allocator before and after the frames in `P` were given back. -/
structure Frees (P : Nat → Prop) (a b : Pmm) : Prop where
  total : b.totalFrames = a.totalFrames
  length : b.bitmap.length = a.bitmap.length
  used : ∀ frame, getBit b.bitmap frame = true ↔ getBit a.bitmap frame = true ∧ ¬P frame

/-- The bitmap has one bit for each frame. -/
def Pmm.Sized (pmm : Pmm) : Prop := pmm.totalFrames = pmm.bitmap.length * 8

section Frees

variable {P Q : Nat → Prop} {a b c : Pmm}

theorem Frees.refl (a : Pmm) : Frees (fun _ => False) a a :=
  ⟨rfl, rfl, fun _ => by simp⟩

theorem Frees.trans (h : Frees P a b) (h' : Frees Q b c) : Frees (fun f => P f ∨ Q f) a c := by
  refine ⟨h'.total.trans h.total, h'.length.trans h.length, ?_⟩
  intro frame
  rw [h'.used, h.used, not_or, and_assoc]

theorem Frees.congr (h : Frees P a b) (hPQ : ∀ frame, P frame ↔ Q frame) : Frees Q a b := by
  have heq : P = Q := by
    funext frame
    exact propext (hPQ frame)
  exact heq ▸ h

theorem Frees.sized (h : Frees P a b) (ha : a.Sized) : b.Sized := by
  unfold Pmm.Sized
  rw [h.total, h.length]
  exact ha

theorem getBit_of_le {bitmap : Bitmap} {frame : Nat} (h : bitmap.length * 8 ≤ frame) :
    getBit bitmap frame = false := by
  have hbyte : bitmap.length ≤ frame / 8 := by omega
  rw [getBit_eq, List.getD_eq_default _ _ hbyte]
  simp

theorem frees_freeFrame (h : a.Sized) (addr : Nat) :
    Frees (· = addr / frameSize) a (a.freeFrame addr) := by
  unfold Pmm.Sized at h
  unfold freeFrame
  dsimp only
  split
  · rename_i hframe
    refine ⟨rfl, length_setBit a.bitmap _ false, ?_⟩
    intro frame
    rw [getBit_setBit _ _ _ _ (h ▸ hframe)]
    split
    · rename_i heq
      simp [heq]
    · rename_i hne
      simp [hne]
  · rename_i hframe
    refine ⟨rfl, rfl, ?_⟩
    intro frame
    by_cases heq : frame = addr / frameSize
    · rw [heq, getBit_of_le (by omega)]
      simp
    · simp [heq]

theorem frees_foldl (h : a.Sized) (addrs : List Nat) :
    Frees (fun frame => ∃ addr ∈ addrs, frame = addr / frameSize) a (addrs.foldl freeFrame a) := by
  induction addrs generalizing a with
  | nil => exact (Frees.refl a).congr fun frame => by simp
  | cons addr rest ih =>
    have hfirst := frees_freeFrame h addr
    exact (hfirst.trans (ih (hfirst.sized h))).congr fun frame => by simp

/-- The addresses of consecutive frames. -/
def frameAddrs (addr count : Nat) : List Nat := (List.range count).map (addr + · * frameSize)

theorem freeFrames_eq_foldl (a : Pmm) (addr count : Nat) :
    a.freeFrames addr count = (frameAddrs addr count).foldl freeFrame a := by
  rw [frameAddrs, List.foldl_map]
  rfl

end Frees

namespace AddressSpaces

open Vmm Lib

variable {virt virt' : BitVec 64}

theorem path_eq_of_page_eq (h : page virt = page virt') : path virt = path virt' := by
  unfold page at h
  simp only [path, List.cons.injEq, Fin.ext_iff, pml4Index, pdptIndex, pdIndex, ptIndex,
    index_val, and_true]
  omega

/-- Addresses of one page are translated alike. -/
theorem translate_of_page_eq (h : page virt = page virt') (vm : Vmm)
    (cr3 : BitVec 64) : vm.translate cr3 virt = vm.translate cr3 virt' := by
  have hpath := path_eq_of_page_eq h
  simp only [path, List.cons.injEq] at hpath
  obtain ⟨h4, h3, h2, h1, -⟩ := hpath
  unfold Vmm.translate
  rw [h4, h3, h2, h1]

/-- The page tables before and after a list of pages of one address space was unmapped. -/
structure Clears (roots : List (BitVec 64)) (cr3 : BitVec 64) (pages : List (BitVec 64))
    (vm vm' : Vmm) : Prop where
  separated : ∃ level, Separated vm' roots level
  unmapped : ∀ virt, (∃ v ∈ pages, page v = page virt) → vm'.translate cr3 virt = none
  other : ∀ virt, UserAddress virt → (∀ v ∈ pages, page v ≠ page virt) →
    vm'.translate cr3 virt = vm.translate cr3 virt

theorem clears_foldl {vm : Vmm} {roots : List (BitVec 64)} {level : BitVec 64 → Nat}
    (sep : Separated vm roots level) {cr3 : BitVec 64} (hroot : cr3 &&& addrMask ∈ roots)
    {pages : List (BitVec 64)} (huser : ∀ v ∈ pages, UserAddress v) :
    Clears roots cr3 pages vm (pages.foldl (fun vm v => vm.unmapPage cr3 v) vm) := by
  induction pages generalizing vm level with
  | nil =>
    refine ⟨⟨level, sep⟩, ?_, fun _ _ _ => rfl⟩
    rintro virt ⟨v, hv, -⟩
    cases hv
  | cons v rest ih =>
    have hunmaps := unmapPage_unmaps sep hroot (huser v List.mem_cons_self)
    obtain ⟨level', sep'⟩ := hunmaps.separated
    have hrest := ih sep' fun w hw => huser w (List.mem_cons_of_mem v hw)
    rw [List.foldl_cons]
    refine ⟨hrest.separated, ?_, ?_⟩
    · rintro virt ⟨w, hw, hpage⟩
      by_cases hlater : ∃ u ∈ rest, page u = page virt
      · exact hrest.unmapped virt hlater
      · obtain rfl : w = v := by
          rcases List.mem_cons.mp hw with rfl | hw
          · rfl
          · exact absurd ⟨w, hw, hpage⟩ hlater
        rw [translate_of_page_eq hpage.symm, hrest.other w (huser w List.mem_cons_self)]
        · exact hunmaps.unmapped
        · intro u hu hsame
          exact hlater ⟨u, hu, hsame.trans hpage⟩
    · intro virt hvirt hne
      rw [hrest.other virt hvirt fun w hw => hne w (List.mem_cons_of_mem v hw)]
      exact hunmaps.other cr3 virt hroot hvirt (.inr (hne v List.mem_cons_self).symm)

section Clears

variable {roots : List (BitVec 64)} {cr3 : BitVec 64} {ps qs : List (BitVec 64)} {vm vm' vm'' : Vmm}

theorem Clears.trans (h : Clears roots cr3 ps vm vm') (h' : Clears roots cr3 qs vm' vm'')
    (huser : ∀ v ∈ ps, UserAddress v) : Clears roots cr3 (ps ++ qs) vm vm'' := by
  refine ⟨h'.separated, ?_, ?_⟩
  · rintro virt ⟨v, hv, hpage⟩
    by_cases hlater : ∃ w ∈ qs, page w = page virt
    · exact h'.unmapped virt hlater
    · have hearlier : v ∈ ps := by
        rcases List.mem_append.mp hv with hv | hv
        · exact hv
        · exact absurd ⟨v, hv, hpage⟩ hlater
      rw [translate_of_page_eq hpage.symm, h'.other v (huser v hearlier)]
      · exact h.unmapped v ⟨v, hearlier, rfl⟩
      · intro w hw hsame
        exact hlater ⟨w, hw, hsame.trans hpage⟩
  · intro virt hvirt hne
    rw [h'.other virt hvirt fun w hw => hne w (List.mem_append_right ps hw)]
    exact h.other virt hvirt fun w hw => hne w (List.mem_append_left qs hw)

theorem Clears.congr (h : Clears roots cr3 ps vm vm') (hmem : ∀ v, v ∈ ps ↔ v ∈ qs) :
    Clears roots cr3 qs vm vm' := by
  refine ⟨h.separated, ?_, ?_⟩
  · rintro virt ⟨v, hv, hpage⟩
    exact h.unmapped virt ⟨v, (hmem v).mpr hv, hpage⟩
  · intro virt hvirt hne
    exact h.other virt hvirt fun v hv => hne v ((hmem v).mp hv)

end Clears

end AddressSpaces

end KazuOS.Memory
