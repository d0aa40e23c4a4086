import KazuOS.Kernel.State
import KazuOS.Memory.PhysicalBytes
import KazuOS.Memory.Release

/-! When the kernel trusts a pointer that a program gave it. The code checks pages; what it
promises is about bytes. -/
namespace KazuOS.Kernel

open KazuOS.Memory KazuOS.Memory.AddressSpaces

/-- The loop of `validate_range_in` from a page on. No answer when the rounds run out. -/
def validatePages (vm : Vmm) (cr3 last : BitVec 64) (write : Bool) : Nat → BitVec 64 → Option Bool
  | 0, _ => none
  | fuel + 1, page =>
      if !userAccessible vm cr3 page write then some false
      else if page = last then some true
      else validatePages vm cr3 last write fuel (page + 4096)

def validateRangeLoop (vm : Vmm) (cr3 ptr len : BitVec 64) (write : Bool) (fuel : Nat) :
    Option Bool :=
  if len = 0 then some true
  else if maxTransfer < len.toNat then some false
  else if 2 ^ 64 ≤ ptr.toNat + len.toNat then some false
  else
    let stop := ptr + len
    if ptr.toNat < userMin ∨ userMax < stop.toNat then some false
    else validatePages vm cr3 (pageBase (stop - 1)) write fuel (pageBase ptr)

/-- The entries that the walk for an address reads, from the root down. -/
def walkFrom (vm : Vmm) (virt : BitVec 64) : List Nat → BitVec 64 → List (BitVec 64)
  | [], _ => []
  | shift :: shifts, table =>
      let entry := vm.mem table (index virt shift)
      entry :: walkFrom vm virt shifts (entry &&& addrMask)

def walk (vm : Vmm) (cr3 virt : BitVec 64) : List (BitVec 64) :=
  walkFrom vm virt [39, 30, 21, 12] (cr3 &&& addrMask)

/-- All levels are present and let programs in. -/
def Allows (vm : Vmm) (cr3 virt : BitVec 64) (write : Bool) : Prop :=
  ∀ entry ∈ walk vm cr3 virt, entry &&& present ≠ 0 ∧ entry &&& user = user ∧
    (write = true → entry &&& writable = writable)

theorem and_or_eq_iff (entry a b : BitVec 64) :
    entry &&& (a ||| b) = a ||| b ↔ entry &&& a = a ∧ entry &&& b = b := by
  constructor
  · intro h
    have hbit : ∀ i, (entry.getLsbD i && (a.getLsbD i || b.getLsbD i)) =
        (a.getLsbD i || b.getLsbD i) := by
      intro i
      have hat := congrArg (fun word => word.getLsbD i) h
      simpa only [BitVec.getLsbD_and, BitVec.getLsbD_or] using hat
    constructor
    · apply BitVec.eq_of_getLsbD_eq
      intro i _
      rw [BitVec.getLsbD_and]
      have hat := hbit i
      cases ha : a.getLsbD i <;> simp_all
    · apply BitVec.eq_of_getLsbD_eq
      intro i _
      rw [BitVec.getLsbD_and]
      have hat := hbit i
      cases hb : b.getLsbD i <;> simp_all
  · rintro ⟨ha, hb⟩
    rw [BitVec.and_or_distrib_left, ha, hb]

theorem accessibleFrom_iff (vm : Vmm) (need virt : BitVec 64) (shifts : List Nat)
    (table : BitVec 64) :
    accessibleFrom vm need virt shifts table = true ↔
      ∀ entry ∈ walkFrom vm virt shifts table, entry &&& present ≠ 0 ∧ entry &&& need = need := by
  induction shifts generalizing table with
  | nil => simp [accessibleFrom, walkFrom]
  | cons shift shifts ih =>
    rw [accessibleFrom, walkFrom, List.forall_mem_cons, ← ih, Bool.and_eq_true, Bool.and_eq_true,
      decide_eq_true_eq, decide_eq_true_eq]

theorem userAccessible_iff (vm : Vmm) (cr3 virt : BitVec 64) (write : Bool) :
    userAccessible vm cr3 virt write = true ↔ Allows vm cr3 virt write := by
  rw [userAccessible, accessibleFrom_iff]
  refine forall₂_congr fun entry _ => and_congr_right fun _ => ?_
  rw [and_or_eq_iff]
  cases write <;> simp

/-- Bytes of one page are reached by one walk. -/
theorem allows_of_page_eq {virt virt' : BitVec 64} (h : page virt = page virt') (vm : Vmm)
    (cr3 : BitVec 64) (write : Bool) : Allows vm cr3 virt write ↔ Allows vm cr3 virt' write := by
  have hpath := path_eq_of_page_eq h
  simp only [path, List.cons.injEq] at hpath
  obtain ⟨h4, h3, h2, h1, -⟩ := hpath
  unfold pml4Index at h4
  unfold pdptIndex at h3
  unfold pdIndex at h2
  unfold ptIndex at h1
  have hwalk : walk vm cr3 virt = walk vm cr3 virt' := by
    simp only [walk, walkFrom, h4, h3, h2, h1]
  rw [Allows, hwalk]
  rfl

/-- The first address of a page, by its number. -/
def pageStart (n : Nat) : BitVec 64 := BitVec.ofNat 64 (n * 4096)

theorem pageStart_toNat {n : Nat} (h : n < 2 ^ 52) : (pageStart n).toNat = n * 4096 := by
  rw [pageStart, BitVec.toNat_ofNat, Nat.mod_eq_of_lt (by omega)]

theorem pageStart_succ (n : Nat) : pageStart n + 4096 = pageStart (n + 1) := by
  rw [pageStart, pageStart, Nat.add_mul, BitVec.ofNat_add]
  rfl

theorem all_range_succ (p : Nat → Bool) (n : Nat) :
    (List.range (n + 1)).all p = (p 0 && (List.range n).all fun i => p (i + 1)) := by
  rw [List.range_succ_eq_map, List.all_cons, List.all_map]
  rfl

/-- The loop ends at the last page, and has looked at all pages up to there. -/
theorem validatePages_eq (vm : Vmm) (cr3 : BitVec 64) (write : Bool) {fuel count : Nat}
    (hfuel : count < fuel) (first : Nat) (hlast : first + count < 2 ^ 52) :
    validatePages vm cr3 (pageStart (first + count)) write fuel (pageStart first) =
      some ((List.range (count + 1)).all fun i =>
        userAccessible vm cr3 (pageStart (first + i)) write) := by
  induction count generalizing fuel first with
  | zero =>
    obtain ⟨fuel, rfl⟩ := Nat.exists_eq_add_of_lt hfuel
    rw [Nat.add_zero, validatePages]
    cases haccess : userAccessible vm cr3 (pageStart first) write <;> simp [haccess]
  | succ count ih =>
    obtain ⟨fuel, rfl⟩ := Nat.exists_eq_succ_of_ne_zero (Nat.ne_of_gt (Nat.zero_lt_of_lt hfuel))
    have hne : pageStart first ≠ pageStart (first + (count + 1)) := by
      intro heq
      have hval := congrArg BitVec.toNat heq
      rw [pageStart_toNat hlast, pageStart_toNat (by omega)] at hval
      omega
    have hshift : ∀ i, first + 1 + i = first + (i + 1) := by
      intro i
      omega
    have hrest := ih (Nat.lt_of_succ_lt_succ hfuel) (first + 1) (hshift count ▸ hlast)
    simp only [hshift] at hrest
    rw [validatePages, if_neg hne, pageStart_succ, hrest, all_range_succ _ (count + 1), Nat.add_zero]
    cases userAccessible vm cr3 (pageStart first) write <;> simp

theorem pageBase_eq (a : BitVec 64) : pageBase a = pageStart (a.toNat / 4096) := by
  apply BitVec.eq_of_toNat_eq
  have ha := a.isLt
  rw [pageBase_toNat, pageStart_toNat (by omega)]

/-- `validate_range_in` ends on all inputs: its pages are those between the ends of the range. -/
theorem validateRangeLoop_eq (vm : Vmm) (cr3 ptr len : BitVec 64) (write : Bool) {fuel : Nat}
    (hfuel : maxTransfer < fuel) :
    validateRangeLoop vm cr3 ptr len write fuel =
      some (validateRangeIn vm cr3 ptr.toNat len.toNat write) := by
  have hlen : len.toNat = 0 ↔ len = 0 := by
    rw [← BitVec.toNat_inj]
    rfl
  have hmax : maxTransfer = 16777216 := rfl
  unfold validateRangeLoop validateRangeIn
  by_cases hzero : len = 0
  · rw [if_pos hzero, if_pos (hlen.mpr hzero)]
  rw [if_neg hzero, if_neg (hlen.not.mpr hzero)]
  by_cases hlong : maxTransfer < len.toNat
  · rw [if_pos hlong, if_pos (.inl hlong)]
  rw [if_neg hlong]
  by_cases hover : 2 ^ 64 ≤ ptr.toNat + len.toNat
  · rw [if_pos hover, if_pos (.inr hover)]
  have hstop : (ptr + len).toNat = ptr.toNat + len.toNat := by
    rw [BitVec.toNat_add, Nat.mod_eq_of_lt (by omega)]
  rw [if_neg hover, if_neg (not_or.mpr ⟨hlong, hover⟩)]
  dsimp only
  rw [hstop]
  by_cases hout : ptr.toNat < userMin ∨ userMax < ptr.toNat + len.toNat
  · rw [if_pos hout, if_pos hout]
  rw [if_neg hout, if_neg hout]
  have hpos := hlen.not.mpr hzero
  have hend : (ptr + len - 1).toNat = ptr.toNat + len.toNat - 1 := by
    rw [BitVec.toNat_sub, hstop, show (1 : BitVec 64).toNat = 1 from rfl]
    omega
  have hcount : (ptr.toNat + len.toNat - 1) / 4096 =
      ptr.toNat / 4096 + ((ptr.toNat + len.toNat - 1) / 4096 - ptr.toNat / 4096) := by omega
  rw [pageBase_eq, pageBase_eq, hend, hcount, validatePages_eq vm cr3 write (by omega) _ (by omega),
    ← hcount]
  rfl

/-- What a range must be for the kernel to touch it. -/
structure Granted (vm : Vmm) (cr3 ptr len : BitVec 64) (write : Bool) : Prop where
  short : len.toNat ≤ 16 * 1024 * 1024
  fits : ptr.toNat + len.toNat < 2 ^ 64
  low : 0x8000000000 ≤ ptr.toNat
  high : ptr.toNat + len.toNat ≤ 0x800000000000
  bytes : ∀ virt : BitVec 64, ptr.toNat ≤ virt.toNat → virt.toNat < ptr.toNat + len.toNat →
    Allows vm cr3 virt write

theorem validateRangeIn_iff (vm : Vmm) (cr3 ptr len : BitVec 64) (write : Bool) :
    validateRangeIn vm cr3 ptr.toNat len.toNat write = true ↔
      len = 0 ∨ Granted vm cr3 ptr len write := by
  have hlen : len.toNat = 0 ↔ len = 0 := by
    rw [← BitVec.toNat_inj]
    rfl
  have hmax : maxTransfer = 16 * 1024 * 1024 := rfl
  have hlow : userMin = 0x8000000000 := rfl
  have hhigh : userMax = 0x800000000000 := rfl
  unfold validateRangeIn
  by_cases hzero : len = 0
  · rw [if_pos (hlen.mpr hzero)]
    exact iff_of_true rfl (.inl hzero)
  have hpos := hlen.not.mpr hzero
  rw [if_neg hpos]
  by_cases hbad : maxTransfer < len.toNat ∨ 2 ^ 64 ≤ ptr.toNat + len.toNat
  · rw [if_pos hbad]
    refine iff_of_false Bool.false_ne_true ?_
    rintro (h | h)
    · exact hzero h
    · have hshort := h.short
      have hfits := h.fits
      omega
  rw [if_neg hbad]
  by_cases hout : ptr.toNat < userMin ∨ userMax < ptr.toNat + len.toNat
  · rw [if_pos hout]
    refine iff_of_false Bool.false_ne_true ?_
    rintro (h | h)
    · exact hzero h
    · have hptr := h.low
      have hstop := h.high
      omega
  rw [if_neg hout]
  simp only [List.all_eq_true, List.mem_range, userAccessible_iff]
  constructor
  · -- a byte is on one of the pages that were looked at
    refine fun hpages => .inr ⟨by omega, by omega, by omega, by omega, fun virt hge hlt => ?_⟩
    have hpage := hpages (virt.toNat / 4096 - ptr.toNat / 4096) (by omega)
    rw [show ptr.toNat / 4096 + (virt.toNat / 4096 - ptr.toNat / 4096) = virt.toNat / 4096 by omega]
      at hpage
    refine (allows_of_page_eq ?_ vm cr3 write).mp hpage
    unfold page
    rw [BitVec.toNat_ofNat]
    omega
  · -- and each of these pages has a byte of the range
    rintro (h | h) i hi
    · exact absurd h hzero
    · have hbyte := h.bytes (BitVec.ofNat 64 (max ptr.toNat ((ptr.toNat / 4096 + i) * 4096)))
      have hval : (BitVec.ofNat 64 (max ptr.toNat ((ptr.toNat / 4096 + i) * 4096))).toNat =
          max ptr.toNat ((ptr.toNat / 4096 + i) * 4096) := by
        rw [BitVec.toNat_ofNat, Nat.mod_eq_of_lt (by omega)]
      rw [hval] at hbyte
      refine (allows_of_page_eq ?_ vm cr3 write).mp (hbyte (by omega) (by omega))
      unfold page
      rw [hval, BitVec.toNat_ofNat]
      omega

/-- The loop ends, and the answer is yes just for the ranges of which every byte may be
touched. -/
theorem validate_range_in_iff (vm : Vmm) (cr3 ptr len : BitVec 64) (write : Bool) :
    ∃ answer, (∀ fuel, maxTransfer < fuel →
        validateRangeLoop vm cr3 ptr len write fuel = some answer) ∧
      (answer = true ↔ len = 0 ∨ Granted vm cr3 ptr len write) :=
  ⟨_, fun _ hfuel => validateRangeLoop_eq vm cr3 ptr len write hfuel,
    validateRangeIn_iff vm cr3 ptr len write⟩

end KazuOS.Kernel
