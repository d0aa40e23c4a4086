import KazuOS.Lib.Run
import KazuOS.Memory.FreePool
import Mathlib.Algebra.BigOperators.Fin

/-! Every byte of the heap has one owner. A byte belongs to a block of the free
list, to a cached block, to a live allocation, or to the block an operation is
just moving from one of these to another. -/
namespace KazuOS.Memory.HeapPartition

open Lib KernelAllocator FreePool

/-- A heap region: usable memory, so it does not hold the null address. -/
structure HeapRegion where
  start : Nat
  size : Nat
  nonnull : 0 < start
  aligned : start % 8 = 0
  large : 16 ≤ size
  fits : start + size ≤ 2 ^ 64

/-- A pointer handed out and not yet given back. -/
structure Allocation where
  ptr : Nat
  layout : Layout
  deriving DecidableEq

/-- The block an allocation came from, as its header says. -/
def Allocation.block (mem : Nat → Nat) (a : Allocation) : Block :=
  ⟨mem (a.ptr - headerSize), mem (a.ptr - headerSize + 8)⟩

/-- A stack of cached blocks, each with its successor in its first word. -/
def Stack (mem : Nat → Nat) : Nat → List Nat → Prop
  | top, [] => top = 0
  | top, addr :: rest => top = addr ∧ addr ≠ 0 ∧ Stack mem (mem addr) rest

def classBlocks (ci : Fin 6) (addrs : List Nat) : List Block :=
  addrs.map fun addr => ⟨addr, classSize ci⟩

def cachedOwners (cached : Fin maxCpus × Fin 6 → List Nat) (x : Nat) : Nat :=
  ∑ i, owners (classBlocks i.2 (cached i)) x

/-- Pointer and payload of an allocation lie in its block, after the header. -/
structure Placed (mem : Nat → Nat) (a : Allocation) : Prop where
  aligned : a.ptr % a.layout.align = 0
  word : a.ptr % 8 = 0
  header : (a.block mem).addr + headerSize ≤ a.ptr
  payload : a.ptr + a.layout.size ≤ (a.block mem).stop
  block : (a.block mem).addr % 8 = 0

/-- The heap invariant; `spare` is the block in transit, if any. -/
structure Partitioned (region : HeapRegion) (heap : KernelAllocator) (free : List Block)
    (cached : Fin maxCpus × Fin 6 → List Nat) (live : List Allocation) (spare : List Block) :
    Prop where
  pool : Pool heap free
  chains : ∀ i, Stack heap.mem (heap.heads i) (cached i)
  counts : ∀ i, heap.counts i = (cached i).length
  capped : ∀ i, (cached i).length ≤ cacheCap
  words : ∀ i, ∀ addr ∈ cached i, addr % 8 = 0
  placed : ∀ a ∈ live, Placed heap.mem a
  owned : ∀ x, owners free x + cachedOwners cached x +
      owners (live.map (Allocation.block heap.mem)) x + owners spare x =
    if region.start ≤ x ∧ x < region.start + region.size then 1 else 0

section Frames

theorem Stack.congr {mem mem' : Nat → Nat} {top : Nat} {addrs : List Nat} (h : Stack mem top addrs)
    (agree : ∀ addr ∈ addrs, mem' addr = mem addr) : Stack mem' top addrs := by
  induction addrs generalizing top with
  | nil => exact h
  | cons addr rest ih =>
    obtain ⟨htop, hnull, hrest⟩ := h
    refine ⟨htop, hnull, ?_⟩
    rw [agree addr List.mem_cons_self]
    exact ih hrest fun a ha => agree a (List.mem_cons_of_mem _ ha)

theorem cachedOwners_update (cached : Fin maxCpus × Fin 6 → List Nat) (i : Fin maxCpus × Fin 6)
    (addr : Nat) (x : Nat) :
    cachedOwners (Function.update cached i (addr :: cached i)) x =
      owners [⟨addr, classSize i.2⟩] x + cachedOwners cached x := by
  unfold cachedOwners
  rw [← Finset.add_sum_erase _ _ (Finset.mem_univ i),
    ← Finset.add_sum_erase (a := i) _ (fun j => owners (classBlocks j.2 (cached j)) x)
      (Finset.mem_univ i)]
  rw [Function.update_self, classBlocks, List.map_cons, owners_cons, Nat.add_assoc]
  congr 2
  refine Finset.sum_congr rfl ?_
  intro j hj
  rw [Function.update_of_ne (Finset.ne_of_mem_erase hj)]

theorem classSize_pos (ci : Fin 6) : 16 ≤ classSize ci ∧ classSize ci % 8 = 0 := by
  revert ci
  decide

theorem cachedOwners_pos {cached : Fin maxCpus × Fin 6 → List Nat} {i : Fin maxCpus × Fin 6}
    {addr : Nat} (haddr : addr ∈ cached i) : 0 < cachedOwners cached addr := by
  have hpos : 0 < owners (classBlocks i.2 (cached i)) addr := by
    refine owners_pos.mpr ⟨⟨addr, classSize i.2⟩, List.mem_map.mpr ⟨addr, haddr, rfl⟩, ?_⟩
    have := (classSize_pos i.2).1
    unfold Block.Covers Block.stop
    dsimp only
    omega
  unfold cachedOwners
  rw [← Finset.add_sum_erase _ _ (Finset.mem_univ i)]
  exact Nat.add_pos_left hpos _

variable {a : Allocation} {mem : Nat → Nat}

/-- The words of a header belong to the block it describes. -/
theorem Placed.owns (placed : Placed mem a) :
    (a.block mem).Covers (a.ptr - headerSize) ∧ (a.block mem).Covers (a.ptr - headerSize + 8) := by
  have hheader := placed.header
  have hpayload := placed.payload
  unfold Block.Covers
  simp only [headerSize] at hheader ⊢
  omega

variable {live : List Allocation}

theorem Placed.owners_pos (placed : Placed mem a) (ha : a ∈ live) {w : Nat}
    (hw : w = a.ptr - headerSize ∨ w = a.ptr - headerSize + 8) :
    0 < owners (live.map (Allocation.block mem)) w := by
  refine Lib.owners_pos.mpr ⟨a.block mem, List.mem_map_of_mem ha, ?_⟩
  obtain rfl | rfl := hw
  · exact placed.owns.1
  · exact placed.owns.2

/-- A header that is left alone describes the same block. -/
theorem Placed.block_eq {mem mem' : Nat → Nat} (placed : Placed mem a) (ha : a ∈ live)
    (kept : ∀ w, 0 < owners (live.map (Allocation.block mem)) w → mem' w = mem w) :
    a.block mem' = a.block mem := by
  unfold Allocation.block
  rw [kept _ (placed.owners_pos ha (.inl rfl)), kept _ (placed.owners_pos ha (.inr rfl))]

theorem Placed.congr {mem mem' : Nat → Nat} (placed : Placed mem a)
    (hblock : a.block mem' = a.block mem) : Placed mem' a :=
  ⟨placed.aligned, placed.word, hblock ▸ placed.header, hblock ▸ placed.payload,
    hblock ▸ placed.block⟩

theorem Placed.large (placed : Placed mem a) : 16 ≤ (a.block mem).size := by
  have hheader := placed.header
  have hpayload := placed.payload
  simp only [headerSize, Block.stop] at hheader hpayload
  omega

/-- A word of the payload lies in the block, and not in its header. -/
theorem Placed.store (placed : Placed mem a) {word : Nat}
    (hlow : a.ptr ≤ word) (hhigh : word < a.ptr + a.layout.size) (value : Nat) :
    (a.block mem).Covers word ∧ a.block (Function.update mem word value) = a.block mem := by
  have hheader := placed.header
  have hpayload := placed.payload
  constructor
  · unfold Block.Covers
    omega
  · unfold Allocation.block
    simp only [headerSize] at hheader ⊢
    rw [Function.update_of_ne (by omega), Function.update_of_ne (by omega)]

end Frames

namespace Partitioned

variable {region : HeapRegion} {heap heap' : KernelAllocator} {free free' : List Block}
  {cached : Fin maxCpus × Fin 6 → List Nat} {live : List Allocation} {spare spare' : List Block}

theorem total_le_one (h : Partitioned region heap free cached live spare) (x : Nat) :
    owners free x + cachedOwners cached x +
      owners (live.map (Allocation.block heap.mem)) x + owners spare x ≤ 1 := by
  rw [h.owned x]
  split
  · exact Nat.le_refl 1
  · exact Nat.zero_le 1

/-- An operation that leaves the words of cached blocks and of live headers alone
and moves bytes between the free list and the block in transit. -/
theorem exchange (h : Partitioned region heap free cached live spare) (pool : Pool heap' free')
    (caches : SameCaches heap heap')
    (kept : ∀ w, 0 < cachedOwners cached w + owners (live.map (Allocation.block heap.mem)) w →
      heap'.mem w = heap.mem w)
    (moved : ∀ x, owners free' x + owners spare' x = owners free x + owners spare x) :
    Partitioned region heap' free' cached live spare' := by
  have hblock : ∀ a ∈ live, a.block heap'.mem = a.block heap.mem := fun a ha =>
    (h.placed a ha).block_eq ha fun w hw => kept w (Nat.add_pos_right _ hw)
  refine ⟨pool, ?_, ?_, h.capped, h.words, ?_, ?_⟩
  · intro i
    rw [caches.1]
    exact (h.chains i).congr fun addr haddr =>
      kept addr (Nat.add_pos_left (cachedOwners_pos haddr) _)
  · intro i
    rw [caches.2]
    exact h.counts i
  · exact fun a ha => (h.placed a ha).congr (hblock a ha)
  · intro x
    rw [List.map_congr_left hblock, ← h.owned x]
    have := moved x
    omega

variable {b : Block}

/-- Writing a word of the block in transit disturbs nothing. -/
theorem writeSpare (h : Partitioned region heap free cached live [b]) {w : Nat}
    (hw : b.Covers w) (value : Nat) :
    Partitioned region { heap with mem := Function.update heap.mem w value } free cached live
      [b] := by
  have hspare : owners [b] w = 1 := by rw [owners_singleton, if_pos hw]
  have htotal := h.total_le_one w
  have hfree : Clear w free := clear_of_owners h.pool.large (by omega)
  refine h.exchange ⟨h.pool.list.update hfree value, h.pool.coalesced, h.pool.large,
    h.pool.aligned, h.pool.bounded⟩ ⟨rfl, rfl⟩ ?_ fun _ => rfl
  intro v hv
  refine Function.update_of_ne ?_ _ _
  rintro rfl
  omega

/-- The order of the live allocations does not matter. -/
theorem perm (h : Partitioned region heap free cached live spare) {live' : List Allocation}
    (hperm : live.Perm live') : Partitioned region heap free cached live' spare := by
  refine ⟨h.pool, h.chains, h.counts, h.capped, h.words,
    fun a ha => h.placed a (hperm.mem_iff.mpr ha), ?_⟩
  intro x
  have hcount : owners (live'.map (Allocation.block heap.mem)) x =
      owners (live.map (Allocation.block heap.mem)) x := ((hperm.map _).countP_eq _).symm
  rw [hcount]
  exact h.owned x

variable {a : Allocation}

/-- An allocation given back puts its block in transit. -/
theorem release (h : Partitioned region heap free cached (a :: live) []) :
    Partitioned region heap free cached live [a.block heap.mem] := by
  refine ⟨h.pool, h.chains, h.counts, h.capped, h.words,
    fun c hc => h.placed c (List.mem_cons_of_mem _ hc), ?_⟩
  intro x
  rw [← h.owned x, List.map_cons, owners_cons _ (live.map _), owners_nil]
  omega

/-- A block in transit whose header has been written becomes an allocation. -/
theorem grant (h : Partitioned region heap free cached live [b]) (hblock : a.block heap.mem = b)
    (placed : Placed heap.mem a) : Partitioned region heap free cached (a :: live) [] := by
  refine ⟨h.pool, h.chains, h.counts, h.capped, h.words, ?_, ?_⟩
  · intro c hc
    obtain rfl | hc := List.mem_cons.mp hc
    · exact placed
    · exact h.placed c hc
  · intro x
    rw [← h.owned x, List.map_cons, owners_cons, owners_nil, hblock]
    omega

/-- A block carved from the pool is in transit. -/
theorem takeRaw (h : Partitioned region heap free cached live []) {need : Nat}
    (haligned : need % 8 = 0) :
    heap.takeRaw need = some (none, heap) ∨
      ∃ addr kept heap' free', heap.takeRaw need = some (some (addr, kept), heap') ∧
        need ≤ kept ∧ addr % 8 = 0 ∧
        Partitioned region heap' free' cached live [⟨addr, kept⟩] := by
  obtain ⟨hnone, -⟩ | ⟨addr, kept, heap', free', heq, hkept, loses⟩ :=
    takeRaw_loses h.pool haligned
  · exact .inl hnone
  · refine .inr ⟨addr, kept, heap', free', heq, hkept, loses.aligned, ?_⟩
    refine h.exchange loses.pool loses.caches ?_ ?_
    · intro w hw
      have htotal := h.total_le_one w
      exact loses.kept w (by omega)
    · intro x
      rw [loses.counted x, owners_nil]
      omega

/-- The bytes of a block in transit are bytes of the region. -/
theorem spare_within (h : Partitioned region heap free cached live [b])
    (hsize : 0 < b.size) : region.start ≤ b.addr ∧ b.stop ≤ region.start + region.size := by
  have hregion : ∀ x, b.Covers x → region.start ≤ x ∧ x < region.start + region.size := by
    intro x hx
    by_contra hout
    have howned := h.owned x
    rw [if_neg hout, owners_singleton, if_pos hx] at howned
    omega
  have hfirst := hregion b.addr (by unfold Block.Covers Block.stop; omega)
  have hlast := hregion (b.stop - 1) (by unfold Block.Covers Block.stop; omega)
  unfold Block.stop at hlast ⊢
  omega

/-- The block in transit goes back to the pool. -/
theorem giveRaw (h : Partitioned region heap free cached live [b])
    (hsize : 16 ≤ b.size) (haligned : b.addr % 8 = 0) :
    ∃ heap' free', heap.giveRaw b.addr b.size = some heap' ∧
      Partitioned region heap' free' cached live [] := by
  have hwithin := h.spare_within (by omega)
  have hfits := region.fits
  have hnonnull := region.nonnull
  obtain ⟨heap', free', heq, gains⟩ := insertNolock_gains h.pool hsize (by omega) haligned
    (by omega) (fun x => by have := h.total_le_one x; omega)
  refine ⟨heap', free', heq, h.exchange gains.pool gains.caches ?_ ?_⟩
  · intro w hw
    have htotal := h.total_le_one w
    exact gains.kept w (by omega) (by omega)
  · intro x
    rw [gains.counted x, owners_nil]
    omega

/-- Popping a cached block puts it in transit. -/
theorem popCache (h : Partitioned region heap free cached live []) (cpu : Fin maxCpus)
    (ci : Fin 6) (hhead : heap.heads (cpu, ci) ≠ 0) :
    ∃ cached', (heap.popCache cpu ci).1 % 8 = 0 ∧
      Partitioned region (heap.popCache cpu ci).2 free cached' live
        [⟨(heap.popCache cpu ci).1, classSize ci⟩] := by
  have hchain := h.chains (cpu, ci)
  cases hcached : cached (cpu, ci) with
  | nil =>
    rw [hcached] at hchain
    exact absurd hchain hhead
  | cons addr rest =>
    rw [hcached] at hchain
    obtain ⟨htop, hnull, hrest⟩ := hchain
    have hrestore : cached =
        Function.update (Function.update cached (cpu, ci) rest) (cpu, ci)
          (addr :: Function.update cached (cpu, ci) rest (cpu, ci)) := by
      rw [Function.update_self, Function.update_idem, ← hcached, Function.update_eq_self]
    have haddr : addr % 8 = 0 := h.words (cpu, ci) addr (hcached ▸ List.mem_cons_self)
    simp only [KernelAllocator.popCache, htop]
    refine ⟨Function.update cached (cpu, ci) rest, haddr, h.pool.congr rfl rfl, ?_, ?_, ?_, ?_,
      h.placed, ?_⟩
    · intro i
      by_cases hi : i = (cpu, ci)
      · subst hi
        simpa only [Function.update_self] using hrest
      · simpa only [Function.update_of_ne hi] using h.chains i
    · intro i
      by_cases hi : i = (cpu, ci)
      · subst hi
        simp only [Function.update_self, h.counts, hcached, List.length_cons]
        omega
      · simpa only [Function.update_of_ne hi] using h.counts i
    · intro i
      by_cases hi : i = (cpu, ci)
      · subst hi
        have hcapped := h.capped (cpu, ci)
        rw [hcached, List.length_cons] at hcapped
        rw [Function.update_self]
        omega
      · simpa only [Function.update_of_ne hi] using h.capped i
    · intro i a ha
      by_cases hi : i = (cpu, ci)
      · subst hi
        rw [Function.update_self] at ha
        exact h.words _ a (hcached ▸ List.mem_cons_of_mem _ ha)
      · rw [Function.update_of_ne hi] at ha
        exact h.words i a ha
    · intro x
      rw [← h.owned x]
      have hcount := cachedOwners_update (Function.update cached (cpu, ci) rest) (cpu, ci) addr x
      rw [← hrestore] at hcount
      rw [hcount, owners_nil]
      dsimp only
      omega

/-- Pushing the block in transit on a stack of its size. -/
theorem pushCache (cpu : Fin maxCpus) (ci : Fin 6) {addr : Nat}
    (h : Partitioned region heap free cached live [⟨addr, classSize ci⟩])
    (haligned : addr % 8 = 0) (hcount : heap.counts (cpu, ci) < cacheCap) :
    Partitioned region (heap.pushCache cpu ci addr) free
      (Function.update cached (cpu, ci) (addr :: cached (cpu, ci))) live [] := by
  have hsize := (classSize_pos ci).1
  have hcovers : Block.Covers ⟨addr, classSize ci⟩ addr := by
    unfold Block.Covers Block.stop
    dsimp only
    omega
  have hnull : addr ≠ 0 := by
    rintro rfl
    have howned := h.owned 0
    have hnonnull := region.nonnull
    rw [if_neg (by omega), owners_singleton, if_pos hcovers] at howned
    omega
  have hwritten := h.writeSpare hcovers (heap.heads (cpu, ci))
  refine ⟨hwritten.pool.congr rfl rfl, ?_, ?_, ?_, ?_, hwritten.placed, ?_⟩
  · intro i
    by_cases hi : i = (cpu, ci)
    · subst hi
      simp only [KernelAllocator.pushCache, Function.update_self]
      refine ⟨rfl, hnull, ?_⟩
      rw [Function.update_self]
      exact hwritten.chains (cpu, ci)
    · simpa only [KernelAllocator.pushCache, Function.update_of_ne hi] using hwritten.chains i
  · intro i
    by_cases hi : i = (cpu, ci)
    · subst hi
      simp only [KernelAllocator.pushCache, Function.update_self, h.counts, List.length_cons]
    · simpa only [KernelAllocator.pushCache, Function.update_of_ne hi] using h.counts i
  · intro i
    by_cases hi : i = (cpu, ci)
    · subst hi
      have hlength := h.counts (cpu, ci)
      rw [Function.update_self, List.length_cons]
      omega
    · simpa only [Function.update_of_ne hi] using h.capped i
  · intro i a ha
    by_cases hi : i = (cpu, ci)
    · subst hi
      rw [Function.update_self] at ha
      obtain rfl | ha := List.mem_cons.mp ha
      · exact haligned
      · exact h.words _ a ha
    · rw [Function.update_of_ne hi] at ha
      exact h.words i a ha
  · intro x
    rw [← hwritten.owned x, cachedOwners_update, owners_nil]
    simp only [KernelAllocator.pushCache]
    omega

end Partitioned

section Rounding

theorem alignUp_spec {v k : Nat} (hk : k ≤ 63) (hfits : v + 2 ^ k ≤ 2 ^ 64) :
    v ≤ alignUp v (2 ^ k) ∧ alignUp v (2 ^ k) < v + 2 ^ k ∧ alignUp v (2 ^ k) % 2 ^ k = 0 := by
  have hpos : 0 < 2 ^ k := Nat.two_pow_pos k
  have hlt : v + 2 ^ k - 1 < 2 ^ 64 := by omega
  have hround : alignUp v (2 ^ k) = (v + 2 ^ k - 1) / 2 ^ k * 2 ^ k := by
    rw [alignUp, wrap, Nat.mod_eq_of_lt hlt]
    exact and_high_bits hlt (by omega)
  have hdiv := Nat.div_add_mod (v + 2 ^ k - 1) (2 ^ k)
  have hmod := Nat.mod_lt (v + 2 ^ k - 1) hpos
  rw [hround, Nat.mul_mod_left, Nat.mul_comm]
  omega

/-- The alignment used for a layout is the larger of its own and a word's. -/
theorem allocAlign_eq (layout : Layout) :
    ∃ k, allocAlign layout = 2 ^ k ∧ layout.log ≤ k ∧ 3 ≤ k ∧ k ≤ 63 := by
  have hlog : layout.log ≤ 63 := by
    have hfits := layout.fits
    exact (Nat.pow_le_pow_iff_right (by decide)).mp (show 2 ^ layout.log ≤ 2 ^ 63 by omega)
  unfold allocAlign Layout.align wordAlign
  by_cases hsmall : layout.log ≤ 3
  · have hle : 2 ^ layout.log ≤ 2 ^ 3 := Nat.pow_le_pow_right (by decide) hsmall
    exact ⟨3, by omega, hsmall, by omega, by omega⟩
  · have hle : 2 ^ 3 ≤ 2 ^ layout.log := Nat.pow_le_pow_right (by decide) (by omega)
    exact ⟨layout.log, by omega, Nat.le_refl _, by omega, hlog⟩

theorem allocNeed_spec (layout : Layout) :
    headerSize + layout.size + allocAlign layout ≤ allocNeed layout ∧
      allocNeed layout % 8 = 0 := by
  obtain ⟨k, halign, -, -, hk⟩ := allocAlign_eq layout
  have hfits := layout.fits
  have hsum : headerSize + layout.size + allocAlign layout + 2 ^ 3 ≤ 2 ^ 64 := by
    unfold allocAlign Layout.align wordAlign headerSize
    generalize 2 ^ layout.log = align at hfits ⊢
    omega
  have hround := alignUp_spec (by omega) hsum
  exact ⟨hround.1, hround.2.2⟩

variable {ci : Fin 6}

theorem classFor_spec {need : Nat} (h : classFor need = some ci) : need ≤ classSize ci := by
  simpa using List.find?_some h

theorem exactClass_spec {size : Nat} (h : exactClass size = some ci) : classSize ci = size := by
  simpa using List.find?_some h

theorem allocNeed_pos (layout : Layout) : 0 < allocNeed layout := by
  have hneed := (allocNeed_spec layout).1
  simp only [headerSize] at hneed
  omega

/-- The header of a large enough block, written before the aligned pointer, lies in the block
and describes it. -/
theorem headerPlaced {addr size user : Nat} (layout : Layout) (haligned : addr % 8 = 0)
    (hsize : allocNeed layout ≤ size) (hfits : addr + size ≤ 2 ^ 64)
    (huser : user = alignUp (addr + headerSize) (allocAlign layout)) :
    user ≠ 0 ∧ Block.Covers ⟨addr, size⟩ (user - headerSize) ∧
      Block.Covers ⟨addr, size⟩ (user - headerSize + 8) ∧
      ∀ mem : Nat → Nat,
        Allocation.block (Function.update (Function.update mem (user - headerSize) addr)
          (user - headerSize + 8) size) ⟨user, layout⟩ = ⟨addr, size⟩ ∧
        Placed (Function.update (Function.update mem (user - headerSize) addr)
          (user - headerSize + 8) size) ⟨user, layout⟩ := by
  obtain ⟨k, halign, hlog, hword, hk⟩ := allocAlign_eq layout
  have hneed := (allocNeed_spec layout).1
  simp only [headerSize] at hneed huser ⊢
  rw [halign] at hneed huser
  obtain ⟨hlow, hhigh, hmod⟩ := alignUp_spec hk (show addr + 16 + 2 ^ k ≤ 2 ^ 64 by omega)
  rw [← huser] at hlow hhigh hmod
  have hblock (mem : Nat → Nat) : Allocation.block (Function.update
      (Function.update mem (user - 16) addr) (user - 16 + 8) size) ⟨user, layout⟩ =
      ⟨addr, size⟩ := by
    simp only [Allocation.block, headerSize]
    rw [Function.update_self, Function.update_of_ne (by omega), Function.update_self]
  refine ⟨by omega, ?_, ?_, fun mem => ⟨hblock mem, ?_, ?_, ?_, ?_, ?_⟩⟩
  · simp only [Block.Covers, Block.stop]
    omega
  · simp only [Block.Covers, Block.stop]
    omega
  · exact Nat.mod_eq_zero_of_dvd ((pow_dvd_pow 2 hlog).trans (Nat.dvd_of_mod_eq_zero hmod))
  · exact Nat.mod_eq_zero_of_dvd ((pow_dvd_pow 2 hword).trans (Nat.dvd_of_mod_eq_zero hmod))
  · rw [hblock mem]
    exact hlow
  · rw [hblock mem]
    simp only [Block.stop]
    omega
  · rw [hblock mem]
    exact haligned

end Rounding

namespace Partitioned

variable {region : HeapRegion} {heap heap' : KernelAllocator} {free free' : List Block}
  {cached : Fin maxCpus × Fin 6 → List Nat} {live : List Allocation}

/-- A large enough block in transit becomes an allocation for the layout. -/
theorem finishAlloc {addr size : Nat} (layout : Layout)
    (h : Partitioned region heap free cached live [⟨addr, size⟩]) (haligned : addr % 8 = 0)
    (hsize : allocNeed layout ≤ size) :
    (heap.finishAlloc addr size (allocAlign layout)).1 ≠ 0 ∧
      Partitioned region (heap.finishAlloc addr size (allocAlign layout)).2 free cached
        (⟨(heap.finishAlloc addr size (allocAlign layout)).1, layout⟩ :: live) [] := by
  have hpos : 0 < size := Nat.lt_of_lt_of_le (allocNeed_pos layout) hsize
  have hwithin := h.spare_within hpos
  have hfits := region.fits
  simp only [Block.stop] at hwithin
  obtain ⟨hnull, hfirst, hsecond, hwords⟩ :=
    headerPlaced layout haligned hsize (by omega) rfl
  obtain ⟨hblock, hplaced⟩ := hwords heap.mem
  exact ⟨hnull, ((h.writeSpare hfirst addr).writeSpare hsecond size).grant hblock hplaced⟩

theorem allocGlobal (layout : Layout) (h : Partitioned region heap free cached live [])
    {need : Nat} (haligned : need % 8 = 0) (hneed : allocNeed layout ≤ need) :
    heap.allocGlobal need (allocAlign layout) = some (0, heap) ∨
      ∃ ptr heap' free', heap.allocGlobal need (allocAlign layout) = some (ptr, heap') ∧
        ptr ≠ 0 ∧ Partitioned region heap' free' cached (⟨ptr, layout⟩ :: live) [] := by
  unfold KernelAllocator.allocGlobal
  obtain hnone | ⟨addr, kept, heap', free', heq, hkept, haddr, htaken⟩ := h.takeRaw haligned
  · rw [hnone]
    exact .inl rfl
  · rw [heq]
    obtain ⟨hptr, hfinished⟩ := htaken.finishAlloc layout haddr (hneed.trans hkept)
    exact .inr ⟨_, _, free', rfl, hptr, hfinished⟩

/-- A call of alloc returns null and changes nothing, or returns a new allocation. -/
theorem alloc (h : Partitioned region heap free cached live []) (cpu : Fin maxCpus)
    (layout : Layout) :
    heap.alloc cpu layout = some (0, heap) ∨
      ∃ ptr heap' free' cached', heap.alloc cpu layout = some (ptr, heap') ∧ ptr ≠ 0 ∧
        Partitioned region heap' free' cached' (⟨ptr, layout⟩ :: live) [] := by
  unfold KernelAllocator.alloc
  dsimp only
  cases hclass : classFor (allocNeed layout) with
  | none =>
    obtain hnull | ⟨ptr, heap', free', heq, hptr, hpart⟩ :=
      h.allocGlobal layout (allocNeed_spec layout).2 (Nat.le_refl _)
    · exact .inl hnull
    · exact .inr ⟨ptr, heap', free', cached, heq, hptr, hpart⟩
  | some ci =>
    have hneed := classFor_spec hclass
    dsimp only
    split
    · rename_i hhead
      obtain ⟨cached', haddr, hpopped⟩ := h.popCache cpu ci hhead
      obtain ⟨hptr, hfinished⟩ := hpopped.finishAlloc layout haddr hneed
      exact .inr ⟨_, _, free, cached', rfl, hptr, hfinished⟩
    · obtain hnull | ⟨ptr, heap', free', heq, hptr, hpart⟩ :=
        h.allocGlobal layout (classSize_pos ci).2 hneed
      · exact .inl hnull
      · exact .inr ⟨ptr, heap', free', cached, heq, hptr, hpart⟩

variable {a : Allocation}

/-- A call of dealloc on a live pointer returns. -/
theorem dealloc (h : Partitioned region heap free cached live []) (cpu : Fin maxCpus)
    (ha : a ∈ live) :
    ∃ heap' free' cached', heap.dealloc cpu a.ptr = some heap' ∧
      Partitioned region heap' free' cached' (live.erase a) [] := by
  have hplaced := h.placed a ha
  have hreleased := (h.perm (List.perm_cons_erase ha)).release
  have hgive := hreleased.giveRaw hplaced.large hplaced.block
  unfold KernelAllocator.dealloc
  dsimp only
  cases hclass : exactClass (heap.mem (a.ptr - headerSize + 8)) with
  | none =>
    obtain ⟨heap', free', heq, hpart⟩ := hgive
    exact ⟨heap', free', cached, heq, hpart⟩
  | some ci =>
    have hsize : (a.block heap.mem).size = classSize ci := (exactClass_spec hclass).symm
    dsimp only
    split
    · rename_i hcount
      have hblock : a.block heap.mem = ⟨heap.mem (a.ptr - headerSize), classSize ci⟩ := by
        rw [← hsize]
        rfl
      rw [hblock] at hreleased
      exact ⟨_, free, _, rfl, hreleased.pushCache cpu ci hplaced.block hcount⟩
    · obtain ⟨heap', free', heq, hpart⟩ := hgive
      exact ⟨heap', free', cached, heq, hpart⟩

/-- The holder of a pointer writes a word of its payload. -/
theorem store (h : Partitioned region heap free cached live []) (ha : a ∈ live)
    {word : Nat} (hlow : a.ptr ≤ word) (hhigh : word < a.ptr + a.layout.size) (value : Nat) :
    Partitioned region { heap with mem := Function.update heap.mem word value } free cached live
      [] := by
  have hplaced := h.placed a ha
  have hperm := List.perm_cons_erase ha
  obtain ⟨hcovers, hblock⟩ := hplaced.store hlow hhigh value
  have hgranted := ((h.perm hperm).release.writeSpare hcovers value).grant hblock
    (hplaced.congr hblock)
  exact hgranted.perm hperm.symm

end Partitioned

/-- The heap and the pointers its users hold. -/
structure System where
  heap : KernelAllocator
  live : List Allocation

inductive Event where
  | alloc (cpu : Fin maxCpus) (layout : Layout)
  | dealloc (cpu : Fin maxCpus) (ptr : Nat)
  | store (ptr word value : Nat)

def System.holder (s : System) (ptr : Nat) : Option Allocation := s.live.find? fun a => a.ptr = ptr

/-- One call, on any CPU, or one write of a holder into its payload. -/
def step (s : System) : Event → Option System
  | .alloc cpu layout =>
      (s.heap.alloc cpu layout).map fun (ptr, heap) =>
        if ptr = 0 then ⟨heap, s.live⟩ else ⟨heap, ⟨ptr, layout⟩ :: s.live⟩
  | .dealloc cpu ptr =>
      (s.holder ptr).bind fun a =>
        (s.heap.dealloc cpu ptr).map fun heap => ⟨heap, s.live.erase a⟩
  | .store ptr word value =>
      (s.holder ptr).bind fun a =>
        if ptr ≤ word ∧ word < ptr + a.layout.size ∧ word % 8 = 0 then
          some ⟨{ s.heap with mem := Function.update s.heap.mem word value }, s.live⟩
        else none

abbrev Steps (s : System) (event : Event) (t : System) : Prop := step s event = some t

def Safe (region : HeapRegion) (s : System) : Prop :=
  ∃ free cached, Partitioned region s.heap free cached s.live []

theorem holder_spec {s : System} {ptr : Nat} {a : Allocation} (h : s.holder ptr = some a) :
    a ∈ s.live ∧ a.ptr = ptr :=
  ⟨List.mem_of_find?_eq_some h, by simpa using List.find?_some h⟩

theorem step_safe {region : HeapRegion} (s : System) (event : Event) (t : System)
    (safe : Safe region s) (hstep : Steps s event t) : Safe region t := by
  obtain ⟨free, cached, h⟩ := safe
  cases event with
  | alloc cpu layout =>
    simp only [Steps, step, Option.map_eq_some_iff] at hstep
    obtain ⟨⟨ptr, heap⟩, halloc, rfl⟩ := hstep
    obtain hnull | ⟨ptr', heap', free', cached', heq, hptr, hpart⟩ := h.alloc cpu layout
    · rw [hnull, Option.some.injEq, Prod.mk.injEq] at halloc
      obtain ⟨rfl, rfl⟩ := halloc
      exact ⟨free, cached, h⟩
    · rw [heq, Option.some.injEq, Prod.mk.injEq] at halloc
      obtain ⟨rfl, rfl⟩ := halloc
      rw [if_neg hptr]
      exact ⟨free', cached', hpart⟩
  | dealloc cpu ptr =>
    simp only [Steps, step, Option.bind_eq_some_iff, Option.map_eq_some_iff] at hstep
    obtain ⟨a, hholder, heap, hdealloc, rfl⟩ := hstep
    obtain ⟨hlive, rfl⟩ := holder_spec hholder
    obtain ⟨heap', free', cached', heq, hpart⟩ := h.dealloc cpu hlive
    rw [heq, Option.some.injEq] at hdealloc
    exact hdealloc ▸ ⟨free', cached', hpart⟩
  | store ptr word value =>
    simp only [Steps, step, Option.bind_eq_some_iff, Option.ite_none_right_eq_some,
      Option.some.injEq] at hstep
    obtain ⟨a, hholder, ⟨hlow, hhigh, -⟩, rfl⟩ := hstep
    obtain ⟨hlive, rfl⟩ := holder_spec hholder
    exact ⟨free, cached, h.store hlive hlow hhigh value⟩

theorem cachedOwners_empty (x : Nat) : cachedOwners (fun _ => []) x = 0 := by
  simp [cachedOwners, classBlocks]

/-- init returns, and the one free block is the region. -/
theorem init_safe (region : HeapRegion) (mem : Nat → Nat) :
    ∃ heap, KernelAllocator.init mem region.start region.size = some heap ∧
      Safe region ⟨heap, []⟩ := by
  have hpool : Pool (empty mem) [] := by
    refine ⟨rfl, List.Pairwise.nil, ?_, ?_, ?_⟩
    all_goals simp
  have hempty : Partitioned region (empty mem) [] (fun _ => []) []
      [⟨region.start, region.size⟩] := by
    refine ⟨hpool, fun _ => rfl, fun _ => rfl, fun _ => Nat.zero_le _, by simp, by simp, ?_⟩
    intro x
    rw [cachedOwners_empty, List.map_nil, owners_nil, owners_singleton, Nat.zero_add]
    by_cases hin : region.start ≤ x ∧ x < region.start + region.size
    · rw [if_pos hin]
      exact if_pos hin
    · rw [if_neg hin]
      exact if_neg hin
  obtain ⟨heap, free, heq, hpart⟩ := hempty.giveRaw region.large region.aligned
  exact ⟨heap, heq, free, fun _ => [], hpart⟩

/-- After init on any heap region, in every state that calls on any CPUs in any
order and writes of the holders reach: the free list is coalesced, the three kinds
of blocks partition the region, and every call returns, with a result that is null
or placed in its own block. -/
theorem heap_partitioned (region : HeapRegion) (mem : Nat → Nat) :
    ∃ boot, KernelAllocator.init mem region.start region.size = some boot ∧
      ∀ events s, Run Steps ⟨boot, []⟩ events s →
        Safe region s ∧
        (∀ cpu layout, ∃ ptr heap, s.heap.alloc cpu layout = some (ptr, heap) ∧
          (ptr ≠ 0 → Placed heap.mem ⟨ptr, layout⟩)) ∧
        ∀ cpu, ∀ a ∈ s.live, ∃ heap, s.heap.dealloc cpu a.ptr = some heap := by
  obtain ⟨boot, hinit, hsafe⟩ := init_safe region mem
  refine ⟨boot, hinit, ?_⟩
  intro events s run
  have safe := run.preserves step_safe hsafe
  refine ⟨safe, ?_, ?_⟩
  · intro cpu layout
    obtain ⟨free, cached, h⟩ := safe
    obtain hnull | ⟨ptr, heap, _, _, heq, -, hpart⟩ := h.alloc cpu layout
    · exact ⟨0, s.heap, hnull, fun hptr => absurd rfl hptr⟩
    · exact ⟨ptr, heap, heq, fun _ => hpart.placed _ List.mem_cons_self⟩
  · intro cpu a ha
    obtain ⟨free, cached, h⟩ := safe
    obtain ⟨heap, _, _, heq, -⟩ := h.dealloc cpu ha
    exact ⟨heap, heq⟩

end KazuOS.Memory.HeapPartition
