import KazuOS.User.Heap

/-! The memory a process has obtained from the kernel is partitioned into the free list and
the blocks of live allocations. Free blocks merge across adjacent arenas and live blocks may
then span several, so the partition is stated byte by byte and not arena by arena. -/
namespace KazuOS.User

open Lib Memory KernelAllocator FreePool HeapPartition

namespace Heap

theorem pool_setNext (heap : Heap) (prev next : Nat) :
    (heap.setNext prev next).pool = heap.pool.setNext prev next := by
  unfold setNext KernelAllocator.setNext
  split <;> rfl

theorem insert_eq (heap : Heap) (addr : Nat) {size : Nat} (hsize : nodeSize ≤ size) :
    heap.insert addr size = (heap.pool.insertNolock addr size).map heap.withPool := by
  unfold insert insertNolock
  rw [if_neg (Nat.not_lt.mpr hsize)]
  simp only [pool]
  cases findPlace heap.mem addr fuel 0 heap.head with
  | none => rfl
  | some place => rfl

/-- Taking a block is what the kernel heap does without its caches. -/
theorem take_eq (heap : Heap) (need align : Nat) :
    heap.take need headerSize align =
      (heap.pool.allocGlobal need align).map fun (ptr, pool) => (ptr, heap.withPool pool) := by
  unfold take allocGlobal takeRaw
  have hmem : heap.pool.mem = heap.mem := rfl
  have hhead : heap.pool.head = heap.head := rfl
  rw [hmem, hhead]
  cases findFit heap.mem need fuel 0 heap.head with
  | none => rfl
  | some found =>
    cases found with
    | none => rfl
    | some place =>
      obtain ⟨prev, cur⟩ := place
      by_cases hrem : nodeSize ≤ heap.mem cur - need
      · simp only [if_pos hrem, insert_eq _ _ hrem, Option.map_map, pool_setNext]
        rfl
      · simp only [if_neg hrem]
        rfl

end Heap

/-- A process's heap, the pointers its code holds, and the ranges it has obtained from the
kernel and not returned. -/
structure System where
  heap : Heap
  live : List Allocation
  held : List Block

/-- What SYS_HEAP_ALLOC may answer: a failure, or a page-aligned range of the address space
that touches none of those not yet freed. -/
def Admissible (held : List Block) (p want : Nat) : Prop :=
  Heap.Refusal p ∨ (p % 4096 = 0 ∧ p + want ≤ 2 ^ 64 ∧ ∀ b ∈ held, b.stop ≤ p ∨ p + want ≤ b.addr)

instance (held : List Block) (p want : Nat) : Decidable (Admissible held p want) :=
  inferInstanceAs (Decidable (_ ∨ _))

/-- SYS_HEAP_FREE takes back the range that starts at the address. -/
def sysHeapFree (held : List Block) (addr : Nat) : List Block := held.eraseP (·.addr = addr)

def freeAll (held : List Block) (calls : List (Nat × Heap)) : List Block :=
  calls.foldl (fun held call => sysHeapFree held call.1) held

inductive Event where
  | alloc (layout : Layout) (p : Nat) (fill : Nat → Nat)
  | dealloc (ptr : Nat)
  | store (ptr word value : Nat)

namespace System

def boot (mem : Nat → Nat) : System := ⟨.new mem, [], []⟩

def holder (s : System) (ptr : Nat) : Option Allocation := s.live.find? fun a => a.ptr = ptr

/-- The ranges held after SYS_HEAP_ALLOC was or was not called. -/
def heldAfter (held : List Block) (want : Nat) : Option Nat → List Block
  | none => held
  | some p => if Heap.Refusal p then held else ⟨p, want⟩ :: held

def afterAlloc (s : System) (layout : Layout) (r : Heap.AllocResult) : System where
  heap := r.heap
  live := if r.ptr = 0 then s.live else ⟨r.ptr, layout⟩ :: s.live
  held := heldAfter s.held (Heap.growSize (allocNeed layout)) r.answer

def afterDealloc (s : System) (a : Allocation) (heap : Heap) (calls : List (Nat × Heap)) :
    System where
  heap := heap
  live := s.live.erase a
  held := freeAll s.held calls

/-- One call, or one write of a holder into its payload. -/
def step (s : System) : Event → Option System
  | .alloc layout p fill =>
      if Admissible s.held p (Heap.growSize (allocNeed layout)) then
        (s.heap.alloc layout p fill).map (s.afterAlloc layout)
      else none
  | .dealloc ptr =>
      (s.holder ptr).bind fun a =>
        (s.heap.dealloc ptr).map fun (heap, calls) => s.afterDealloc a heap calls
  | .store ptr word value =>
      (s.holder ptr).bind fun a =>
        if ptr ≤ word ∧ word < ptr + a.layout.size ∧ word % 8 = 0 then
          some { s with heap := { s.heap with mem := Function.update s.heap.mem word value } }
        else none

end System

/-- A range as the kernel hands it out. -/
structure Range (b : Block) : Prop where
  nonnull : 0 < b.addr
  page : b.addr % 4096 = 0
  large : 16 ≤ b.size
  fits : b.stop ≤ 2 ^ 64

/-- The arena table: every recorded arena is held, and recorded once. -/
structure Recorded (arenas : List (Nat × Nat)) (held : List Block) : Prop where
  slots : arenas.length = maxArenas
  held : ∀ slot ∈ arenas, slot.1 ≠ 0 → ⟨slot.1, slot.2⟩ ∈ held
  once : arenas.Pairwise fun slot slot' => slot.1 ≠ 0 → slot ≠ slot'

/-- The heap invariant; `spare` is the block in transit, if any. -/
structure Partitioned (s : System) (free spare : List Block) : Prop where
  pool : Pool s.heap.pool free
  placed : ∀ a ∈ s.live, Placed s.heap.mem a
  owned : ∀ x, owners free x + owners (s.live.map (Allocation.block s.heap.mem)) x +
    owners spare x = owners s.held x
  single : ∀ x, owners s.held x ≤ 1
  ranges : ∀ b ∈ s.held, Range b
  recorded : Recorded s.heap.arenas s.held

/-- The headers of these allocations describe the same blocks as before. -/
def Untouched (live : List Allocation) (mem mem' : Nat → Nat) : Prop :=
  ∀ a ∈ live, a.block mem' = a.block mem

theorem Untouched.trans {live : List Allocation} {mem mem' mem'' : Nat → Nat}
    (h : Untouched live mem mem') (h' : Untouched live mem' mem'') : Untouched live mem mem'' :=
  fun a ha => (h' a ha).trans (h a ha)

namespace Partitioned

variable {s : System} {free free' spare spare' : List Block}

theorem total_le_one (h : Partitioned s free spare) (x : Nat) :
    owners free x + owners (s.live.map (Allocation.block s.heap.mem)) x + owners spare x ≤ 1 :=
  h.owned x ▸ h.single x

/-- Live headers that are left alone still describe the same blocks. -/
theorem blocks_eq (h : Partitioned s free spare) {mem : Nat → Nat}
    (kept : ∀ w, 0 < owners (s.live.map (Allocation.block s.heap.mem)) w →
      mem w = s.heap.mem w) : Untouched s.live s.heap.mem mem :=
  fun a ha => (h.placed a ha).block_eq ha kept

/-- An operation that leaves the words of live blocks alone and moves bytes between the free
list and the block in transit. -/
theorem exchange (h : Partitioned s free spare) {heap : Heap} (pool : Pool heap.pool free')
    (arenas : heap.arenas = s.heap.arenas)
    (kept : ∀ w, 0 < owners (s.live.map (Allocation.block s.heap.mem)) w →
      heap.mem w = s.heap.mem w)
    (moved : ∀ x, owners free' x + owners spare' x = owners free x + owners spare x) :
    Partitioned { s with heap := heap } free' spare' := by
  have hblock := h.blocks_eq kept
  refine ⟨pool, ?_, ?_, h.single, h.ranges, ?_⟩
  · exact fun a ha => (h.placed a ha).congr (hblock a ha)
  · intro x
    dsimp only
    rw [List.map_congr_left hblock, ← h.owned x]
    have := moved x
    omega
  · dsimp only
    rw [arenas]
    exact h.recorded

variable {b : Block}

/-- Writing a word of the block in transit disturbs nothing. -/
theorem writeSpare (h : Partitioned s free [b]) {w : Nat} (hw : b.Covers w) (value : Nat) :
    Partitioned { s with heap := { s.heap with mem := Function.update s.heap.mem w value } } free
      [b] := by
  have hspare : owners [b] w = 1 := by rw [owners_singleton, if_pos hw]
  have htotal := h.total_le_one w
  have hfree : Clear w free := clear_of_owners h.pool.large (by omega)
  refine h.exchange ⟨h.pool.list.update hfree value, h.pool.coalesced, h.pool.large,
    h.pool.aligned, h.pool.bounded⟩ rfl ?_ fun _ => rfl
  intro v hv
  refine Function.update_of_ne ?_ _ _
  rintro rfl
  omega

variable {live : List Allocation} {a : Allocation}

/-- The order of the live allocations does not matter. -/
theorem perm (h : Partitioned s free spare) (hperm : s.live.Perm live) :
    Partitioned { s with live := live } free spare := by
  refine ⟨h.pool, fun a ha => h.placed a (hperm.mem_iff.mpr ha), ?_, h.single, h.ranges,
    h.recorded⟩
  intro x
  have hcount : owners (live.map (Allocation.block s.heap.mem)) x =
      owners (s.live.map (Allocation.block s.heap.mem)) x := ((hperm.map _).countP_eq _).symm
  dsimp only
  rw [hcount]
  exact h.owned x

/-- An allocation given back puts its block in transit. -/
theorem release (h : Partitioned { s with live := a :: live } free []) :
    Partitioned { s with live := live } free [a.block s.heap.mem] := by
  refine ⟨h.pool, fun c hc => h.placed c (List.mem_cons_of_mem _ hc), ?_, h.single, h.ranges,
    h.recorded⟩
  intro x
  have howned := h.owned x
  rw [List.map_cons, owners_cons, owners_nil] at howned
  dsimp only at howned ⊢
  omega

/-- A block in transit whose header has been written becomes an allocation. -/
theorem grant (h : Partitioned s free [b]) (hblock : a.block s.heap.mem = b)
    (placed : Placed s.heap.mem a) : Partitioned { s with live := a :: s.live } free [] := by
  refine ⟨h.pool, List.forall_mem_cons.mpr ⟨placed, h.placed⟩, ?_, h.single, h.ranges,
    h.recorded⟩
  intro x
  have howned := h.owned x
  dsimp only
  rw [List.map_cons, owners_cons, owners_nil, hblock]
  omega

/-- A block in transit lies in the address space, off the null page. -/
theorem spare_fits (h : Partitioned s free [b]) (hpos : 0 < b.size) :
    0 < b.addr ∧ b.stop ≤ 2 ^ 64 := by
  have hheld : ∀ x, b.Covers x → ∃ c ∈ s.held, c.Covers x := by
    intro x hx
    apply owners_pos.mp
    have howned := h.owned x
    rw [owners_singleton, if_pos hx] at howned
    omega
  obtain ⟨c, hc, hfirst⟩ := hheld b.addr (by unfold Block.Covers Block.stop; omega)
  obtain ⟨d, hd, hlast⟩ := hheld (b.stop - 1) (by unfold Block.Covers Block.stop; omega)
  have hnonnull := (h.ranges c hc).nonnull
  have hfits := (h.ranges d hd).fits
  unfold Block.Covers at hfirst hlast
  omega

/-- The block in transit goes back to the list. -/
theorem insert (h : Partitioned s free [b]) (hsize : 16 ≤ b.size) (haligned : b.addr % 8 = 0) :
    ∃ heap free', s.heap.insert b.addr b.size = some heap ∧
      Partitioned { s with heap := heap } free' [] ∧ heap.arenas = s.heap.arenas ∧
      Untouched s.live s.heap.mem heap.mem ∧
      ∀ x, owners free' x = owners [b] x + owners free x := by
  have hfits := h.spare_fits (by omega)
  obtain ⟨pool', free', heq, gains⟩ := insertNolock_gains h.pool hsize (by omega) haligned
    hfits.2 (fun x => by have := h.total_le_one x; omega)
  have hkept : ∀ w, 0 < owners (s.live.map (Allocation.block s.heap.mem)) w →
      pool'.mem w = s.heap.mem w := by
    intro w hw
    have htotal := h.total_le_one w
    exact gains.kept w (by omega) (by omega)
  refine ⟨s.heap.withPool pool', free', ?_, h.exchange ?_ rfl hkept ?_, rfl, h.blocks_eq hkept,
    gains.counted⟩
  · rw [Heap.insert_eq _ _ hsize, heq]
    rfl
  · exact gains.pool.congr rfl rfl
  · intro x
    rw [gains.counted x, owners_nil]
    omega

/-- What a block carved out of the free bytes for a layout looks like afterwards. -/
structure Carved (s : System) (free : List Block) (layout : Layout) (ptr : Nat) (heap : Heap)
    (free' : List Block) : Prop where
  nonnull : ptr ≠ 0
  arenas : heap.arenas = s.heap.arenas
  partitioned : Partitioned { s with heap := heap, live := ⟨ptr, layout⟩ :: s.live } free' []
  untouched : Untouched s.live s.heap.mem heap.mem
  large : allocNeed layout ≤ (Allocation.block heap.mem ⟨ptr, layout⟩).size
  counted : ∀ x, owners free x =
    owners [Allocation.block heap.mem ⟨ptr, layout⟩] x + owners free' x

/-- Taking a block finds every free block too small, or carves one. -/
theorem take (h : Partitioned s free []) (layout : Layout) :
    (s.heap.take (allocNeed layout) headerSize (allocAlign layout) = some (0, s.heap) ∧
      ∀ b ∈ free, b.size < allocNeed layout) ∨
    ∃ ptr heap free', s.heap.take (allocNeed layout) headerSize (allocAlign layout) =
        some (ptr, heap) ∧ Carved s free layout ptr heap free' := by
  rw [Heap.take_eq, allocGlobal]
  obtain ⟨hnone, hsmall⟩ | ⟨addr, kept, pool', free', heq, hkept, loses⟩ :=
    takeRaw_loses h.pool (allocNeed_spec layout).2
  · left
    rw [hnone]
    exact ⟨rfl, hsmall⟩
  · right
    rw [heq]
    have hlive : ∀ w, 0 < owners (s.live.map (Allocation.block s.heap.mem)) w →
        owners free w = 0 := by
      intro w hw
      have htotal := h.total_le_one w
      omega
    -- Between unlinking the block and writing its header the block is in transit.
    have htaken : Partitioned { s with heap := s.heap.withPool pool' } free' [⟨addr, kept⟩] := by
      refine h.exchange (loses.pool.congr rfl rfl) rfl (fun w hw => loses.kept w (hlive w hw)) ?_
      intro x
      rw [loses.counted x, owners_nil]
      omega
    obtain ⟨hnull, hfirst, hsecond, hwords⟩ :=
      headerPlaced layout loses.aligned hkept loses.bounded rfl
    obtain ⟨hblock, hplaced⟩ := hwords pool'.mem
    have hfree : ∀ w, Block.Covers ⟨addr, kept⟩ w → 0 < owners free w := by
      intro w hw
      rw [loses.counted w, owners_singleton, if_pos hw]
      omega
    refine ⟨_, _, free', rfl, hnull, rfl,
      ((htaken.writeSpare hfirst addr).writeSpare hsecond kept).grant hblock hplaced,
      h.blocks_eq fun w hw => ?_, ?_, ?_⟩
    · have hnot := hlive w hw
      have hne : ∀ v, Block.Covers ⟨addr, kept⟩ v → w ≠ v := by
        rintro v hv rfl
        have := hfree w hv
        omega
      exact (Function.update_of_ne (hne _ hsecond) _ _).trans
        ((Function.update_of_ne (hne _ hfirst) _ _).trans (loses.kept w hnot))
    · exact hkept.trans (Nat.le_of_eq (congrArg Block.size hblock).symm)
    · intro x
      rw [loses.counted x]
      exact congrArg (fun b => owners [b] x + owners free' x) hblock.symm

end Partitioned

/-! Growing. -/

theorem allocNeed_lt (layout : Layout) : allocNeed layout < 2 ^ 63 + 64 := by
  obtain ⟨k, halign, -, -, hk⟩ := allocAlign_eq layout
  have hfits := layout.fits
  have hsum : headerSize + layout.size + allocAlign layout ≤ 2 ^ 63 + 24 := by
    unfold allocAlign Layout.align wordAlign headerSize
    generalize 2 ^ layout.log = align at hfits ⊢
    omega
  have hround : _ ∧ alignUp _ 8 < headerSize + layout.size + allocAlign layout + 8 ∧ _ :=
    alignUp_spec (k := 3) (by omega) (by omega)
  unfold allocNeed wordAlign
  omega

theorem alignUp_page {v : Nat} (hv : v < 2 ^ 63 + 64) :
    v ≤ alignUp v 4096 ∧ alignUp v 4096 % 4096 = 0 := by
  have hround : v ≤ alignUp v 4096 ∧ _ ∧ alignUp v 4096 % 4096 = 0 :=
    alignUp_spec (k := 12) (by omega) (by omega)
  exact ⟨hround.1, hround.2.2⟩

theorem growSize_spec {need : Nat} (hneed : need < 2 ^ 63 + 64) :
    need ≤ Heap.growSize need ∧ 16 ≤ Heap.growSize need ∧ Heap.growSize need % 4096 = 0 := by
  unfold Heap.growSize
  generalize hsize : (if arenaSize < need then need else arenaSize) = size
  have hbounds : need ≤ size ∧ 16 ≤ size ∧ size < 2 ^ 63 + 64 := by
    rw [← hsize]
    unfold arenaSize
    split <;> omega
  have hround := alignUp_page hbounds.2.2
  omega

variable {arenas : List (Nat × Nat)}

theorem mem_record {arena slot : Nat × Nat}
    (h : slot ∈ Heap.record arena arenas) : slot = arena ∨ slot ∈ arenas := by
  induction arenas with
  | nil => cases h
  | cons first rest ih =>
    rw [Heap.record] at h
    split at h
    · rcases List.mem_cons.mp h with rfl | h
      · exact .inl rfl
      · exact .inr (List.mem_cons_of_mem _ h)
    · rcases List.mem_cons.mp h with rfl | h
      · exact .inr List.mem_cons_self
      · exact (ih h).imp id (List.mem_cons_of_mem _)

theorem length_record (arena : Nat × Nat) (arenas : List (Nat × Nat)) :
    (Heap.record arena arenas).length = arenas.length := by
  induction arenas with
  | nil => rfl
  | cons first rest ih =>
    rw [Heap.record]
    split
    · rfl
    · rw [List.length_cons, ih, List.length_cons]

theorem once_record {arena : Nat × Nat} (hnew : arena ∉ arenas)
    (h : arenas.Pairwise fun slot slot' => slot.1 ≠ 0 → slot ≠ slot') :
    (Heap.record arena arenas).Pairwise fun slot slot' => slot.1 ≠ 0 → slot ≠ slot' := by
  induction arenas with
  | nil => exact h
  | cons first rest ih =>
    obtain ⟨hfirst, hrest⟩ := List.pairwise_cons.mp h
    rw [List.mem_cons, not_or] at hnew
    obtain ⟨hne, hnew⟩ := hnew
    rw [Heap.record]
    split
    · refine List.pairwise_cons.mpr ⟨?_, hrest⟩
      rintro slot hslot - rfl
      exact hnew hslot
    · refine List.pairwise_cons.mpr ⟨?_, ih hnew hrest⟩
      intro slot hslot hnull
      rcases mem_record hslot with rfl | hslot
      · exact fun heq => hne heq.symm
      · exact hfirst slot hslot hnull

namespace Partitioned

variable {s : System} {free spare : List Block}

/-- A byte of a free block is a byte the process holds. -/
theorem held_of_free (h : Partitioned s free spare) {b : Block} (hb : b ∈ free) {x : Nat}
    (hx : b.Covers x) : 0 < owners s.held x := by
  have hpos : 0 < owners free x := owners_pos.mpr ⟨b, hb, hx⟩
  have howned := h.owned x
  omega

variable {p want : Nat}

/-- A new range is in transit, recorded if there is an empty slot. -/
theorem obtained (h : Partitioned s free []) (hrange : Range ⟨p, want⟩)
    (hapart : ∀ b ∈ s.held, b.stop ≤ p ∨ p + want ≤ b.addr) (fill : Nat → Nat) :
    Partitioned
      ⟨⟨Heap.mapRange s.heap.mem p want fill, s.heap.head, Heap.record (p, want) s.heap.arenas⟩,
        s.live, ⟨p, want⟩ :: s.held⟩ free [⟨p, want⟩] ∧
      Untouched s.live s.heap.mem (Heap.mapRange s.heap.mem p want fill) := by
  have hnone : ∀ x, Block.Covers ⟨p, want⟩ x → owners s.held x = 0 := by
    intro x hx
    refine Nat.eq_zero_of_not_pos fun hpos => ?_
    obtain ⟨b, hb, hbx⟩ := owners_pos.mp hpos
    have := hapart b hb
    unfold Block.Covers Block.stop at hx hbx
    unfold Block.stop at this
    dsimp only at hx
    omega
  have hkept : ∀ w, 0 < owners s.held w →
      Heap.mapRange s.heap.mem p want fill w = s.heap.mem w := by
    intro w hw
    exact if_neg fun hin => by have := hnone w hin; omega
  have hlarge := hrange.large
  have hpage := hrange.page
  have hnonnull := hrange.nonnull
  dsimp only at hlarge hpage hnonnull
  have hblock : Untouched s.live s.heap.mem (Heap.mapRange s.heap.mem p want fill) :=
    h.blocks_eq fun w hw => hkept w (by have := h.owned w; omega)
  refine ⟨⟨⟨?_, h.pool.coalesced, h.pool.large, h.pool.aligned, h.pool.bounded⟩, ?_, ?_, ?_, ?_,
    ?_⟩, hblock⟩
  · refine h.pool.list.congr fun b hb => ?_
    have hsize := h.pool.large b hb
    exact ⟨hkept _ (h.held_of_free hb (by unfold Block.Covers Block.stop; omega)),
      hkept _ (h.held_of_free hb (by unfold Block.Covers Block.stop; omega))⟩
  · exact fun a ha => (h.placed a ha).congr (hblock a ha)
  · intro x
    have howned := h.owned x
    dsimp only
    rw [List.map_congr_left hblock, owners_cons _ s.held, ← howned, owners_nil]
    omega
  · intro x
    have hsingle := h.single x
    have hnone := hnone x
    dsimp only
    rw [owners_cons, owners_singleton]
    split
    next hx => rw [hnone hx]
    next => omega
  · exact List.forall_mem_cons.mpr ⟨hrange, h.ranges⟩
  · have hnew : (p, want) ∉ s.heap.arenas := by
      intro hmem
      have hheld := h.recorded.held _ hmem (Nat.ne_of_gt hnonnull)
      have hcovers : Block.Covers ⟨p, want⟩ p := by
        unfold Block.Covers Block.stop
        dsimp only
        omega
      have hzero := hnone p hcovers
      have hpos : 0 < owners s.held p := owners_pos.mpr ⟨_, hheld, hcovers⟩
      omega
    refine ⟨(length_record _ _).trans h.recorded.slots, ?_, once_record hnew h.recorded.once⟩
    intro slot hslot hnull
    rcases mem_record hslot with rfl | hslot
    · exact List.mem_cons_self
    · exact List.mem_cons_of_mem _ (h.recorded.held slot hslot hnull)

/-- What a successful request for an arena leaves. -/
structure Grown (s : System) (free : List Block) (p want : Nat) (heap : Heap)
    (free' : List Block) : Prop where
  granted : ¬ Heap.Refusal p
  range : Range ⟨p, want⟩
  arenas : heap.arenas = Heap.record (p, want) s.heap.arenas
  partitioned : Partitioned ⟨heap, s.live, ⟨p, want⟩ :: s.held⟩ free' []
  untouched : Untouched s.live s.heap.mem heap.mem
  counted : ∀ x, owners free' x = owners [⟨p, want⟩] x + owners free x

theorem grow (h : Partitioned s free []) {need p : Nat} (hneed : need < 2 ^ 63 + 64)
    (hadmissible : Admissible s.held p (Heap.growSize need)) (fill : Nat → Nat) :
    (Heap.Refusal p ∧ s.heap.grow need p fill = some (false, s.heap)) ∨
      ∃ heap free', s.heap.grow need p fill = some (true, heap) ∧
        Grown s free p (Heap.growSize need) heap free' := by
  by_cases hrefused : Heap.Refusal p
  · exact .inl ⟨hrefused, if_pos hrefused⟩
  · right
    obtain ⟨hpage, hfits, hapart⟩ := hadmissible.resolve_left hrefused
    have hwant := growSize_spec hneed
    have hnull : p ≠ 0 := fun hzero => hrefused (.inl hzero)
    have hrange : Range ⟨p, Heap.growSize need⟩ :=
      ⟨Nat.pos_of_ne_zero hnull, hpage, hwant.2.1, hfits⟩
    obtain ⟨hobtained, huntouched⟩ := h.obtained hrange hapart fill
    obtain ⟨heap, free', heq, hpart, harenas, hkept, hcounted⟩ :=
      hobtained.insert hwant.2.1 (by dsimp only; omega)
    refine ⟨heap, free', ?_, hrefused, hrange, harenas, hpart, huntouched.trans hkept, hcounted⟩
    unfold Heap.grow
    rw [if_neg hrefused]
    exact congrArg (Option.map fun heap => (true, heap)) heq

/-- A new arena is large enough for the request it was made for. -/
theorem Grown.fits {heap : Heap} (h : Grown s free p want heap free') :
    ∃ b ∈ free', want ≤ b.size := by
  have hlarge := h.range.large
  have hcovered : ∀ x, p ≤ x → x < p + want → 0 < owners free' x := by
    intro x hlow hhigh
    have hcovers : Block.Covers ⟨p, want⟩ x := ⟨hlow, hhigh⟩
    rw [h.counted x, owners_singleton, if_pos hcovers]
    omega
  dsimp only at hlarge
  obtain ⟨b, hb, hlow, hhigh⟩ :=
    h.partitioned.pool.coalesced.spaced.covering (Nat.lt_add_of_pos_right (by omega)) hcovered
  refine ⟨b, hb, ?_⟩
  unfold Block.stop at hhigh
  omega

/-- The three ways a call of alloc ends. -/
inductive Allocated (s : System) (free : List Block) (layout : Layout) (p : Nat) :
    Heap.AllocResult → List Block → Prop where
  | found {ptr : Nat} {heap : Heap} {free' : List Block}
      (carved : Carved s free layout ptr heap free') :
      Allocated s free layout p ⟨ptr, heap, none⟩ free'
  | refused (refusal : Heap.Refusal p) : Allocated s free layout p ⟨0, s.heap, some p⟩ free
  | grown {ptr : Nat} {heap heap' : Heap} {free' free'' : List Block}
      (none : s.heap.take (allocNeed layout) headerSize (allocAlign layout) = some (0, s.heap))
      (small : ∀ b ∈ free, b.size < allocNeed layout)
      (grown : Grown s free p (Heap.growSize (allocNeed layout)) heap free')
      (carved : Carved ⟨heap, s.live, ⟨p, Heap.growSize (allocNeed layout)⟩ :: s.held⟩ free'
        layout ptr heap' free'') :
      Allocated s free layout p ⟨ptr, heap', some p⟩ free''

/-- Every call of alloc returns. -/
theorem alloc (h : Partitioned s free []) (layout : Layout) {p : Nat}
    (hadmissible : Admissible s.held p (Heap.growSize (allocNeed layout))) (fill : Nat → Nat) :
    ∃ r free', s.heap.alloc layout p fill = some r ∧ Allocated s free layout p r free' := by
  unfold Heap.alloc
  obtain ⟨hnone, hsmall⟩ | ⟨ptr, heap, free', htake, carved⟩ := h.take layout
  · obtain ⟨hrefused, hgrow⟩ | ⟨heap, free', hgrow, grown⟩ :=
      h.grow (allocNeed_lt layout) hadmissible fill
    · refine ⟨_, free, ?_, .refused hrefused⟩
      simp only [hnone, hgrow, Option.bind_eq_bind, Option.bind_some]
      rfl
    · -- The new arena is large enough, so the second search cannot fail.
      obtain ⟨b, hb, hfit⟩ := grown.fits
      obtain ⟨-, hsmall'⟩ | ⟨ptr, heap', free'', htake, carved⟩ := grown.partitioned.take layout
      · have := hsmall' b hb
        have := (growSize_spec (allocNeed_lt layout)).1
        omega
      · refine ⟨_, free'', ?_, .grown hnone hsmall grown carved⟩
        simp only [hnone, hgrow, htake, Option.bind_eq_bind, Option.bind_some]
        rfl
  · refine ⟨_, free', ?_, .found carved⟩
    simp only [htake, Option.bind_eq_bind, Option.bind_some, if_pos carved.nonnull]
    rfl

theorem Allocated.partitioned (h : Partitioned s free []) {layout : Layout} {p : Nat}
    {r : Heap.AllocResult} (hr : Allocated s free layout p r free') :
    Partitioned (s.afterAlloc layout r) free' [] := by
  cases hr with
  | found carved =>
    have hpart := carved.partitioned
    simpa only [System.afterAlloc, System.heldAfter, if_neg carved.nonnull] using hpart
  | refused refusal =>
    simpa only [System.afterAlloc, System.heldAfter, if_pos refusal, ↓reduceIte] using h
  | grown none small grown carved =>
    have hpart := carved.partitioned
    simpa only [System.afterAlloc, System.heldAfter, if_neg carved.nonnull,
      if_neg grown.granted] using hpart

end Partitioned

/-! Giving arenas back. -/

theorem findExact_cases {mem : Nat → Nat} (arena : Block) {free : List Block} {n first : Nat}
    (prev : Nat) (h : Seg mem first free 0) (hn : free.length < n) :
    (Heap.findExact mem arena.addr arena.size n prev first = some none ∧ arena ∉ free) ∨
      ∃ pre post, free = pre ++ arena :: post ∧
        Heap.findExact mem arena.addr arena.size n prev first = some (some (lastAddr prev pre)) := by
  induction free generalizing first prev n with
  | nil =>
    obtain ⟨n, rfl⟩ : ∃ k, n = k + 1 := ⟨n - 1, by simp only [List.length_nil] at hn; omega⟩
    have hfirst : first = 0 := h
    rw [Heap.findExact, if_pos hfirst]
    exact .inl ⟨rfl, List.not_mem_nil⟩
  | cons b free ih =>
    obtain ⟨n, rfl⟩ : ∃ k, n = k + 1 := ⟨n - 1, by omega⟩
    obtain ⟨rfl, hnull, hsize, hrest⟩ := h
    have hlength : free.length < n := by
      simp only [List.length_cons] at hn
      omega
    rw [Heap.findExact, if_neg hnull, hsize]
    by_cases hexact : b = arena
    · subst hexact
      rw [if_pos ⟨rfl, rfl⟩]
      exact .inr ⟨[], free, rfl, rfl⟩
    · have hother : ¬ (b.addr = arena.addr ∧ b.size = arena.size) := by
        rintro ⟨haddr, hsize⟩
        cases b
        cases arena
        exact hexact (congrArg₂ Block.mk haddr hsize)
      rw [if_neg hother]
      obtain ⟨hnone, hnot⟩ | ⟨pre, post, rfl, hfound⟩ := ih b.addr hrest hlength
      · exact .inl ⟨hnone, by simp [Ne.symm hexact, hnot]⟩
      · refine .inr ⟨b :: pre, post, rfl, ?_⟩
        rw [hfound, lastAddr_cons]

variable {held : List Block}

/-- Taking a held range back. -/
theorem sysHeapFree_perm {arena : Block} (hmem : arena ∈ held) (hsingle : ∀ x, owners held x ≤ 1)
    (hlarge : ∀ b ∈ held, 16 ≤ b.size) : held.Perm (arena :: sysHeapFree held arena.addr) := by
  obtain ⟨b, pre, post, -, hb, rfl, herase⟩ :=
    List.exists_of_eraseP hmem (p := fun b => decide (b.addr = arena.addr)) (by simp)
  have haddr : b.addr = arena.addr := by simpa using hb
  have hstart : ∀ c ∈ pre ++ b :: post, c.Covers c.addr := by
    intro c hc
    have := hlarge c hc
    unfold Block.Covers Block.stop
    omega
  obtain rfl : b = arena := eq_of_covers (hsingle arena.addr) (by simp) hmem
    (haddr ▸ hstart b (by simp)) (hstart arena hmem)
  unfold sysHeapFree
  rw [herase]
  exact List.perm_middle

/-- Blocks without a common byte. -/
def Apart (b c : Block) : Prop := ∀ x, ¬ (b.Covers x ∧ c.Covers x)

theorem apart_of_owners {blocks : List Block} {b c : Block} (hb : b ∈ blocks)
    (hone : ∀ x, owners blocks x + owners [c] x ≤ 1) : Apart b c := by
  rintro x ⟨hbx, hcx⟩
  have hpos : 0 < owners blocks x := owners_pos.mpr ⟨b, hb, hbx⟩
  have := hone x
  rw [owners_singleton, if_pos hcx] at this
  omega

/-- A call of SYS_HEAP_FREE is for a held arena that neither a node of the list nor a live
block meets any more. -/
def Returned (live : List Allocation) (held : List Block) (call : Nat × Heap) : Prop :=
  ∃ arena ∈ held, arena.addr = call.1 ∧
    (∃ free, Seg call.2.mem call.2.head free 0 ∧ ∀ b ∈ free, Apart b arena) ∧
    ∀ a ∈ live, Apart (a.block call.2.mem) arena

theorem freeAll_subset {calls : List (Nat × Heap)} : freeAll held calls ⊆ held := by
  induction calls generalizing held with
  | nil => exact List.Subset.refl held
  | cons call calls ih => exact List.Subset.trans ih (List.eraseP_subset)

namespace Partitioned

variable {s : System} {free free' spare : List Block} {visited rest : List (Nat × Nat)}

variable {arena : Block} {calls : List (Nat × Heap)}

variable {pre post : List Block} {a : Allocation} {heap : Heap}

theorem unlink (h : Partitioned s (pre ++ arena :: post) [])
    (hheap : heap = s.heap.setNext (lastAddr 0 pre) (s.heap.mem (arena.addr + 8))) :
    Partitioned { s with heap := heap } (pre ++ post) [arena] ∧ heap.arenas = s.heap.arenas ∧
      Untouched s.live s.heap.mem heap.mem := by
  subst hheap
  have loses := unlink_loses h.pool
  have hkept : ∀ w, 0 < owners (s.live.map (Allocation.block s.heap.mem)) w →
      (s.heap.setNext (lastAddr 0 pre) (s.heap.mem (arena.addr + 8))).mem w = s.heap.mem w := by
    intro w hw
    have htotal := h.total_le_one w
    exact loses.kept w (by omega)
  refine ⟨h.exchange ?_ rfl hkept ?_, rfl, h.blocks_eq hkept⟩
  · rw [Heap.pool_setNext]
    exact loses.pool
  · intro x
    rw [loses.counted x, owners_nil]
    omega

/-- A returned range is no longer held. -/
theorem not_mem_sysHeapFree (h : Partitioned s free spare) (hheld : arena ∈ s.held) :
    arena ∉ sysHeapFree s.held arena.addr := by
  intro hmem
  have hlarge := (h.ranges arena hheld).large
  have hcovers : arena.Covers arena.addr := by
    unfold Block.Covers Block.stop
    omega
  have hperm := sysHeapFree_perm hheld h.single fun b hb => (h.ranges b hb).large
  have hcount : owners s.held arena.addr = owners (arena :: sysHeapFree s.held arena.addr)
    arena.addr := hperm.countP_eq _
  have hpos : 0 < owners (sysHeapFree s.held arena.addr) arena.addr :=
    owners_pos.mpr ⟨arena, hmem, hcovers⟩
  have hsingle := h.single arena.addr
  rw [hcount, owners_cons, owners_singleton, if_pos hcovers] at hsingle
  omega

/-- An arena in transit goes back to the kernel and out of the table. -/
theorem giveBack (h : Partitioned s free [arena]) (hheld : arena ∈ s.held)
    (harenas : s.heap.arenas = visited ++ (arena.addr, arena.size) :: rest) :
    Partitioned ⟨{ s.heap with arenas := visited ++ (0, 0) :: rest }, s.live,
      sysHeapFree s.held arena.addr⟩ free [] := by
  have hperm := sysHeapFree_perm hheld h.single fun b hb => (h.ranges b hb).large
  have hcount : ∀ x, owners s.held x = owners [arena] x +
      owners (sysHeapFree s.held arena.addr) x := by
    intro x
    rw [← owners_cons]
    exact hperm.countP_eq _
  have hrecorded := h.recorded
  rw [harenas] at hrecorded
  obtain ⟨hslots, hin, honce⟩ := hrecorded
  obtain ⟨hvisited, hcons, hcross⟩ := List.pairwise_append.mp honce
  obtain ⟨hslot, hrest⟩ := List.pairwise_cons.mp hcons
  have hnull : arena.addr ≠ 0 := Nat.ne_of_gt (h.ranges arena hheld).nonnull
  refine ⟨h.pool, h.placed, ?_, ?_, ?_, ?_, ?_, ?_⟩
  · intro x
    have howned := h.owned x
    have := hcount x
    rw [owners_nil]
    dsimp only
    omega
  · intro x
    have := h.single x
    have := hcount x
    dsimp only
    omega
  · exact fun b hb => h.ranges b (List.eraseP_subset hb)
  · simpa using hslots
  · intro slot hmem hpos
    -- Only the cleared slot recorded this arena.
    have hother : slot ∈ visited ++ (arena.addr, arena.size) :: rest ∧
        slot ≠ (arena.addr, arena.size) := by
      rcases List.mem_append.mp hmem with hmem | hmem
      · exact ⟨List.mem_append_left _ hmem, hcross slot hmem _ List.mem_cons_self hpos⟩
      · rcases List.mem_cons.mp hmem with rfl | hmem
        · exact absurd rfl hpos
        · exact ⟨by simp [hmem], (hslot slot hmem hnull).symm⟩
    have hslot := hperm.mem_iff.mp (hin slot hother.1 hpos)
    rcases List.mem_cons.mp hslot with heq | hslot
    · exact absurd (congrArg (fun b : Block => (b.addr, b.size)) heq) hother.2
    · exact hslot
  · refine List.pairwise_append.mpr ⟨hvisited, List.pairwise_cons.mpr ⟨?_, hrest⟩, ?_⟩
    · exact fun _ _ hzero => absurd rfl hzero
    · intro slot hslot slot' hslot' hpos
      rcases List.mem_cons.mp hslot' with rfl | hslot'
      · rintro rfl
        exact hpos rfl
      · exact hcross slot hslot slot' (List.mem_cons_of_mem _ hslot') hpos

/-- What visiting the remaining slots leaves. -/
structure Released (s : System) (free : List Block) (visited : List (Nat × Nat)) (heap : Heap)
    (calls : List (Nat × Heap)) (free' : List Block) : Prop where
  partitioned : Partitioned ⟨heap, s.live, freeAll s.held calls⟩ free' []
  untouched : Untouched s.live s.heap.mem heap.mem
  returned : ∀ call ∈ calls, Returned s.live s.held call
  nodes : free' ⊆ free
  /-- An arena still recorded in a slot that was visited has no node of its own. -/
  searched : ∀ slot ∈ heap.arenas, slot.1 ≠ 0 → slot ∈ visited ∨ ⟨slot.1, slot.2⟩ ∉ free'
  complete : (∀ b ∈ s.held, (b.addr, b.size) ∈ s.heap.arenas) →
    ∀ b ∈ freeAll s.held calls, (b.addr, b.size) ∈ heap.arenas

/-- A slot that stays as it is. -/
theorem Released.skip {slot : Nat × Nat} (h : Released s free (visited ++ [slot]) heap calls free')
    (hslot : slot.1 ≠ 0 → ⟨slot.1, slot.2⟩ ∉ free) : Released s free visited heap calls free' := by
  refine { h with searched := fun slot' hmem hpos => ?_ }
  rcases h.searched slot' hmem hpos with hvisited | hnode
  · rcases List.mem_append.mp hvisited with hvisited | hlast
    · exact .inl hvisited
    · obtain rfl := List.mem_singleton.mp hlast
      exact .inr fun hnode => hslot hpos (h.nodes hnode)
  · exact .inr hnode

/-- A slot whose arena is returned, followed by the slots after it. -/
theorem Released.give (h : Partitioned s (pre ++ arena :: post) []) (hheld : arena ∈ s.held)
    (harenas : s.heap.arenas = visited ++ (arena.addr, arena.size) :: rest) {heap after : Heap}
    (hheap : heap = s.heap.setNext (lastAddr 0 pre) (s.heap.mem (arena.addr + 8)))
    (hafter : Released ⟨{ heap with arenas := visited ++ (0, 0) :: rest }, s.live,
      sysHeapFree s.held arena.addr⟩ (pre ++ post) (visited ++ [(0, 0)]) after calls free') :
    Released s (pre ++ arena :: post) visited after ((arena.addr, heap) :: calls) free' := by
  obtain ⟨hunlinked, -, huntouched⟩ := h.unlink hheap
  refine ⟨hafter.partitioned, huntouched.trans hafter.untouched, ?_, ?_, ?_, ?_⟩
  · refine List.forall_mem_cons.mpr
      ⟨⟨arena, hheld, rfl, ⟨pre ++ post, hunlinked.pool.list, ?_⟩, ?_⟩, ?_⟩
    · intro b hb
      refine apart_of_owners hb fun x => ?_
      have := hunlinked.total_le_one x
      omega
    · intro a ha
      refine apart_of_owners (List.mem_map_of_mem ha) fun x => ?_
      have := hunlinked.total_le_one x
      dsimp only at this ⊢
      omega
    · intro call hcall
      obtain ⟨b, hb, hcall⟩ := hafter.returned call hcall
      exact ⟨b, List.eraseP_subset hb, hcall⟩
  · refine List.Subset.trans hafter.nodes fun b hb => ?_
    rcases List.mem_append.mp hb with hb | hb
    · exact List.mem_append_left _ hb
    · exact List.mem_append_right _ (List.mem_cons_of_mem _ hb)
  · intro slot hmem hpos
    rcases hafter.searched slot hmem hpos with hvisited | hnode
    · rcases List.mem_append.mp hvisited with hvisited | hlast
      · exact .inl hvisited
      · rw [List.mem_singleton.mp hlast] at hpos
        exact absurd rfl hpos
    · exact .inr hnode
  · intro hcomplete
    refine hafter.complete fun b hb => ?_
    have hslot := hcomplete b (List.eraseP_subset hb)
    rw [harenas] at hslot
    rcases List.mem_append.mp hslot with hslot | hslot
    · exact List.mem_append_left _ hslot
    · rcases List.mem_cons.mp hslot with heq | hslot
      · obtain rfl : b = arena := by
          cases b
          cases arena
          cases heq
          rfl
        exact absurd hb (h.not_mem_sysHeapFree hheld)
      · exact List.mem_append_right _ (List.mem_cons_of_mem _ hslot)

/-- The loop over the slots returns; one case per way a visit can end. -/
theorem releaseSlots (h : Partitioned s free []) (harenas : s.heap.arenas = visited ++ rest) :
    ∃ heap calls free', s.heap.releaseSlots visited rest = some (heap, calls) ∧
      Released s free visited heap calls free' := by
  induction rest generalizing s free visited with
  | nil =>
    refine ⟨s.heap, [], free, rfl, h, fun _ _ => rfl, by simp, List.Subset.refl _, ?_, id⟩
    intro slot hslot _
    rw [harenas, List.append_nil] at hslot
    exact .inl hslot
  | cons slot rest ih =>
    have hshift : s.heap.arenas = (visited ++ [slot]) ++ rest := by simpa using harenas
    rw [Heap.releaseSlots]
    by_cases hempty : slot.1 = 0
    · rw [if_pos hempty]
      obtain ⟨heap, calls, free', heq, hreleased⟩ := ih h hshift
      exact ⟨heap, calls, free', heq, hreleased.skip fun hpos => absurd hempty hpos⟩
    · rw [if_neg hempty]
      obtain ⟨hnone, hnot⟩ | ⟨pre, post, rfl, hfound⟩ :=
        findExact_cases ⟨slot.1, slot.2⟩ 0 h.pool.list h.pool.length_lt
      · obtain ⟨heap, calls, free', heq, hreleased⟩ := ih h hshift
        refine ⟨heap, calls, free', ?_, hreleased.skip fun _ => hnot⟩
        rw [show Heap.findExact s.heap.mem slot.1 slot.2 fuel 0 s.heap.head = some none from hnone]
        exact heq
      · have hheld := h.recorded.held slot (by rw [harenas]; simp) hempty
        obtain ⟨hunlinked, hsame, -⟩ := h.unlink rfl
        have hgiven := hunlinked.giveBack hheld (hsame.trans harenas)
        have hcleared : visited ++ (0, 0) :: rest = (visited ++ [(0, 0)]) ++ rest := by simp
        obtain ⟨heap, calls, free', heq, hreleased⟩ := ih hgiven hcleared
        refine ⟨heap, _, free', ?_, .give h hheld harenas rfl hreleased⟩
        rw [show Heap.findExact s.heap.mem slot.1 slot.2 fuel 0 s.heap.head =
          some (some (lastAddr 0 pre)) from hfound]
        dsimp only at heq ⊢
        rw [heq]
        rfl

/-- A call of dealloc on a live pointer returns. -/
theorem dealloc (h : Partitioned s free []) (ha : a ∈ s.live) :
    ∃ heap heap' calls free₁ free', s.heap.dealloc a.ptr = some (heap', calls) ∧
      Untouched (s.live.erase a) s.heap.mem heap.mem ∧
      (∀ x, owners free₁ x = owners [a.block s.heap.mem] x + owners free x) ∧
      Partitioned ⟨heap, s.live.erase a, s.held⟩ free₁ [] ∧ heap.arenas = s.heap.arenas ∧
      Released ⟨heap, s.live.erase a, s.held⟩ free₁ [] heap' calls free' := by
  have hplaced := h.placed a ha
  have hreleased := (h.perm (List.perm_cons_erase ha)).release
  obtain ⟨heap, free₁, hinsert, hpart, harenas, huntouched, hcounted⟩ :=
    hreleased.insert hplaced.large hplaced.block
  obtain ⟨heap', calls, free', hslots, hreleased⟩ := hpart.releaseSlots (List.nil_append _).symm
  refine ⟨heap, heap', calls, free₁, free', ?_, huntouched, hcounted, hpart, harenas, hreleased⟩
  unfold Heap.dealloc
  rw [Option.bind_eq_bind]
  exact (congrArg (Option.bind · Heap.releaseEmptyArenas) hinsert).trans hslots

/-- The holder of a pointer writes a word of its payload. -/
theorem store (h : Partitioned s free []) (ha : a ∈ s.live) {word : Nat}
    (hlow : a.ptr ≤ word) (hhigh : word < a.ptr + a.layout.size) (value : Nat) :
    Partitioned { s with heap := { s.heap with mem := Function.update s.heap.mem word value } }
      free [] ∧ Untouched s.live s.heap.mem (Function.update s.heap.mem word value) := by
  have hplaced := h.placed a ha
  have hperm := List.perm_cons_erase ha
  obtain ⟨hcovers, hblock⟩ := hplaced.store hlow hhigh value
  have hreleased := (h.perm hperm).release
  have hgranted := (hreleased.writeSpare hcovers value).grant hblock (hplaced.congr hblock)
  have hothers : Untouched (s.live.erase a) s.heap.mem (Function.update s.heap.mem word value) := by
    refine hreleased.blocks_eq fun w hw => Function.update_of_ne ?_ _ _
    rintro rfl
    have htotal := hreleased.total_le_one w
    rw [owners_singleton, if_pos hcovers] at htotal
    dsimp only at htotal hw
    omega
  refine ⟨hgranted.perm hperm.symm, fun c hc => ?_⟩
  rcases List.mem_cons.mp (hperm.mem_iff.mp hc) with rfl | hc
  · exact hblock
  · exact hothers c hc

end Partitioned

namespace System

variable {s : System}

theorem holder_spec {ptr : Nat} {a : Allocation} (h : s.holder ptr = some a) :
    a ∈ s.live ∧ a.ptr = ptr :=
  ⟨List.mem_of_find?_eq_some h, by simpa using List.find?_some h⟩

theorem partitioned_boot (mem : Nat → Nat) : Partitioned (boot mem) [] [] where
  pool := ⟨rfl, List.Pairwise.nil, by simp, by simp, by simp⟩
  placed := by simp [boot]
  owned := by simp [boot]
  single := by simp [boot]
  ranges := by simp [boot]
  recorded := by
    refine ⟨List.length_replicate, ?_, ?_⟩
    · intro slot hslot hpos
      rw [List.eq_of_mem_replicate hslot] at hpos
      exact absurd rfl hpos
    · exact List.pairwise_replicate.mpr (.inr fun hpos => absurd rfl hpos)

/-- The step lemma: every call, and every write into a payload, keeps the partition. -/
theorem step_partitioned {s t : System} {e : Event} {free : List Block}
    (h : Partitioned s free []) (hstep : s.step e = some t) : ∃ free', Partitioned t free' [] := by
  cases e with
  | alloc layout p fill =>
    simp only [step, Option.ite_none_right_eq_some, Option.map_eq_some_iff] at hstep
    obtain ⟨hadmissible, r, hr, rfl⟩ := hstep
    obtain ⟨r', free', heq, hallocated⟩ := h.alloc layout hadmissible fill
    obtain rfl := Option.some.inj (hr.symm.trans heq)
    exact ⟨free', hallocated.partitioned h⟩
  | dealloc ptr =>
    simp only [step, Option.bind_eq_some_iff, Option.map_eq_some_iff] at hstep
    obtain ⟨a, hholder, ⟨heap, calls⟩, hdealloc, rfl⟩ := hstep
    obtain ⟨ha, rfl⟩ := holder_spec hholder
    obtain ⟨_, heap', calls', _, free', heq, -, -, -, -, hreleased⟩ := h.dealloc ha
    obtain ⟨rfl, rfl⟩ := Prod.mk.inj (Option.some.inj (hdealloc.symm.trans heq))
    exact ⟨free', hreleased.partitioned⟩
  | store ptr word value =>
    simp only [step, Option.bind_eq_some_iff, Option.ite_none_right_eq_some] at hstep
    obtain ⟨a, hholder, ⟨hlow, hhigh, -⟩, hstep⟩ := hstep
    obtain ⟨ha, rfl⟩ := holder_spec hholder
    cases hstep
    exact ⟨free, (h.store ha hlow hhigh value).1⟩

theorem run_partitioned {mem : Nat → Nat} {es : List Event}
    (run : Run (fun s e t => step s e = some t) (boot mem) es s) :
    ∃ free, Partitioned s free [] := by
  refine run.preserves (I := fun s => ∃ free, Partitioned s free []) ?_
    ⟨[], partitioned_boot mem⟩
  rintro s e t ⟨free, h⟩ hstep
  exact step_partitioned h hstep

end System

/-- The heap after any sequence of calls, whatever ranges the kernel hands out. The free list
is sorted, disjoint and coalesced; free nodes and live blocks partition the memory held; every
live pointer is aligned with its header and payload inside its block. Every further call
returns, alloc with null only after a refusal, and dealloc returns only arenas that nothing
meets any more. -/
theorem user_heap_partitioned {mem : Nat → Nat} {s : System} {es : List Event}
    (run : Run (fun s e t => System.step s e = some t) (.boot mem) es s) :
    (∃ free, Seg s.heap.mem s.heap.head free 0 ∧ Coalesced free ∧
      ∀ x, owners free x + owners (s.live.map (Allocation.block s.heap.mem)) x = owners s.held x ∧
        owners s.held x ≤ 1) ∧
    (∀ a ∈ s.live, a.ptr ≠ 0 ∧ Placed s.heap.mem a) ∧
    (∀ layout p fill, Admissible s.held p (Heap.growSize (allocNeed layout)) →
      ∃ r, s.heap.alloc layout p fill = some r ∧
        (r.ptr = 0 → r.answer = some p ∧ Heap.Refusal p)) ∧
    ∀ a ∈ s.live, ∃ heap calls, s.heap.dealloc a.ptr = some (heap, calls) ∧
      ∀ call ∈ calls, Returned (s.live.erase a) s.held call := by
  obtain ⟨free, h⟩ := System.run_partitioned run
  refine ⟨⟨free, h.pool.list, h.pool.coalesced, fun x => ⟨?_, h.single x⟩⟩, ?_, ?_, ?_⟩
  · have howned := h.owned x
    rwa [owners_nil, Nat.add_zero] at howned
  · intro a ha
    have hplaced := h.placed a ha
    refine ⟨?_, hplaced⟩
    have hheader := hplaced.header
    simp only [headerSize] at hheader
    omega
  · intro layout p fill hadmissible
    obtain ⟨r, free', hr, hallocated⟩ := h.alloc layout hadmissible fill
    refine ⟨r, hr, fun hnull => ?_⟩
    cases hallocated with
    | found carved | grown _ _ _ carved => exact absurd hnull carved.nonnull
    | refused refusal => exact ⟨rfl, refusal⟩
  · intro a ha
    obtain ⟨_, heap, calls, _, _, heq, -, -, -, -, hreleased⟩ := h.dealloc ha
    exact ⟨heap, calls, heq, hreleased.returned⟩

def largeLayout : Layout := ⟨100000, 3, by decide⟩

/-- Two allocations, the second of which runs over into an arena of its own, and the first freed. -/
theorem user_heap_partitioned_adjacent : ∃ s,
    Run (fun s e t => System.step s e = some t) (.boot fun _ => 0)
      [.alloc largeLayout 0x10000000 fun _ => 0, .alloc largeLayout 0x10020000 fun _ => 0,
        .dealloc 0x10000010] s ∧
    s.live = [⟨0x100186c8, largeLayout⟩] ∧
    s.held = [⟨0x10020000, arenaSize⟩, ⟨0x10000000, arenaSize⟩] ∧
    ∃ free, Seg s.heap.mem s.heap.head free 0 ∧ Coalesced free ∧
      ∀ x, owners free x + owners (s.live.map (Allocation.block s.heap.mem)) x = owners s.held x ∧
        owners s.held x ≤ 1 := by
  have hall : (([.alloc largeLayout 0x10000000 fun _ => 0,
      .alloc largeLayout 0x10020000 fun _ => 0, .dealloc 0x10000010] : List Event).foldlM System.step
      (.boot fun _ => 0)).map (fun s => (s.live, s.held)) =
      some ([⟨0x100186c8, largeLayout⟩],
        [⟨0x10020000, arenaSize⟩, ⟨0x10000000, arenaSize⟩]) := by decide +kernel
  obtain ⟨s, hrun, heq⟩ := Option.map_eq_some_iff.mp hall
  obtain ⟨hlive, hheld⟩ := Prod.mk.inj heq
  have hrun := Run.of_foldlM hrun
  exact ⟨s, hrun, hlive, hheld, (user_heap_partitioned hrun).1⟩

end KazuOS.User
