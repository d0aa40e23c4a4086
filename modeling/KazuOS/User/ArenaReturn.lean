import KazuOS.User.Arenas

/-! When an arena goes back to the kernel. Release looks for a free node equal to the arena,
so it works as long as no free node can grow past an arena: no range the kernel hands out may
touch one that is still held. -/
namespace KazuOS.User

open Lib Memory KernelAllocator FreePool HeapPartition

/-- The condition on a step that obtains a range: the table has an empty slot, and the range
leaves a gap to every range still held. -/
def Gapped (s : System) : Event → Prop
  | .alloc layout p _ =>
      s.heap.take (allocNeed layout) headerSize (allocAlign layout) = some (0, s.heap) →
      ¬ Heap.Refusal p → s.held.length < maxArenas ∧
        ∀ b ∈ s.held, b.stop ≠ p ∧ p + Heap.growSize (allocNeed layout) ≠ b.addr
  | _ => True

/-- Every arena is recorded, apart from the others, and in use. -/
structure InUse (s : System) : Prop where
  spaced : Spaced s.held
  complete : ∀ b ∈ s.held, (b.addr, b.size) ∈ s.heap.arenas
  used : ∀ b ∈ s.held, ∃ a ∈ s.live, ¬ Apart (a.block s.heap.mem) b

variable {arenas : List (Nat × Nat)} {free : List Block}

variable {arena slot : Nat × Nat} {s : System} {b : Block}

theorem record_old (hmem : slot ∈ arenas)
    (hpos : slot.1 ≠ 0) : slot ∈ Heap.record arena arenas := by
  induction arenas with
  | nil => cases hmem
  | cons first rest ih =>
    rw [Heap.record]
    split
    next hzero =>
      rcases List.mem_cons.mp hmem with rfl | hmem
      · exact absurd hzero hpos
      · exact List.mem_cons_of_mem _ hmem
    next =>
      rcases List.mem_cons.mp hmem with rfl | hmem
      · exact List.mem_cons_self
      · exact List.mem_cons_of_mem _ (ih hmem)

theorem record_new (hmem : slot ∈ arenas)
    (hzero : slot.1 = 0) : arena ∈ Heap.record arena arenas := by
  induction arenas with
  | nil => cases hmem
  | cons first rest ih =>
    rw [Heap.record]
    split
    next => exact List.mem_cons_self
    next hpos =>
      rcases List.mem_cons.mp hmem with rfl | hmem
      · exact absurd hzero hpos
      · exact List.mem_cons_of_mem _ (ih hmem)

/-- With fewer ranges held than slots, a slot is empty. -/
theorem Recorded.exists_empty {held : List Block} (h : Recorded arenas held)
    (hroom : held.length < maxArenas) : ∃ slot ∈ arenas, slot.1 = 0 := by
  by_contra hfull
  push Not at hfull
  have hnodup : arenas.Nodup := by
    refine List.Pairwise.imp_of_mem ?_ h.once
    intro slot slot' hslot _ hne
    exact hne (hfull slot hslot)
  have hinj : (arenas.map fun slot => (⟨slot.1, slot.2⟩ : Block)).Nodup := by
    refine hnodup.map ?_
    rintro ⟨a, b⟩ ⟨c, d⟩ heq
    cases heq
    rfl
  have hsub : (arenas.map fun slot => (⟨slot.1, slot.2⟩ : Block)) ⊆ held := by
    intro b hb
    obtain ⟨slot, hslot, rfl⟩ := List.mem_map.mp hb
    exact h.held slot hslot (hfull slot hslot)
  have hlength := (List.subperm_of_subset hinj hsub).length_le
  rw [List.length_map, h.slots] at hlength
  omega

/-- Bytes of a range that no live block meets are free. -/
theorem Partitioned.free_of_apart (h : Partitioned s free [])
    (hb : b ∈ s.held) (hapart : ∀ a ∈ s.live, Apart (a.block s.heap.mem) b) {x : Nat}
    (hx : b.Covers x) : 0 < owners free x := by
  have hheld : 0 < owners s.held x := owners_pos.mpr ⟨b, hb, hx⟩
  have hlive : owners (s.live.map (Allocation.block s.heap.mem)) x = 0 := by
    refine Nat.eq_zero_of_not_pos fun hpos => ?_
    obtain ⟨c, hc, hcx⟩ := owners_pos.mp hpos
    obtain ⟨a, ha, rfl⟩ := List.mem_map.mp hc
    exact hapart a ha x ⟨hcx, hx⟩
  have howned := h.owned x
  rw [owners_nil] at howned
  omega

/-- A free node around such a range is the range itself, if the ranges held do not touch. -/
theorem Partitioned.mem_free_of_apart (h : Partitioned s free []) (hspaced : Spaced s.held)
    (hb : b ∈ s.held) (hapart : ∀ a ∈ s.live, Apart (a.block s.heap.mem) b) : b ∈ free := by
  have hsize := (h.ranges b hb).large
  have hstart : b.Covers b.addr := by
    unfold Block.Covers Block.stop
    omega
  obtain ⟨c, hc, hclow, hchigh⟩ := h.pool.coalesced.spaced.covering hstart.2
    fun x hlow hhigh => h.free_of_apart hb hapart ⟨hlow, hhigh⟩
  -- The node lies in one range, and that range has a byte of `b`.
  obtain ⟨d, hd, hdlow, hdhigh⟩ := hspaced.covering
    (Nat.lt_of_le_of_lt hclow (Nat.lt_of_lt_of_le hstart.2 hchigh))
    fun x hlow hhigh => h.held_of_free hc ⟨hlow, hhigh⟩
  obtain rfl : d = b := eq_of_covers (h.single b.addr) hd hb
    ⟨by omega, Nat.lt_of_lt_of_le hstart.2 (by omega)⟩ hstart
  have heq : c = d := by
    cases c
    cases d
    simp only [Block.stop] at hclow hchigh hdlow hdhigh
    congr 1 <;> omega
  exact heq ▸ hc

namespace InUse

variable {s : System} {free free' : List Block}

variable {layout : Layout}

/-- An allocation in a new arena: every free block was too small, so the block carved cannot
lie in the old ones. -/
theorem grown (h : Partitioned s free []) (huse : InUse s) {p ptr : Nat}
    {heap heap' : Heap} {free₁ free₂ : List Block} (hroom : s.held.length < maxArenas)
    (hgap : ∀ b ∈ s.held, b.stop ≠ p ∧ p + Heap.growSize (allocNeed layout) ≠ b.addr)
    (hapart : ∀ b ∈ s.held, b.stop ≤ p ∨ p + Heap.growSize (allocNeed layout) ≤ b.addr)
    (hsmall : ∀ b ∈ free, b.size < allocNeed layout)
    (hgrown : Partitioned.Grown s free p (Heap.growSize (allocNeed layout)) heap free₁)
    (hcarved : Partitioned.Carved
      ⟨heap, s.live, ⟨p, Heap.growSize (allocNeed layout)⟩ :: s.held⟩ free₁ layout ptr heap' free₂) :
    InUse ⟨heap', ⟨ptr, layout⟩ :: s.live,
      ⟨p, Heap.growSize (allocNeed layout)⟩ :: s.held⟩ := by
  have harenas : heap'.arenas = Heap.record _ s.heap.arenas := hcarved.arenas.trans hgrown.arenas
  have huntouched := hgrown.untouched.trans hcarved.untouched
  refine ⟨?_, ?_, ?_⟩
  · have hnew : ∀ b ∈ s.held, b.stop < p ∨ p + Heap.growSize (allocNeed layout) < b.addr := by
      intro b hb
      have := hgap b hb
      have := hapart b hb
      omega
    intro b hb c hc hne
    rcases List.mem_cons.mp hb with rfl | hb <;> rcases List.mem_cons.mp hc with rfl | hc
    · exact absurd rfl hne
    · exact (hnew c hc).symm
    · exact hnew b hb
    · exact huse.spaced b hb c hc hne
  · dsimp only
    rw [harenas]
    refine List.forall_mem_cons.mpr ⟨?_, fun b hb => ?_⟩
    · obtain ⟨slot, hslot, hzero⟩ := h.recorded.exists_empty hroom
      exact record_new hslot hzero
    · exact record_old (huse.complete b hb) (Nat.ne_of_gt (h.ranges b hb).nonnull)
  · refine List.forall_mem_cons.mpr ⟨⟨_, List.mem_cons_self, fun hmeets => ?_⟩, fun b hb => ?_⟩
    · have hlarge := hcarved.large
      have hpos := allocNeed_pos layout
      have hfree : ∀ x, (Allocation.block heap'.mem ⟨ptr, layout⟩).Covers x →
          0 < owners free x := by
        intro x hx
        have hcounted := hcarved.counted x
        have hcounted' := hgrown.counted x
        have hout : ¬ Block.Covers ⟨p, Heap.growSize (allocNeed layout)⟩ x :=
          fun hin => hmeets x ⟨hx, hin⟩
        rw [owners_singleton, if_pos hx] at hcounted
        rw [owners_singleton, if_neg hout] at hcounted'
        omega
      obtain ⟨c, hc, hlow, hhigh⟩ := h.pool.coalesced.spaced.covering
        (show (Allocation.block heap'.mem ⟨ptr, layout⟩).addr <
          (Allocation.block heap'.mem ⟨ptr, layout⟩).stop by unfold Block.stop; omega)
        fun x hlow hhigh => hfree x ⟨hlow, hhigh⟩
      have := hsmall c hc
      unfold Block.stop at hhigh
      omega
    · obtain ⟨a, ha, hmeets⟩ := huse.used b hb
      refine ⟨a, List.mem_cons_of_mem _ ha, ?_⟩
      dsimp only
      rwa [huntouched a ha]

theorem alloc (h : Partitioned s free []) (huse : InUse s) {p : Nat}
    {r : Heap.AllocResult} (fill : Nat → Nat) (hgapped : Gapped s (.alloc layout p fill))
    (hadmissible : Admissible s.held p (Heap.growSize (allocNeed layout)))
    (hr : Partitioned.Allocated s free layout p r free') : InUse (s.afterAlloc layout r) := by
  cases hr with
  | found carved =>
    simp only [System.afterAlloc, System.heldAfter, if_neg carved.nonnull]
    refine ⟨huse.spaced, fun b hb => ?_, fun b hb => ?_⟩
    · dsimp only
      rw [carved.arenas]
      exact huse.complete b hb
    · obtain ⟨a, ha, hmeets⟩ := huse.used b hb
      refine ⟨a, List.mem_cons_of_mem _ ha, ?_⟩
      dsimp only
      rwa [carved.untouched a ha]
  | refused refusal =>
    simpa only [System.afterAlloc, System.heldAfter, if_pos refusal, ↓reduceIte] using huse
  | grown none small grown carved =>
    simp only [System.afterAlloc, System.heldAfter, if_neg carved.nonnull, if_neg grown.granted]
    obtain ⟨hroom, hgap⟩ := hgapped none grown.granted
    exact huse.grown h hroom hgap (hadmissible.resolve_left grown.granted).2.2 small grown carved

/-- After a deallocation: an arena that nothing meets has a node of its own, and every slot has
been searched for such a node. -/
theorem released {heap : Heap} {live : List Allocation} {heap' : Heap} {calls : List (Nat × Heap)}
    (h : Partitioned ⟨heap, live, s.held⟩ free []) (huse : InUse s)
    (harenas : heap.arenas = s.heap.arenas)
    (hreleased : Partitioned.Released ⟨heap, live, s.held⟩ free [] heap' calls free') :
    InUse ⟨heap', live, freeAll s.held calls⟩ := by
  have hspaced : Spaced (freeAll s.held calls) := fun b hb c hc hne =>
    huse.spaced b (freeAll_subset hb) c (freeAll_subset hc) hne
  have hcomplete : ∀ b ∈ freeAll s.held calls, (b.addr, b.size) ∈ heap'.arenas :=
    hreleased.complete fun b hb => by
      dsimp only
      rw [harenas]
      exact huse.complete b hb
  refine ⟨hspaced, hcomplete, fun b hb => ?_⟩
  by_contra hunused
  push Not at hunused
  have hnode := hreleased.partitioned.mem_free_of_apart hspaced hb hunused
  have hpos := (h.ranges b (freeAll_subset hb)).nonnull
  rcases hreleased.searched (b.addr, b.size) (hcomplete b hb) (Nat.ne_of_gt hpos) with hnot | hnot
  · cases hnot
  · exact hnot hnode

end InUse

/-- The step lemma under the condition. -/
theorem InUse.step {s t : System} {e : Event} (h : Partitioned s free [])
    (huse : InUse s) (hgapped : Gapped s e) (hstep : s.step e = some t) : InUse t := by
  cases e with
  | alloc layout p fill =>
    simp only [System.step, Option.ite_none_right_eq_some, Option.map_eq_some_iff] at hstep
    obtain ⟨hadmissible, r, hr, rfl⟩ := hstep
    obtain ⟨r', free', heq, hallocated⟩ := h.alloc layout hadmissible fill
    obtain rfl := Option.some.inj (hr.symm.trans heq)
    exact huse.alloc h fill hgapped hadmissible hallocated
  | dealloc ptr =>
    simp only [System.step, Option.bind_eq_some_iff, Option.map_eq_some_iff] at hstep
    obtain ⟨a, hholder, ⟨heap', calls⟩, hdealloc, rfl⟩ := hstep
    obtain ⟨ha, rfl⟩ := System.holder_spec hholder
    obtain ⟨heap, _, _, _, _, heq, -, -, hpart, harenas, hreleased⟩ := h.dealloc ha
    obtain ⟨rfl, rfl⟩ := Prod.mk.inj (Option.some.inj (hdealloc.symm.trans heq))
    exact huse.released hpart harenas hreleased
  | store ptr word value =>
    simp only [System.step, Option.bind_eq_some_iff, Option.ite_none_right_eq_some] at hstep
    obtain ⟨a, hholder, ⟨hlow, hhigh, -⟩, hstep⟩ := hstep
    obtain ⟨ha, rfl⟩ := System.holder_spec hholder
    cases hstep
    have huntouched := (h.store ha hlow hhigh value).2
    refine ⟨huse.spaced, huse.complete, fun b hb => ?_⟩
    obtain ⟨c, hc, hmeets⟩ := huse.used b hb
    refine ⟨c, hc, ?_⟩
    dsimp only
    rwa [huntouched c hc]

/-- As long as no range the kernel hands out touches one still held, every arena held has a
live block; once every allocation has been freed, no arena is held. -/
theorem unused_arenas_returned {mem : Nat → Nat} {s : System} {es : List Event}
    (run : Run (fun s e t => System.step s e = some t ∧ Gapped s e) (.boot mem) es s) :
    (∀ b ∈ s.held, ∃ a ∈ s.live, ¬ Apart (a.block s.heap.mem) b) ∧ (s.live = [] → s.held = []) := by
  have hstart : (∃ free, Partitioned (System.boot mem) free []) ∧ InUse (System.boot mem) :=
    ⟨⟨[], System.partitioned_boot mem⟩, by simp [Spaced, System.boot], by simp [System.boot],
      by simp [System.boot]⟩
  obtain ⟨-, huse⟩ := run.preserves (I := fun s => (∃ free, Partitioned s free []) ∧ InUse s)
    (by
      rintro s e t ⟨⟨free, h⟩, huse⟩ ⟨hstep, hgapped⟩
      exact ⟨System.step_partitioned h hstep, huse.step h hgapped hstep⟩) hstart
  refine ⟨huse.used, fun hlive => List.eq_nil_iff_forall_not_mem.mpr fun b hb => ?_⟩
  obtain ⟨a, ha, -⟩ := huse.used b hb
  rw [hlive] at ha
  cases ha

/-- Two allocations in arenas far from each other, the first of them freed. -/
theorem unused_arenas_returned_distant : ∃ s,
    Run (fun s e t => System.step s e = some t ∧ Gapped s e) (.boot fun _ => 0)
      [.alloc largeLayout 0x10000000 fun _ => 0, .alloc largeLayout 0x20000000 fun _ => 0,
        .dealloc 0x10000010] s ∧
    s.held = [⟨0x20000000, arenaSize⟩] ∧
    ∀ b ∈ s.held, ∃ a ∈ s.live, ¬ Apart (a.block s.heap.mem) b := by
  let first : Event := .alloc largeLayout 0x10000000 fun _ => 0
  let second : Event := .alloc largeLayout 0x20000000 fun _ => 0
  have hone : (System.step (.boot fun _ => 0) first).map System.held =
      some [⟨0x10000000, arenaSize⟩] := by decide +kernel
  obtain ⟨s₁, hfirst, hheld₁⟩ := Option.map_eq_some_iff.mp hone
  have hall : ([first, second, .dealloc 0x10000010].foldlM System.step (.boot fun _ => 0)).map
      System.held = some [⟨0x20000000, arenaSize⟩] := by decide +kernel
  obtain ⟨s, hrun, hheld⟩ := Option.map_eq_some_iff.mp hall
  simp only [List.foldlM_cons, List.foldlM_nil, hfirst, Option.bind_eq_bind, Option.bind_some,
    Option.bind_eq_some_iff] at hrun
  obtain ⟨s₂, hsecond, s₃, hdealloc, hs⟩ := hrun
  obtain rfl : s₃ = s := Option.some.inj hs
  have hgap : Gapped s₁ second := by
    intro _ _
    rw [hheld₁]
    decide
  have run : Run (fun s e t => System.step s e = some t ∧ Gapped s e) (.boot fun _ => 0)
      [first, second, .dealloc 0x10000010] s₃ :=
    .cons ⟨hfirst, fun _ _ => by decide⟩
      (.cons ⟨hsecond, hgap⟩ (.cons ⟨hdealloc, trivial⟩ (.nil _)))
  exact ⟨s₃, run, hheld, (unused_arenas_returned run).1⟩

/-- Two adjacent arenas, as consecutive answers of the kernel's bump pointer are. The free
remainder of the first merges with the second, and once everything is freed one node covers
both: neither arena is ever found. -/
theorem adjacent_arenas_kept : ∃ s,
    Run (fun s e t => System.step s e = some t) (.boot fun _ => 0)
      [.alloc largeLayout 0x10000000 fun _ => 0, .alloc largeLayout 0x10020000 fun _ => 0,
        .dealloc 0x10000010, .dealloc 0x100186c8] s ∧
    s.live = [] ∧ s.held = [⟨0x10020000, arenaSize⟩, ⟨0x10000000, arenaSize⟩] := by
  have hall : (([.alloc largeLayout 0x10000000 fun _ => 0,
      .alloc largeLayout 0x10020000 fun _ => 0, .dealloc 0x10000010,
      .dealloc 0x100186c8] : List Event).foldlM System.step (.boot fun _ => 0)).map
      (fun s => (s.live, s.held)) =
      some ([], [⟨0x10020000, arenaSize⟩, ⟨0x10000000, arenaSize⟩]) := by decide +kernel
  obtain ⟨s, hrun, heq⟩ := Option.map_eq_some_iff.mp hall
  obtain ⟨hlive, hheld⟩ := Prod.mk.inj heq
  exact ⟨s, Run.of_foldlM hrun, hlive, hheld⟩

end KazuOS.User
