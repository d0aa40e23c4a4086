import KazuOS.Memory.Allocator

/-! What the three global operations do to the free list. Each is described by the
byte counts before and after, and by the words it leaves alone. -/
namespace KazuOS.Memory.FreePool

open Lib KernelAllocator

/-- The global list of an allocator, as the blocks it holds. -/
structure Pool (heap : KernelAllocator) (free : List Block) : Prop where
  list : Seg heap.mem heap.head free 0
  coalesced : Coalesced free
  large : ∀ b ∈ free, 16 ≤ b.size
  aligned : ∀ b ∈ free, b.addr % 8 = 0
  bounded : ∀ b ∈ free, b.stop ≤ 2 ^ 64

variable {heap : KernelAllocator} {free : List Block} {mem : Nat → Nat} {pre post : List Block}
  {b : Block} {need : Nat} {mid : Nat}

/-- The pool does not depend on the caches. -/
theorem Pool.congr {heap heap' : KernelAllocator} (pool : Pool heap free)
    (hmem : heap'.mem = heap.mem) (hhead : heap'.head = heap.head) : Pool heap' free where
  list := hmem ▸ hhead ▸ pool.list
  coalesced := pool.coalesced
  large := pool.large
  aligned := pool.aligned
  bounded := pool.bounded

/-- The operations on the pool leave the caches alone. -/
def SameCaches (heap heap' : KernelAllocator) : Prop :=
  heap'.heads = heap.heads ∧ heap'.counts = heap.counts

/-- The address of the last block of a list, null for the empty one. -/
def lastAddr (prev : Nat) (blocks : List Block) : Nat := (blocks.getLast?.map Block.addr).getD prev

theorem lastAddr_concat (prev : Nat) (blocks : List Block) (b : Block) :
    lastAddr prev (blocks ++ [b]) = b.addr := by simp [lastAddr]

theorem lastAddr_cons (prev : Nat) (b : Block) (blocks : List Block) :
    lastAddr prev (b :: blocks) = lastAddr b.addr blocks := by
  obtain rfl | ⟨front, c, rfl⟩ := blocks.eq_nil_or_concat
  · rfl
  · rw [List.concat_eq_append, lastAddr_concat, ← List.cons_append, lastAddr_concat]

theorem addr_ne_zero {first last : Nat} {blocks : List Block}
    (h : Seg mem first blocks last) : ∀ b ∈ blocks, b.addr ≠ 0 := by
  induction blocks generalizing first with
  | nil => simp
  | cons c rest ih =>
    obtain ⟨-, hnull, -, hrest⟩ := h
    intro b hb
    obtain rfl | hb := List.mem_cons.mp hb
    · exact hnull
    · exact ih hrest b hb

theorem Pool.length_lt (pool : Pool heap free) : free.length < fuel := by
  have hlow : ∀ b ∈ free, 1 ≤ b.addr := fun b hb =>
    Nat.one_le_iff_ne_zero.mpr (addr_ne_zero pool.list b hb)
  have hsize : ∀ b ∈ free, 1 ≤ b.size := fun b hb =>
    Nat.le_trans (by decide) (pool.large b hb)
  have hlength := length_le_of_ordered pool.coalesced.ordered hsize hlow pool.bounded (by decide)
  unfold fuel
  omega

variable {n first : Nat} {c : Block}

theorem findPlace_eq {addr mid : Nat} {pre : List Block} (hbefore : ∀ b ∈ pre, b.addr < addr)
    (hstop : mid = 0 ∨ addr ≤ mid) (prev : Nat) (h : Seg mem first pre mid) (hn : pre.length < n) :
    findPlace mem addr n prev first = some (lastAddr prev pre, mid) := by
  induction pre generalizing first prev n with
  | nil =>
    obtain ⟨n, rfl⟩ : ∃ k, n = k + 1 := ⟨n - 1, by simp only [List.length_nil] at hn; omega⟩
    have hfirst : first = mid := h
    rw [findPlace, if_neg (by omega), hfirst]
    rfl
  | cons b pre ih =>
    obtain ⟨n, rfl⟩ : ∃ k, n = k + 1 := ⟨n - 1, by omega⟩
    obtain ⟨rfl, hnull, -, hrest⟩ := h
    rw [findPlace, if_pos ⟨hnull, hbefore b List.mem_cons_self⟩,
      ih (fun c hc => hbefore c (List.mem_cons_of_mem _ hc)) b.addr hrest
        (by simp only [List.length_cons] at hn; omega), lastAddr_cons]

/-- First fit: either no block is large enough, or the list splits at the first
one that is. -/
theorem findFit_cases (need : Nat) (prev : Nat) (h : Seg mem first free 0) (hn : free.length < n) :
    (findFit mem need n prev first = some none ∧ ∀ b ∈ free, b.size < need) ∨
      ∃ pre c post, free = pre ++ c :: post ∧ need ≤ c.size ∧
        findFit mem need n prev first = some (some (lastAddr prev pre, c.addr)) := by
  induction free generalizing first prev n with
  | nil =>
    obtain ⟨n, rfl⟩ : ∃ k, n = k + 1 := ⟨n - 1, by simp only [List.length_nil] at hn; omega⟩
    have hfirst : first = 0 := h
    rw [findFit, if_pos hfirst]
    exact .inl ⟨rfl, by simp⟩
  | cons b free ih =>
    obtain ⟨n, rfl⟩ : ∃ k, n = k + 1 := ⟨n - 1, by omega⟩
    obtain ⟨rfl, hnull, hsize, hrest⟩ := h
    rw [findFit, if_neg hnull]
    by_cases hfit : need ≤ b.size
    · rw [hsize, if_pos hfit]
      exact .inr ⟨[], b, free, rfl, hfit, rfl⟩
    · have hlength : free.length < n := by
        simp only [List.length_cons] at hn
        omega
      rw [hsize, if_neg hfit]
      obtain ⟨hnone, hsmall⟩ | ⟨pre, c, post, rfl, hc, hfound⟩ := ih b.addr hrest hlength
      · exact .inl ⟨hnone, List.forall_mem_cons.mpr ⟨Nat.lt_of_not_le hfit, hsmall⟩⟩
      · refine .inr ⟨b :: pre, c, post, rfl, hc, ?_⟩
        rw [hfound, lastAddr_cons]

/-- Redirecting the end of a prefix of the list. -/
theorem setNext_seg {pre : List Block} (h : Seg heap.mem heap.head pre mid) (hordered : Ordered pre)
    (hlarge : ∀ b ∈ pre, 16 ≤ b.size) (next : Nat) :
    Seg (setNext heap (lastAddr 0 pre) next).mem (setNext heap (lastAddr 0 pre) next).head pre
        next ∧
      (∀ w, owners pre w = 0 → (setNext heap (lastAddr 0 pre) next).mem w = heap.mem w) ∧
      SameCaches heap (setNext heap (lastAddr 0 pre) next) := by
  obtain rfl | ⟨front, p, rfl⟩ := pre.eq_nil_or_concat
  · exact ⟨rfl, fun _ _ => rfl, rfl, rfl⟩
  · rw [List.concat_eq_append] at h hordered hlarge ⊢
    have hnull : p.addr ≠ 0 := addr_ne_zero h p (by simp)
    have hp : 16 ≤ p.size := hlarge p (by simp)
    have hbefore := (List.pairwise_append.mp hordered).2.2
    rw [lastAddr_concat, setNext, if_neg hnull]
    refine ⟨h.setNext ?_ next, ?_, rfl, rfl⟩
    · refine clear_of_before (fun b hb => hlarge b (List.mem_append_left _ hb)) ?_
      intro b hb
      exact Nat.le_add_right_of_le (hbefore b hb p (List.mem_singleton_self p))
    · intro w hw
      refine Function.update_of_ne ?_ _ _
      rintro rfl
      have hcovers : 0 < owners (front ++ [p]) (p.addr + 8) := by
        refine owners_pos.mpr ⟨p, by simp, ?_⟩
        unfold Block.Covers Block.stop
        omega
      omega

/-- A block disjoint from a coalesced list fits between two of its blocks. -/
theorem exists_place (hcoalesced : Coalesced free) (hlarge : ∀ c ∈ free, 16 ≤ c.size)
    (hsize : 16 ≤ b.size) (hdisjoint : ∀ x, owners [b] x + owners free x ≤ 1) :
    ∃ pre post, free = pre ++ post ∧ (∀ c ∈ pre, c.stop ≤ b.addr) ∧
      ∀ c ∈ post, b.stop ≤ c.addr := by
  have hnever : ∀ c ∈ free, ∀ x, b.Covers x → ¬c.Covers x := by
    intro c hc x hb hcx
    have hone : owners [b] x = 1 := by rw [owners_singleton, if_pos hb]
    have hpos : 0 < owners free x := owners_pos.mpr ⟨c, hc, hcx⟩
    have := hdisjoint x
    omega
  have hapart : ∀ c ∈ free, c.stop ≤ b.addr ∨ b.stop ≤ c.addr := by
    intro c hc
    have hc_size := hlarge c hc
    have hfirst := hnever c hc b.addr
    have hsecond := hnever c hc c.addr
    simp only [Block.Covers, Block.stop] at hfirst hsecond ⊢
    omega
  induction free with
  | nil => exact ⟨[], [], rfl, by simp, by simp⟩
  | cons c rest ih =>
    have hcons := List.pairwise_cons.mp hcoalesced
    obtain hbefore | hafter := hapart c List.mem_cons_self
    · have hrest : ∀ x, owners [b] x + owners rest x ≤ 1 := by
        intro x
        have := hdisjoint x
        rw [owners_cons c] at this
        omega
      obtain ⟨pre, post, rfl, hpre, hpost⟩ := ih hcons.2
        (fun d hd => hlarge d (List.mem_cons_of_mem _ hd)) hrest
        (fun d hd => hnever d (List.mem_cons_of_mem _ hd))
        (fun d hd => hapart d (List.mem_cons_of_mem _ hd))
      refine ⟨c :: pre, post, rfl, ?_, hpost⟩
      intro d hd
      obtain rfl | hd := List.mem_cons.mp hd
      · exact hbefore
      · exact hpre d hd
    · refine ⟨[], c :: rest, rfl, by simp, ?_⟩
      intro d hd
      obtain rfl | hd := List.mem_cons.mp hd
      · exact hafter
      · have := hcons.1 d hd
        unfold Block.stop at this hafter ⊢
        omega

/-- What it means that the pool gained the block `b`. -/
structure Gains (heap : KernelAllocator) (free : List Block) (b : Block)
    (heap' : KernelAllocator) (free' : List Block) : Prop where
  pool : Pool heap' free'
  counted : ∀ x, owners free' x = owners [b] x + owners free x
  kept : ∀ w, owners [b] w = 0 → owners free w = 0 → heap'.mem w = heap.mem w
  caches : SameCaches heap heap'

/-- The two merges that follow the link, on the words of the list. -/
theorem seg_splice {first mid : Nat}
    (h : Seg mem first (pre ++ b :: post) 0) (hcoalesced : Coalesced (pre ++ post))
    (hpre : ∀ c ∈ pre, c.stop ≤ b.addr) (hpost : ∀ c ∈ post, b.stop ≤ c.addr)
    (hb : 16 ≤ b.size) (hsize : ∀ c ∈ pre ++ post, 16 ≤ c.size) (hmid : mem (b.addr + 8) = mid) :
    Seg (mergeNode mem (lastAddr 0 pre) b.addr b.size mid) first (splice pre b post) 0 := by
  obtain ⟨hpre_co, hpost_co, -⟩ := List.pairwise_append.mp hcoalesced
  have hglue_co := glue_coalesced hpost_co hpost
  have hpost_size : ∀ c ∈ post, 16 ≤ c.size := fun c hc => hsize c (List.mem_append_right _ hc)
  have hpre_size : ∀ c ∈ pre, 16 ≤ c.size := fun c hc => hsize c (List.mem_append_left _ hc)
  have hordered : Ordered (pre ++ b :: post) := by
    refine List.pairwise_append.mpr ⟨Coalesced.ordered hpre_co, ?_, ?_⟩
    · exact List.pairwise_cons.mpr ⟨hpost, Coalesced.ordered hpost_co⟩
    · intro c hc d hd
      obtain rfl | hd := List.mem_cons.mp hd
      · exact hpre c hc
      · exact Nat.le_trans (hpre c hc) (Nat.le_trans (Nat.le_add_right _ _) (hpost d hd))
  have hall : ∀ c ∈ pre ++ b :: post, 16 ≤ c.size := by
    intro c hc
    simp only [List.mem_append, List.mem_cons] at hc
    obtain hc | rfl | hc := hc
    · exact hpre_size c hc
    · exact hb
    · exact hpost_size c hc
  have hglue := h.glueNext hordered hall hmid
  unfold mergeNode
  generalize (if mid ≠ 0 ∧ b.addr + b.size = mid then absorb mem b.addr mid else mem) = merged
    at hglue ⊢
  obtain rfl | ⟨front, p, rfl⟩ := pre.eq_nil_or_concat
  · rw [if_neg fun hmerge => hmerge.1 rfl]
    exact hglue
  · simp only [List.concat_eq_append] at hglue hpre hpre_size hpre_co ⊢
    rw [lastAddr_concat, splice_concat]
    have hordered : Ordered ((front ++ [p]) ++ glue b post) := by
      refine List.pairwise_append.mpr ⟨Coalesced.ordered hpre_co, hglue_co.ordered, ?_⟩
      intro c hc d hd
      exact Nat.le_trans (hpre c hc) (le_addr_glue hpost d hd)
    have hall : ∀ c ∈ (front ++ [p]) ++ glue b post, 16 ≤ c.size := by
      intro c hc
      obtain hc | hc := List.mem_append.mp hc
      · exact hpre_size c hc
      · exact (grows_size _).glue hb hpost_size c hc
    rw [List.append_assoc, List.singleton_append] at hglue hordered hall
    obtain ⟨_, -, -, hnull, hp, hnext⟩ := Seg.append.mp hglue
    have hglued := hglue.glueNext hordered hall (seg_glue_first hnext)
    have hb_null : b.addr ≠ 0 := by
      have := hpre p (by simp)
      unfold Block.stop at this
      omega
    simp only [ne_eq, hb_null, not_false_eq_true, true_and] at hglued
    simpa only [ne_eq, hnull, not_false_eq_true, true_and, hp] using hglued

theorem findPlace_found (pool : Pool heap (pre ++ post))
    (hpre : ∀ c ∈ pre, c.stop ≤ b.addr) (hpost : ∀ c ∈ post, b.stop ≤ c.addr)
    (hseg_pre : Seg heap.mem heap.head pre mid) (hseg_post : Seg heap.mem mid post 0) :
    findPlace heap.mem b.addr fuel 0 heap.head = some (lastAddr 0 pre, mid) := by
  refine findPlace_eq ?_ ?_ 0 hseg_pre ?_
  · intro c hc
    have hlarge := pool.large c (List.mem_append_left _ hc)
    have hstop := hpre c hc
    unfold Block.stop at hstop
    omega
  · cases post with
    | nil => exact .inl hseg_post
    | cons c post =>
      obtain ⟨rfl, -⟩ := hseg_post
      exact .inr (Nat.le_trans (Nat.le_add_right _ _) (hpost c List.mem_cons_self))
  · have hlength := pool.length_lt
    rw [List.length_append] at hlength
    omega

/-- The new node linked between the two halves of the list. -/
theorem linkNode_seg (pool : Pool heap (pre ++ post)) (hsize : 16 ≤ b.size) (hnull : b.addr ≠ 0)
    (hpre : ∀ c ∈ pre, c.stop ≤ b.addr) (hpost : ∀ c ∈ post, b.stop ≤ c.addr)
    (hseg_pre : Seg heap.mem heap.head pre mid) (hseg_post : Seg heap.mem mid post 0)
    {linked : KernelAllocator}
    (hlinked : linked = (heap.writeNode b.addr b.size mid).setNext (lastAddr 0 pre) b.addr) :
    Seg linked.mem linked.head (pre ++ b :: post) 0 ∧ linked.mem (b.addr + 8) = mid ∧
      (∀ w, owners [b] w = 0 → owners pre w = 0 → linked.mem w = heap.mem w) ∧
      SameCaches heap linked := by
  obtain ⟨hpre_co, -, -⟩ := List.pairwise_append.mp pool.coalesced
  have hpre_large : ∀ c ∈ pre, 16 ≤ c.size := fun c hc => pool.large c (List.mem_append_left _ hc)
  have hpost_after : ∀ c ∈ post, b.addr + 8 < c.addr := by
    intro c hc
    have hafter := hpost c hc
    unfold Block.stop at hafter
    omega
  have hwritten : Seg (heap.writeNode b.addr b.size mid).mem
      (heap.writeNode b.addr b.size mid).head pre mid :=
    (hseg_pre.update (clear_of_before hpre_large hpre) _).update
      (clear_of_before hpre_large fun c hc => Nat.le_add_right_of_le (hpre c hc)) _
  obtain ⟨hseg, hkept, hcaches⟩ :=
    setNext_seg hwritten (Coalesced.ordered hpre_co) hpre_large b.addr
  rw [← hlinked] at hseg hkept hcaches
  have hlink := hseg_post.link hnull
    (clear_of_after fun c hc => Nat.lt_of_le_of_lt (Nat.le_add_right _ 8) (hpost_after c hc))
    (clear_of_after hpost_after)
  have hbeyond : ∀ w, b.addr ≤ w → owners pre w = 0 := by
    intro w hw
    refine Nat.eq_zero_of_not_pos fun hpos => ?_
    obtain ⟨c, hc, -, hstop⟩ := owners_pos.mp hpos
    have := hpre c hc
    omega
  refine ⟨Seg.append.mpr ⟨_, hseg, hlink.congr ?_⟩, ?_, ?_, hcaches⟩
  · intro c hc
    have hle : b.addr ≤ c.addr := by
      obtain rfl | hc := List.mem_cons.mp hc
      · exact Nat.le_refl _
      · exact Nat.le_trans (Nat.le_add_right _ 8) (Nat.le_of_lt (hpost_after c hc))
    exact ⟨hkept _ (hbeyond _ hle), hkept _ (hbeyond _ (Nat.le_add_right_of_le hle))⟩
  · rw [hkept _ (hbeyond _ (Nat.le_add_right _ 8))]
    exact Function.update_self _ _ _
  · intro w hb hw
    have hclear : Clear w [b] := clear_of_owners (by simpa using hsize) hb
    obtain ⟨hne, hne'⟩ := hclear b (List.mem_singleton_self b)
    rw [hkept w hw]
    exact (Function.update_of_ne hne' _ _).trans (Function.update_of_ne hne _ _)

/-- The merges write the new node and the one before it only. -/
theorem mergeNode_of_clear {pre : List Block} {mid w : Nat} (hb : Clear w [b])
    (hpre : Clear w pre) : mergeNode mem (lastAddr 0 pre) b.addr b.size mid w = mem w := by
  obtain ⟨hne, hne'⟩ := hb b (List.mem_singleton_self b)
  have hmerged : (if mid ≠ 0 ∧ b.addr + b.size = mid then absorb mem b.addr mid else mem) w =
      mem w := by
    split
    · exact absorb_of_ne hne hne'
    · rfl
  unfold mergeNode
  generalize (if mid ≠ 0 ∧ b.addr + b.size = mid then absorb mem b.addr mid else mem) = merged
    at hmerged ⊢
  split
  · rename_i hprev
    obtain rfl | ⟨front, p, rfl⟩ := pre.eq_nil_or_concat
    · exact absurd rfl hprev.1
    · rw [List.concat_eq_append] at hpre ⊢
      obtain ⟨hp, hp'⟩ := hpre p (by simp)
      rw [lastAddr_concat, absorb_of_ne hp hp', hmerged]
  · exact hmerged

theorem insertNolock_gains (pool : Pool heap free)
    (hsize : 16 ≤ b.size) (hnull : b.addr ≠ 0) (haligned : b.addr % 8 = 0)
    (hbound : b.stop ≤ 2 ^ 64) (hdisjoint : ∀ x, owners [b] x + owners free x ≤ 1) :
    ∃ heap' free', heap.insertNolock b.addr b.size = some heap' ∧
      Gains heap free b heap' free' := by
  obtain ⟨pre, post, rfl, hpre, hpost⟩ :=
    exists_place pool.coalesced pool.large hsize hdisjoint
  obtain ⟨mid, hseg_pre, hseg_post⟩ := Seg.append.mp pool.list
  have hfound := findPlace_found pool hpre hpost hseg_pre hseg_post
  let linked := (heap.writeNode b.addr b.size mid).setNext (lastAddr 0 pre) b.addr
  obtain ⟨hseg, hmid, hkept, hcaches⟩ : _ ∧ linked.mem (b.addr + 8) = mid ∧ _ ∧ _ :=
    linkNode_seg pool hsize hnull hpre hpost hseg_pre hseg_post rfl
  have hspliced := seg_splice hseg pool.coalesced hpre hpost hsize pool.large hmid
  have hlarge := (grows_size 16).splice hsize pool.large
  refine ⟨{ linked with mem := mergeNode linked.mem (lastAddr 0 pre) b.addr b.size mid },
    splice pre b post, ?_, ⟨hspliced, ?_, hlarge, ?_, ?_⟩, ?_, ?_, hcaches⟩
  · unfold insertNolock
    rw [if_neg (by simp only [nodeSize]; omega), hfound]
  · exact splice_coalesced pool.coalesced hpre hpost
  · exact (grows_addr (· % 8 = 0)).splice haligned pool.aligned
  · intro d hd
    have hd_large := hlarge d hd
    have hcovers : 0 < owners (splice pre b post) (d.stop - 1) := by
      refine owners_pos.mpr ⟨d, hd, ?_⟩
      unfold Block.Covers Block.stop
      omega
    rw [owners_splice, ← owners_cons] at hcovers
    obtain ⟨c, hc, -, hlt⟩ := owners_pos.mp hcovers
    have hc_bound : c.stop ≤ 2 ^ 64 := by
      obtain rfl | hc := List.mem_cons.mp hc
      · exact hbound
      · exact pool.bounded c hc
    omega
  · exact owners_splice pre post b
  · intro w hb hw
    rw [owners_append] at hw
    have hpre_large : ∀ c ∈ pre, 16 ≤ c.size :=
      fun c hc => pool.large c (List.mem_append_left _ hc)
    have hpre_none : owners pre w = 0 := by omega
    exact (mergeNode_of_clear (clear_of_owners (by simpa using hsize) hb)
      (clear_of_owners hpre_large hpre_none)).trans (hkept w hb hpre_none)

/-- What it means that the block `b` was carved out of the pool. -/
structure Loses (heap : KernelAllocator) (free : List Block) (b : Block)
    (heap' : KernelAllocator) (free' : List Block) : Prop where
  pool : Pool heap' free'
  counted : ∀ x, owners free x = owners [b] x + owners free' x
  kept : ∀ w, owners free w = 0 → heap'.mem w = heap.mem w
  caches : SameCaches heap heap'
  nonnull : b.addr ≠ 0
  aligned : b.addr % 8 = 0
  bounded : b.stop ≤ 2 ^ 64

theorem unlink_loses (pool : Pool heap (pre ++ c :: post)) :
    Loses heap (pre ++ c :: post) c
      (setNext heap (lastAddr 0 pre) (heap.mem (c.addr + 8))) (pre ++ post) := by
  obtain ⟨mid, hseg_pre, -, hnull, -, hseg_post⟩ := Seg.append.mp pool.list
  obtain ⟨hpre_co, hcons, hcross⟩ := List.pairwise_append.mp pool.coalesced
  have hmem : ∀ d ∈ pre ++ post, d ∈ pre ++ c :: post := by
    intro d hd
    simp only [List.mem_append, List.mem_cons] at hd ⊢
    tauto
  have hpre_large : ∀ d ∈ pre, 16 ≤ d.size := fun d hd => pool.large d (List.mem_append_left _ hd)
  have hc : c ∈ pre ++ c :: post := by simp
  obtain ⟨hseg, hkept, hcaches⟩ := setNext_seg hseg_pre (Coalesced.ordered hpre_co) hpre_large
    (heap.mem (c.addr + 8))
  have hbeyond : ∀ d ∈ post, ∀ w, d.addr ≤ w → owners pre w = 0 := by
    intro d hd w hw
    refine Nat.eq_zero_of_not_pos fun hpos => ?_
    obtain ⟨a, ha, -, hstop⟩ := owners_pos.mp hpos
    have := hcross a ha d (List.mem_cons_of_mem _ hd)
    omega
  refine ⟨⟨Seg.append.mpr ⟨_, hseg, hseg_post.congr ?_⟩, ?_, ?_, ?_, ?_⟩, ?_, ?_, hcaches, hnull,
    pool.aligned c hc, pool.bounded c hc⟩
  · intro d hd
    exact ⟨hkept _ (hbeyond d hd _ (Nat.le_refl _)),
      hkept _ (hbeyond d hd _ (Nat.le_add_right _ 8))⟩
  · refine List.pairwise_append.mpr ⟨hpre_co, (List.pairwise_cons.mp hcons).2, ?_⟩
    exact fun a ha d hd => hcross a ha d (List.mem_cons_of_mem _ hd)
  · exact fun d hd => pool.large d (hmem d hd)
  · exact fun d hd => pool.aligned d (hmem d hd)
  · exact fun d hd => pool.bounded d (hmem d hd)
  · intro x
    simp only [owners_append, owners_cons c post]
    omega
  · intro w hw
    rw [owners_append] at hw
    exact hkept w (by omega)

/-- Carve the front of a block off and give the rest back. -/
theorem Loses.split {heap heap' : KernelAllocator} {free free' : List Block}
    (h : Loses heap free c heap' free') (hfree : ∀ x, owners free x ≤ 1)
    (haligned : need % 8 = 0) (hrem : need + 16 ≤ c.size) :
    ∃ heap'' free'', heap'.insertNolock (c.addr + need) (c.size - need) = some heap'' ∧
      Loses heap free ⟨c.addr, need⟩ heap'' free'' := by
  have hsplit : ∀ x, owners [c] x =
      owners [⟨c.addr, need⟩] x + owners [⟨c.addr + need, c.size - need⟩] x := by
    intro x
    rw [← owners_split, Nat.add_sub_cancel' (by omega)]
  have hcounted := h.counted
  have hnull := h.nonnull
  have hc_aligned := h.aligned
  have hbounded := h.bounded
  unfold Block.stop at hbounded
  obtain ⟨heap'', free'', heq, gains⟩ := insertNolock_gains h.pool
    (b := ⟨c.addr + need, c.size - need⟩) (by dsimp only; omega) (by dsimp only; omega)
    (by dsimp only; omega) (by simp only [Block.stop]; omega) (fun x => by
      have h₁ := hsplit x
      have h₂ := hcounted x
      have h₃ := hfree x
      omega)
  have hnone : ∀ w, owners free w = 0 →
      owners [⟨c.addr + need, c.size - need⟩] w = 0 ∧ owners free' w = 0 := by
    intro w hw
    have h₁ := hsplit w
    have h₂ := hcounted w
    omega
  refine ⟨heap'', free'', heq, gains.pool, ?_, ?_, ?_, hnull, hc_aligned, ?_⟩
  · intro x
    rw [hcounted, hsplit, gains.counted]
    omega
  · intro w hw
    obtain ⟨hb, hrest⟩ := hnone w hw
    rw [gains.kept w hb hrest, h.kept w hw]
  · exact ⟨gains.caches.1.trans h.caches.1, gains.caches.2.trans h.caches.2⟩
  · simp only [Block.stop]
    omega

theorem takeRaw_loses (pool : Pool heap free) (haligned : need % 8 = 0) :
    (heap.takeRaw need = some (none, heap) ∧ ∀ b ∈ free, b.size < need) ∨
      ∃ addr kept heap' free', heap.takeRaw need = some (some (addr, kept), heap') ∧
        need ≤ kept ∧ Loses heap free ⟨addr, kept⟩ heap' free' := by
  unfold takeRaw
  obtain ⟨hnone, hsmall⟩ | ⟨pre, c, post, rfl, hfit, hfound⟩ :=
    findFit_cases need 0 pool.list pool.length_lt
  · rw [hnone]
    exact .inl ⟨rfl, hsmall⟩
  · rw [hfound]
    refine .inr ?_
    obtain ⟨_, -, -, -, hsize, -⟩ := Seg.append.mp pool.list
    have hloses := unlink_loses pool
    simp only [hsize]
    split
    · rename_i hrem
      obtain ⟨heap'', free'', heq, hsplit⟩ := hloses.split
        (Coalesced.ordered pool.coalesced).owners_le_one haligned
        (by simp only [nodeSize] at hrem; omega)
      rw [heq]
      exact ⟨c.addr, need, heap'', free'', rfl, Nat.le_refl _, hsplit⟩
    · exact ⟨c.addr, c.size, _, pre ++ post, rfl, hfit, hloses⟩

end KazuOS.Memory.FreePool
