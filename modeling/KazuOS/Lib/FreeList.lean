import Mathlib.Data.List.Basic

/-! Address-sorted free lists. A list of blocks is coalesced when every block ends
before the next one starts. Ownership is counted byte by byte, so that splitting
and merging blocks are equations between counts. The second half threads such a
list through a word memory, size and successor in the first two words of a block. -/
namespace KazuOS.Lib

structure Block where
  addr : Nat
  size : Nat
  deriving DecidableEq, Repr

namespace Block

def stop (b : Block) : Nat := b.addr + b.size

def Covers (b : Block) (x : Nat) : Prop := b.addr ≤ x ∧ x < b.stop

instance (b : Block) (x : Nat) : Decidable (b.Covers x) := inferInstanceAs (Decidable (_ ∧ _))

end Block

/-- How many blocks of a list own a byte. -/
def owners (blocks : List Block) (x : Nat) : Nat := blocks.countP fun b => b.Covers x

@[simp] theorem owners_nil (x : Nat) : owners [] x = 0 := rfl

@[simp] theorem owners_append (left right : List Block) (x : Nat) :
    owners (left ++ right) x = owners left x + owners right x := List.countP_append

theorem owners_cons (b : Block) (rest : List Block) (x : Nat) :
    owners (b :: rest) x = owners [b] x + owners rest x := owners_append [b] rest x

theorem owners_singleton (b : Block) (x : Nat) : owners [b] x = if b.Covers x then 1 else 0 := by
  simp [owners, List.countP_cons]

variable {blocks : List Block} {mem : Nat → Nat} {rest : List Block} {b : Block} {w : Nat}

variable {pre post : List Block} {first last : Nat} {low high : Nat} {x : Nat}

theorem owners_pos :
    0 < owners blocks x ↔ ∃ b ∈ blocks, b.Covers x := by
  simp [owners, List.countP_pos_iff]

/-- A block is the sum of its two parts. -/
theorem owners_split (addr left right x : Nat) :
    owners [⟨addr, left + right⟩] x = owners [⟨addr, left⟩] x + owners [⟨addr + left, right⟩] x := by
  simp only [owners_singleton]
  by_cases hwhole : Block.Covers ⟨addr, left + right⟩ x
  · by_cases hleft : Block.Covers ⟨addr, left⟩ x
    · have hright : ¬Block.Covers ⟨addr + left, right⟩ x := by
        simp only [Block.Covers, Block.stop] at hleft ⊢
        omega
      rw [if_pos hwhole, if_pos hleft, if_neg hright]
    · have hright : Block.Covers ⟨addr + left, right⟩ x := by
        simp only [Block.Covers, Block.stop] at hwhole hleft ⊢
        omega
      rw [if_pos hwhole, if_neg hleft, if_pos hright]
  · have hleft : ¬Block.Covers ⟨addr, left⟩ x := by
      simp only [Block.Covers, Block.stop] at hwhole ⊢
      omega
    have hright : ¬Block.Covers ⟨addr + left, right⟩ x := by
      simp only [Block.Covers, Block.stop] at hwhole ⊢
      omega
    rw [if_neg hwhole, if_neg hleft, if_neg hright]

/-- Every block ends before the next one starts: sorted, disjoint, not adjacent. -/
def Coalesced (blocks : List Block) : Prop := blocks.Pairwise fun a b => a.stop < b.addr

/-- Every block ends where the next one starts or before. -/
def Ordered (blocks : List Block) : Prop := blocks.Pairwise fun a b => a.stop ≤ b.addr

theorem Coalesced.ordered (h : Coalesced blocks) : Ordered blocks :=
  h.imp fun hlt => Nat.le_of_lt hlt

theorem Ordered.owners_le_one (h : Ordered blocks) (x : Nat) : owners blocks x ≤ 1 := by
  induction blocks with
  | nil => exact Nat.zero_le _
  | cons b rest ih =>
    have hcons := List.pairwise_cons.mp h
    rw [owners_cons, owners_singleton]
    split
    · rename_i hcovers
      have hrest : owners rest x = 0 := by
        refine Nat.eq_zero_of_not_pos fun hpos => ?_
        obtain ⟨c, hc, hcx⟩ := owners_pos.mp hpos
        have := hcons.1 c hc
        unfold Block.Covers at hcovers hcx
        omega
      omega
    · have := ih hcons.2
      omega

/-- A byte that belongs to at most one block tells the block. -/
theorem eq_of_covers (hone : owners blocks x ≤ 1) {a b : Block}
    (ha : a ∈ blocks) (hb : b ∈ blocks) (hax : a.Covers x) (hbx : b.Covers x) : a = b := by
  induction blocks with
  | nil => cases ha
  | cons c rest ih =>
    rw [owners_cons, owners_singleton] at hone
    rcases List.mem_cons.mp ha with rfl | ha' <;> rcases List.mem_cons.mp hb with rfl | hb'
    · rfl
    · have := owners_pos.mpr ⟨b, hb', hbx⟩
      rw [if_pos hax] at hone
      omega
    · have := owners_pos.mpr ⟨a, ha', hax⟩
      rw [if_pos hbx] at hone
      omega
    · exact ih (by omega) ha' hb'

/-- Distinct blocks, in any order, do not touch. -/
def Spaced (blocks : List Block) : Prop :=
  ∀ a ∈ blocks, ∀ b ∈ blocks, a ≠ b → a.stop < b.addr ∨ b.stop < a.addr

theorem Coalesced.spaced (h : Coalesced blocks) : Spaced blocks := by
  intro a ha b hb hne
  induction blocks with
  | nil => cases ha
  | cons c rest ih =>
    have hcons := List.pairwise_cons.mp h
    rcases List.mem_cons.mp ha with rfl | ha' <;> rcases List.mem_cons.mp hb with rfl | hb'
    · exact absurd rfl hne
    · exact .inl (hcons.1 b hb')
    · exact .inr (hcons.1 a ha')
    · exact ih hcons.2 ha' hb'

/-- A stretch of bytes that spaced blocks cover lies in one of them. -/
theorem Spaced.covering (h : Spaced blocks)
    (hlt : low < high) (hcovered : ∀ x, low ≤ x → x < high → 0 < owners blocks x) :
    ∃ b ∈ blocks, b.addr ≤ low ∧ high ≤ b.stop := by
  obtain ⟨b, hb, hblow⟩ := owners_pos.mp (hcovered low (Nat.le_refl _) hlt)
  refine ⟨b, hb, hblow.1, ?_⟩
  by_contra hshort
  -- The byte after `b` belongs to a block that neither starts later nor ends earlier.
  obtain ⟨c, hc, hcstop⟩ := owners_pos.mp
    (hcovered b.stop (Nat.le_of_lt (Nat.lt_of_le_of_lt (Nat.le_refl _) hblow.2)) (by omega))
  have hne : b ≠ c := by
    rintro rfl
    exact Nat.lt_irrefl _ hcstop.2
  have hapart := h b hb c hc hne
  unfold Block.Covers at hblow hcstop
  omega

/-- Put a block in front of a list, merging it with the first one if they touch. -/
def glue (b : Block) : List Block → List Block
  | [] => [b]
  | c :: rest => if b.stop = c.addr then ⟨b.addr, b.size + c.size⟩ :: rest else b :: c :: rest

theorem owners_glue (b : Block) (rest : List Block) (x : Nat) :
    owners (glue b rest) x = owners [b] x + owners rest x := by
  cases rest with
  | nil => simp [glue]
  | cons c rest =>
    rw [glue]
    split
    · rename_i htouch
      rw [owners_cons, owners_split, owners_cons c rest]
      simp only [Block.stop] at htouch
      rw [htouch]
      exact Nat.add_assoc _ _ _
    · rw [owners_cons]

/-- What holds of a block and goes on holding as it grows at its end. -/
def Grows (P : Block → Prop) : Prop := ∀ b more, P b → P ⟨b.addr, b.size + more⟩

theorem grows_addr (P : Nat → Prop) : Grows fun b => P b.addr := fun _ _ h => h

theorem grows_size (least : Nat) : Grows fun b => least ≤ b.size :=
  fun _ _ h => Nat.le_trans h (Nat.le_add_right _ _)

theorem Grows.glue {P : Block → Prop} (h : Grows P) (hb : P b)
    (hrest : ∀ c ∈ rest, P c) : ∀ d ∈ glue b rest, P d := by
  intro d hd
  cases rest with
  | nil =>
    rw [Lib.glue, List.mem_singleton] at hd
    exact hd ▸ hb
  | cons c rest =>
    rw [Lib.glue] at hd
    split at hd
    · obtain rfl | hd := List.mem_cons.mp hd
      · exact h b c.size hb
      · exact hrest d (List.mem_cons_of_mem _ hd)
    · obtain rfl | hd := List.mem_cons.mp hd
      · exact hb
      · exact hrest d hd

theorem glue_coalesced (hrest : Coalesced rest)
    (hbefore : ∀ c ∈ rest, b.stop ≤ c.addr) : Coalesced (glue b rest) := by
  cases rest with
  | nil => exact List.pairwise_singleton _ _
  | cons c rest =>
    have hc := List.pairwise_cons.mp hrest
    have hle := hbefore c List.mem_cons_self
    rw [glue]
    split
    · rename_i htouch
      refine List.pairwise_cons.mpr ⟨?_, hc.2⟩
      intro d hd
      have hlt := hc.1 d hd
      simp only [Block.stop] at htouch hlt ⊢
      omega
    · rename_i htouch
      refine List.pairwise_cons.mpr ⟨?_, hrest⟩
      intro d hd
      obtain rfl | hd := List.mem_cons.mp hd
      · exact Nat.lt_of_le_of_ne hle htouch
      · have hlt := hc.1 d hd
        simp only [Block.stop] at hle hlt ⊢
        omega

/-- Put a block between two lists, merging it with its neighbours where they touch. -/
def splice (pre : List Block) (b : Block) (post : List Block) : List Block :=
  match pre.getLast? with
  | none => glue b post
  | some p => pre.dropLast ++ glue p (glue b post)

theorem splice_nil (b : Block) (post : List Block) : splice [] b post = glue b post := rfl

theorem splice_concat (front : List Block) (p b : Block) (post : List Block) :
    splice (front ++ [p]) b post = front ++ glue p (glue b post) := by simp [splice]

section Splice

variable {pre post : List Block} {b : Block}

theorem owners_splice (pre post : List Block) (b : Block) (x : Nat) :
    owners (splice pre b post) x = owners [b] x + owners (pre ++ post) x := by
  obtain rfl | ⟨front, p, rfl⟩ := pre.eq_nil_or_concat
  · rw [splice_nil, owners_glue, List.nil_append]
  · simp only [List.concat_eq_append, splice_concat, owners_append, owners_glue]
    omega

theorem Grows.splice {P : Block → Prop} (h : Grows P) (hb : P b) (hrest : ∀ c ∈ pre ++ post, P c) :
    ∀ d ∈ splice pre b post, P d := by
  have hpost : ∀ c ∈ post, P c := fun c hc => hrest c (List.mem_append_right _ hc)
  obtain rfl | ⟨front, p, rfl⟩ := pre.eq_nil_or_concat
  · exact h.glue hb hpost
  · rw [List.concat_eq_append] at hrest ⊢
    rw [splice_concat]
    intro d hd
    obtain hd | hd := List.mem_append.mp hd
    · exact hrest d (by simp [hd])
    · exact h.glue (hrest p (by simp)) (h.glue hb hpost) d hd

/-- The blocks after `b` start where `b` does or later, merged or not. -/
theorem le_addr_glue (hpost : ∀ c ∈ post, b.stop ≤ c.addr) : ∀ d ∈ glue b post, b.addr ≤ d.addr :=
  (grows_addr (b.addr ≤ ·)).glue (Nat.le_refl _) fun c hc =>
    Nat.le_trans (Nat.le_add_right _ _) (hpost c hc)

theorem splice_coalesced (h : Coalesced (pre ++ post)) (hpre : ∀ c ∈ pre, c.stop ≤ b.addr)
    (hpost : ∀ c ∈ post, b.stop ≤ c.addr) : Coalesced (splice pre b post) := by
  obtain ⟨hpre_co, hpost_co, -⟩ := List.pairwise_append.mp h
  have hglue := glue_coalesced hpost_co hpost
  obtain rfl | ⟨front, p, rfl⟩ := pre.eq_nil_or_concat
  · exact hglue
  · rw [List.concat_eq_append] at hpre_co hpre ⊢
    rw [splice_concat]
    obtain ⟨hfront, -, hcross⟩ := List.pairwise_append.mp hpre_co
    have hp : ∀ d ∈ glue b post, p.stop ≤ d.addr := fun d hd =>
      Nat.le_trans (hpre p (by simp)) (le_addr_glue hpost d hd)
    refine List.pairwise_append.mpr ⟨hfront, glue_coalesced hglue hp, ?_⟩
    intro c hc d hd
    exact Nat.lt_of_lt_of_le (hcross c hc p (by simp)) (le_addr_glue hp d hd)

end Splice

/-- `Seg mem first blocks last`: starting at the node `first`, the successor words
lead through `blocks` and end with the pointer `last`. -/
def Seg (mem : Nat → Nat) : Nat → List Block → Nat → Prop
  | first, [], last => first = last
  | first, b :: rest, last =>
      first = b.addr ∧ b.addr ≠ 0 ∧ mem b.addr = b.size ∧ Seg mem (mem (b.addr + 8)) rest last

/-- A word that is neither the size nor the successor of a node of the list. -/
def Clear (w : Nat) (blocks : List Block) : Prop := ∀ b ∈ blocks, w ≠ b.addr ∧ w ≠ b.addr + 8

theorem clear_of_before (hsize : ∀ b ∈ blocks, 16 ≤ b.size)
    (hstop : ∀ b ∈ blocks, b.stop ≤ w) : Clear w blocks := by
  intro b hb
  have hsize := hsize b hb
  have hstop := hstop b hb
  unfold Block.stop at hstop
  omega

/-- A byte no block owns is no node word either. -/
theorem clear_of_owners (hsize : ∀ b ∈ blocks, 16 ≤ b.size)
    (hnone : owners blocks w = 0) : Clear w blocks := by
  intro b hb
  have hsize := hsize b hb
  have hfree : ¬b.Covers w := fun hcovers => by
    have := owners_pos.mpr ⟨b, hb, hcovers⟩
    omega
  unfold Block.Covers Block.stop at hfree
  omega

theorem clear_of_after (hstart : ∀ b ∈ blocks, w < b.addr) : Clear w blocks := by
  intro b hb
  have hstart := hstart b hb
  omega

namespace Seg

variable {mem : Nat → Nat} {first last : Nat} {pre post : List Block} {b : Block}

theorem append : Seg mem first (pre ++ post) last ↔
    ∃ mid, Seg mem first pre mid ∧ Seg mem mid post last := by
  induction pre generalizing first with
  | nil => simp [Seg]
  | cons b pre ih =>
    simp only [List.cons_append, Seg, ih]
    constructor
    · rintro ⟨hfirst, hnull, hsize, mid, hpre, hpost⟩
      exact ⟨mid, ⟨hfirst, hnull, hsize, hpre⟩, hpost⟩
    · rintro ⟨mid, ⟨hfirst, hnull, hsize, hpre⟩, hpost⟩
      exact ⟨hfirst, hnull, hsize, mid, hpre, hpost⟩

/-- A segment reads the two words of its nodes only. -/
theorem congr {mem' : Nat → Nat} (h : Seg mem first pre last)
    (agree : ∀ b ∈ pre, mem' b.addr = mem b.addr ∧ mem' (b.addr + 8) = mem (b.addr + 8)) :
    Seg mem' first pre last := by
  induction pre generalizing first with
  | nil => exact h
  | cons b pre ih =>
    obtain ⟨hfirst, hnull, hsize, hrest⟩ := h
    obtain ⟨haddr, hnext⟩ := agree b List.mem_cons_self
    refine ⟨hfirst, hnull, haddr.trans hsize, ?_⟩
    rw [hnext]
    exact ih hrest fun c hc => agree c (List.mem_cons_of_mem _ hc)

theorem update (h : Seg mem first pre last) {w : Nat} (hclear : Clear w pre) (value : Nat) :
    Seg (Function.update mem w value) first pre last := by
  refine h.congr ?_
  intro b hb
  obtain ⟨haddr, hnext⟩ := hclear b hb
  exact ⟨Function.update_of_ne haddr.symm _ _, Function.update_of_ne hnext.symm _ _⟩

/-- Redirect the last node of a segment. -/
theorem setNext (h : Seg mem first (pre ++ [b]) last) (hclear : Clear (b.addr + 8) pre)
    (next : Nat) : Seg (Function.update mem (b.addr + 8) next) first (pre ++ [b]) next := by
  obtain ⟨mid, hpre, hmid, hnull, hsize, -⟩ := append.mp h
  refine append.mpr ⟨mid, hpre.update hclear next, hmid, hnull, ?_, ?_⟩
  · rw [Function.update_of_ne (by omega), hsize]
  · rw [Function.update_self]
    rfl

/-- Put a node in front of a segment. -/
theorem link (h : Seg mem first post last) (hnull : b.addr ≠ 0) (hclear : Clear b.addr post)
    (hclear' : Clear (b.addr + 8) post) :
    Seg (Function.update (Function.update mem b.addr b.size) (b.addr + 8) first) b.addr
      (b :: post) last := by
  refine ⟨rfl, hnull, ?_, ?_⟩
  · rw [Function.update_of_ne (by omega), Function.update_self]
  · rw [Function.update_self]
    exact (h.update hclear _).update hclear' _

end Seg

/-- Grow `node` by its successor `next` and unlink the successor. -/
def absorb (mem : Nat → Nat) (node next : Nat) : Nat → Nat :=
  let mem := Function.update mem node (mem node + mem next)
  Function.update mem (node + 8) (mem (next + 8))

theorem absorb_of_ne {node next w : Nat} (hnode : w ≠ node)
    (hnext : w ≠ node + 8) : absorb mem node next w = mem w := by
  simp only [absorb]
  rw [Function.update_of_ne hnext, Function.update_of_ne hnode]

theorem Seg.absorb {a c : Block}
    (h : Seg mem first (pre ++ a :: c :: post) last) (hordered : Ordered (pre ++ a :: c :: post))
    (hsize : ∀ b ∈ pre ++ a :: c :: post, 16 ≤ b.size) :
    Seg (Lib.absorb mem a.addr c.addr) first (pre ++ ⟨a.addr, a.size + c.size⟩ :: post) last := by
  obtain ⟨mid, hpre, hmid, hnull, ha, hnext, -, hc, hpost⟩ := Seg.append.mp h
  have hsplit := List.pairwise_append.mp hordered
  have htail := List.pairwise_cons.mp hsplit.2.1
  have hlast := List.pairwise_cons.mp htail.2
  have hsize_pre : ∀ b ∈ pre, 16 ≤ b.size := fun b hb => hsize b (List.mem_append_left _ hb)
  have hsize_a : 16 ≤ a.size := hsize a (by simp)
  have hac := htail.1 c List.mem_cons_self
  have hpost_after : ∀ b ∈ post, a.addr + 8 < b.addr := by
    intro b hb
    have := htail.1 b (List.mem_cons_of_mem _ hb)
    unfold Block.stop at this
    omega
  have hpre_before : ∀ b ∈ pre, b.stop ≤ a.addr := fun b hb => hsplit.2.2 b hb a List.mem_cons_self
  have hagree : ∀ w, w ≠ a.addr → w ≠ a.addr + 8 → Lib.absorb mem a.addr c.addr w = mem w :=
    fun w => absorb_of_ne
  have hkeep : ∀ blocks : List Block, Clear a.addr blocks → Clear (a.addr + 8) blocks →
      ∀ b ∈ blocks, Lib.absorb mem a.addr c.addr b.addr = mem b.addr ∧
        Lib.absorb mem a.addr c.addr (b.addr + 8) = mem (b.addr + 8) := by
    intro blocks hclear hclear' b hb
    obtain ⟨h₁, h₂⟩ := hclear b hb
    obtain ⟨h₃, h₄⟩ := hclear' b hb
    exact ⟨hagree _ h₁.symm h₃.symm, hagree _ h₂.symm h₄.symm⟩
  refine Seg.append.mpr ⟨mid, hpre.congr (hkeep pre (clear_of_before hsize_pre hpre_before)
    (clear_of_before hsize_pre fun b hb => Nat.le_add_right_of_le (hpre_before b hb))),
    hmid, hnull, ?_, ?_⟩
  · simp only [Lib.absorb]
    rw [Function.update_of_ne (by omega), Function.update_self, ha, hc]
  · have hread : Lib.absorb mem a.addr c.addr (a.addr + 8) = mem (c.addr + 8) := by
      unfold Block.stop at hac
      simp only [Lib.absorb]
      rw [Function.update_self, Function.update_of_ne (by omega)]
    rw [hread]
    exact hpost.congr (hkeep post
      (clear_of_after fun b hb => Nat.lt_of_le_of_lt (Nat.le_add_right _ 8) (hpost_after b hb))
      (clear_of_after hpost_after))

/-- Merge the block after `pre` with its successor if they touch. -/
theorem Seg.glueNext {first : Nat} {a : Block}
    (h : Seg mem first (pre ++ a :: post) 0) (hordered : Ordered (pre ++ a :: post))
    (hsize : ∀ b ∈ pre ++ a :: post, 16 ≤ b.size) {next : Nat} (hnext : mem (a.addr + 8) = next) :
    Seg (if next ≠ 0 ∧ a.addr + a.size = next then Lib.absorb mem a.addr next else mem) first
      (pre ++ glue a post) 0 := by
  obtain ⟨mid, -, -, -, -, hpost⟩ := Seg.append.mp h
  rw [hnext] at hpost
  cases post with
  | nil =>
    rw [if_neg fun hmerge => hmerge.1 hpost]
    exact h
  | cons c post =>
    obtain ⟨hc, hnull, -⟩ := hpost
    by_cases htouch : a.stop = c.addr
    · rw [if_pos ⟨hc ▸ hnull, htouch.trans hc.symm⟩, glue, if_pos htouch, hc]
      exact h.absorb hordered hsize
    · rw [if_neg fun hmerge => htouch (hmerge.2.trans hc), glue, if_neg htouch]
      exact h

/-- A glued list starts where its first block did. -/
theorem seg_glue_first (h : Seg mem first (glue b rest) last) : first = b.addr := by
  cases rest with
  | nil => exact h.1
  | cons c rest =>
    rw [glue] at h
    split at h
    · exact h.1
    · exact h.1

/-- Ordered blocks of positive size are no more than the bytes they lie in. -/
theorem length_le_of_ordered (hordered : Ordered blocks) (hsize : ∀ b ∈ blocks, 1 ≤ b.size)
    (hlow : ∀ b ∈ blocks, low ≤ b.addr) (hhigh : ∀ b ∈ blocks, b.stop ≤ high) (hle : low ≤ high) :
    blocks.length ≤ high - low := by
  induction blocks generalizing low with
  | nil => exact Nat.zero_le _
  | cons b rest ih =>
    have hcons := List.pairwise_cons.mp hordered
    have hb := hsize b List.mem_cons_self
    have hb_low := hlow b List.mem_cons_self
    have hb_high := hhigh b List.mem_cons_self
    have hrest := ih hcons.2 (fun c hc => hsize c (List.mem_cons_of_mem _ hc)) hcons.1
      (fun c hc => hhigh c (List.mem_cons_of_mem _ hc)) hb_high
    unfold Block.stop at hb_high hrest
    simp only [List.length_cons]
    omega

end KazuOS.Lib
