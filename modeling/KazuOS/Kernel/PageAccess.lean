import KazuOS.Kernel.Uaccess

/-! Which pages a program may use, from the history of its address space. `user_accessible` reads
four levels of tables, but the upper three never stand in the way: whatever mapping came first,
the tables it added let programs in and let them write. -/
namespace KazuOS.Kernel

open KazuOS.Lib KazuOS.Memory KazuOS.Memory.AddressSpaces KazuOS.Memory.Vmm

variable {vm vm' : Vmm} {roots : List (BitVec 64)} {level level' : BitVec 64 → Nat}

/-- An entry that lets programs in and lets them write. -/
def IsOpen (entry : BitVec 64) : Prop := entry &&& user = user ∧ entry &&& writable = writable

/-- The tables on the way along a path are linked by open entries as far as they are there. -/
def OpenFrom (vm : Vmm) : BitVec 64 → List (Fin 512) → Prop
  | table, i :: j :: rest => vm.mem table i &&& present ≠ 0 →
      IsOpen (vm.mem table i) ∧ OpenFrom vm (vm.mem table i &&& addrMask) (j :: rest)
  | _, _ => True

/-- The links of old tables stay, but for new ones to empty tables. -/
def Enlarges (level : BitVec 64 → Nat) (vm vm' : Vmm) : Prop :=
  ∀ t i, Links 4 UserIndex level t i → vm'.mem t i = vm.mem t i ∨
    (IsOpen (vm'.mem t i) ∧ ∀ j, vm'.mem (vm'.mem t i &&& addrMask) j = 0)

theorem openFrom_empty {table : BitVec 64} (h : ∀ i, vm.mem table i = 0) (path : List (Fin 512)) :
    OpenFrom vm table path := by
  cases path with
  | nil => trivial
  | cons i rest =>
    cases rest with
    | nil => trivial
    | cons j rest =>
      intro hpresent
      rw [h] at hpresent
      exact absurd rfl hpresent

theorem child_eq_some {t : BitVec 64} {i : Fin 512} (h : vm.mem t i &&& present ≠ 0) :
    vm.child t i = some (vm.mem t i &&& addrMask) := if_pos h

theorem OpenFrom.enlarges (forest : Forest 4 UserIndex vm.child level)
    (henlarges : Enlarges level vm vm') {path : List (Fin 512)} {table : BitVec 64}
    (hfits : Fits 4 UserIndex level table path) (h : OpenFrom vm table path) :
    OpenFrom vm' table path := by
  induction path generalizing table with
  | nil => trivial
  | cons i rest ih =>
    cases rest with
    | nil => trivial
    | cons j rest =>
      intro hpresent
      obtain hsame | ⟨hopen, hempty⟩ := henlarges table i hfits.links
      · rw [hsame] at hpresent ⊢
        obtain ⟨hentry, hnext⟩ := h hpresent
        exact ⟨hentry, ih (hfits.next forest (child_eq_some hpresent)) hnext⟩
      · exact ⟨hopen, openFrom_empty hempty _⟩

/-- A link made for a program is open. -/
theorem isOpen_link (table : BitVec 64) {flags : MapFlags} (huser : flags.bits &&& user = user) :
    IsOpen ((table &&& addrMask) ||| present ||| writable ||| (flags.bits &&& user)) := by
  rw [huser]
  constructor
  · simp only [BitVec.and_or_distrib_right, BitVec.and_assoc,
      show addrMask &&& user = 0 by decide, show present &&& user = 0 by decide,
      show writable &&& user = 0 by decide, BitVec.and_self]
    simp
  · simp only [BitVec.and_or_distrib_right, BitVec.and_assoc,
      show addrMask &&& writable = 0 by decide, show present &&& writable = 0 by decide,
      show user &&& writable = 0 by decide, BitVec.and_self]
    simp

theorem nextTable_enlarges (sep : Separated vm roots level) {t : BitVec 64} {i : Fin 512}
    (hlinks : Links 4 UserIndex level t i) {flags : MapFlags}
    (huser : flags.bits &&& user = user) : Enlarges level vm (vm.nextTable t i flags).2 := by
  intro t' j ht'
  unfold nextTable allocTable
  dsimp only
  split
  · exact .inl rfl
  · cases hheap : vm.heap with
    | nil => exact .inl rfl
    | cons answer heap =>
      cases answer with
      | none => exact .inl rfl
      | some page =>
        obtain ⟨hzero, -, haligned⟩ := sep.fresh page (hheap ▸ List.mem_cons_self)
        have hfresh : ∀ {t i}, Links 4 UserIndex level t i → t ≠ page := by
          rintro t i ⟨hlevel, -⟩ rfl
          omega
        have hparent := hfresh hlinks
        by_cases hslot : t' = t ∧ j = i
        · obtain ⟨rfl, rfl⟩ := hslot
          refine .inr ?_
          simp only [Vmm.write, and_self, if_true]
          refine ⟨isOpen_link page huser, fun j' => ?_⟩
          rw [(link_entry page flags haligned).2, if_neg fun h => hparent h.1.symm, if_pos rfl]
        · refine .inl ?_
          simp only [Vmm.write, if_neg hslot, if_neg (hfresh ht')]

/-! The entry of a page. -/

/-- The entry a walk ends in, if it is present. -/
def leafEntry (vm : Vmm) (root virt : BitVec 64) : Option (BitVec 64) :=
  (Lib.slot vm.child root (path virt)).bind fun s =>
    if vm.mem s.1 s.2 &&& present ≠ 0 then some (vm.mem s.1 s.2) else none

theorem translate_eq_leafEntry (sep : Separated vm roots level) {cr3 virt : BitVec 64}
    (hroot : cr3 &&& addrMask ∈ roots) (huser : UserAddress virt) :
    vm.translate cr3 virt = (leafEntry vm (cr3 &&& addrMask) virt).map (· &&& addrMask) := by
  rw [sep.translate_eq hroot huser, leafEntry]
  cases Lib.slot vm.child (cr3 &&& addrMask) (path virt) with
  | none => rfl
  | some s =>
    rw [Option.bind_some, Option.bind_some, Vmm.leaf, Vmm.child]
    split <;> rfl

theorem slot_grows {roots : List (BitVec 64)} (sep : Separated vm roots level)
    (grows : Grows roots vm level vm' level') {path : List (Fin 512)} {table : BitVec 64}
    (hfits : Fits 4 UserIndex level table path) {s : BitVec 64 × Fin 512}
    (hslot : Lib.slot vm.child table path = some s) : Lib.slot vm'.child table path = some s := by
  induction path generalizing table with
  | nil => cases hslot
  | cons i rest ih =>
    cases rest with
    | nil => exact hslot
    | cons j rest =>
      obtain ⟨next, hchild, hnext⟩ := Option.bind_eq_some_iff.mp hslot
      have hlevel : level table ≠ 0 := by
        rw [hfits.1]
        simp
      exact Option.bind_eq_some_iff.mpr ⟨next, grows.child_eq _ _ _ hlevel hchild,
        ih (hfits.next sep.forest hchild) hnext⟩

/-- Adding tables changes no page. -/
theorem leafEntry_grows (sep : Separated vm roots level) (grows : Grows roots vm level vm' level')
    (keeps : KeepsEntries level vm vm') {cr3 virt : BitVec 64} (hroot : cr3 &&& addrMask ∈ roots)
    (huser : UserAddress virt) :
    leafEntry vm' (cr3 &&& addrMask) virt = leafEntry vm (cr3 &&& addrMask) virt := by
  cases hentry : leafEntry vm (cr3 &&& addrMask) virt with
  | none =>
    have hnone := grows.translate_eq cr3 virt hroot huser
    rw [translate_eq_leafEntry grows.separated hroot huser, translate_eq_leafEntry sep hroot huser,
      hentry] at hnone
    exact Option.map_eq_none_iff.mp hnone
  | some entry =>
    obtain ⟨s, hslot, hs⟩ := Option.bind_eq_some_iff.mp hentry
    have hfits := sep.fits hroot huser
    have hlevel := level_of_slot sep.forest hfits hslot
    by_cases hpresent : vm.mem s.1 s.2 &&& present ≠ 0
    · rw [leafEntry, slot_grows sep grows hfits hslot, Option.bind_some,
        keeps s.1 s.2 (by rw [hlevel]; simp) hpresent]
      exact hs
    · rw [if_neg hpresent] at hs
      cases hs

/-- Writing the entry of a page changes that page alone. -/
theorem leafEntry_write (sep : Separated vm roots level) {cr3 virt : BitVec 64}
    (hroot : cr3 &&& addrMask ∈ roots) (huser : UserAddress virt) {s : BitVec 64 × Fin 512}
    (hslot : Lib.slot vm.child (cr3 &&& addrMask) (path virt) = some s) (value : BitVec 64)
    {virt' : BitVec 64} (huser' : UserAddress virt') :
    leafEntry (vm.write s.1 s.2 value) (cr3 &&& addrMask) virt' =
      if page virt' = page virt then if value &&& present ≠ 0 then some value else none
      else leafEntry vm (cr3 &&& addrMask) virt' := by
  have hlevel := level_of_slot sep.forest (sep.fits hroot huser) hslot
  rw [leafEntry, sep.slot_write hlevel _ _ hroot huser']
  split
  · rename_i hpage
    rw [path_eq_of_page_eq hpage, hslot, Option.bind_some]
    simp only [Vmm.write, and_self, if_true]
  · rename_i hpage
    rw [leafEntry]
    cases hslot' : Lib.slot vm.child (cr3 &&& addrMask) (path virt') with
    | none => rfl
    | some s' =>
      have hne : ¬(s'.1 = s.1 ∧ s'.2 = s.2) := by
        rintro ⟨hfst, hsnd⟩
        obtain rfl : s' = s := Prod.ext hfst hsnd
        obtain ⟨-, hpath⟩ := slot_injective sep.forest (sep.fits hroot huser')
          (sep.fits hroot huser) rfl hslot' hslot
        exact hpage (page_eq_of_path_eq hpath)
      simp only [Option.bind_some, Vmm.write, if_neg hne]

/-- Below open tables the last entry of a walk decides. -/
theorem walkFrom_open (virt : BitVec 64) (w : Bool) {shifts : List Nat} (hne : shifts ≠ [])
    {table : BitVec 64} (hopen : OpenFrom vm table (shifts.map (index virt))) :
    (∀ entry ∈ walkFrom vm virt shifts table, entry &&& present ≠ 0 ∧ entry &&& user = user ∧
        (w = true → entry &&& writable = writable)) ↔
      ∃ entry, ((Lib.slot vm.child table (shifts.map (index virt))).bind fun s =>
          if vm.mem s.1 s.2 &&& present ≠ 0 then some (vm.mem s.1 s.2) else none) = some entry ∧
        entry &&& user = user ∧ (w = true → entry &&& writable = writable) := by
  induction shifts generalizing table with
  | nil => exact absurd rfl hne
  | cons shift rest ih =>
    cases rest with
    | nil =>
      simp only [walkFrom, List.forall_mem_singleton, List.map_cons, List.map_nil, Lib.slot,
        Option.bind_some]
      split
      · rename_i hpresent
        rw [and_iff_right hpresent]
        simp
      · rename_i hpresent
        exact iff_of_false (fun h => hpresent h.1) (by simp)
    | cons shift' rest =>
      rw [walkFrom, List.forall_mem_cons]
      by_cases hpresent : vm.mem table (index virt shift) &&& present ≠ 0
      · obtain ⟨⟨hentry, hentry'⟩, hnext⟩ := hopen hpresent
        have hchild := child_eq_some hpresent
        simp only [List.map_cons, Lib.slot, hchild, Option.bind_some]
        rw [and_iff_right ⟨hpresent, hentry, fun _ => hentry'⟩]
        exact ih (List.cons_ne_nil _ _) hnext
      · have hchild : vm.child table (index virt shift) = none := if_neg hpresent
        simp only [List.map_cons, Lib.slot, hchild, Option.bind_none]
        refine iff_of_false (fun h => hpresent h.1.1) ?_
        rintro ⟨entry, hnone, -⟩
        cases hnone

theorem userAccessible_open {cr3 virt : BitVec 64}
    (hopen : OpenFrom vm (cr3 &&& addrMask) (path virt)) (w : Bool) :
    userAccessible vm cr3 virt w = true ↔ ∃ entry, leafEntry vm (cr3 &&& addrMask) virt =
      some entry ∧ entry &&& user = user ∧ (w = true → entry &&& writable = writable) := by
  rw [userAccessible_iff]
  exact walkFrom_open virt w (List.cons_ne_nil 39 [30, 21, 12]) hopen

/-! A history of an address space. -/

inductive PageOp where
  | map (virt phys : BitVec 64) (flags : MapFlags)
  | unmap (virt : BitVec 64)

def PageOp.virt : PageOp → BitVec 64
  | .map virt _ _ => virt
  | .unmap virt => virt

/-- A mapping of a program, or the end of one, in the user half. -/
def PageOp.ForUser : PageOp → Prop
  | .map virt _ flags => UserAddress virt ∧ flags.bits &&& user = user
  | .unmap virt => UserAddress virt

/-- The tables, and the calls but for the mappings that failed, oldest first. -/
structure PageHistory where
  vm : Vmm
  done : List PageOp

def PageHistory.step (cr3 : BitVec 64) (s : PageHistory) : PageOp → PageHistory
  | .map virt phys flags =>
      match s.vm.mapPage cr3 virt phys flags with
      | (.ok (), vm) => ⟨vm, s.done ++ [.map virt phys flags]⟩
      | (.error _, vm) => ⟨vm, s.done⟩
  | .unmap virt => ⟨s.vm.unmapPage cr3 virt, s.done ++ [.unmap virt]⟩

/-- The last of the calls for a page. -/
def latest (done : List PageOp) (virt : BitVec 64) : Option PageOp :=
  (done.filter fun op => page op.virt = page virt).getLast?

theorem latest_concat (done : List PageOp) (op : PageOp) (virt : BitVec 64) :
    latest (done ++ [op]) virt = if page virt = page op.virt then some op else latest done virt := by
  rw [latest, List.filter_append]
  by_cases h : page virt = page op.virt
  · simp [h, List.getLast?_append]
  · simp [h, Ne.symm h, latest]

/-- The entry that a call leaves for its page. -/
def PageOp.entry : PageOp → Option (BitVec 64)
  | .map _ phys flags => some ((phys &&& addrMask) ||| present ||| flags.bits)
  | .unmap _ => none

/-- The tables hold what the last calls left, under open links. -/
structure PageHistory.Kept (roots : List (BitVec 64)) (cr3 : BitVec 64) (s : PageHistory) :
    Prop where
  separated : ∃ level, Separated s.vm roots level
  opened : ∀ virt, UserAddress virt → OpenFrom s.vm (cr3 &&& addrMask) (path virt)
  entry : ∀ virt, UserAddress virt →
    leafEntry s.vm (cr3 &&& addrMask) virt = (latest s.done virt).bind PageOp.entry
  forUser : ∀ op ∈ s.done, op.ForUser

/-- A table of leaves links nothing. -/
theorem write_enlarges {pt : BitVec 64} (hlevel : level pt = 1) (i : Fin 512) (value : BitVec 64) :
    Enlarges level vm (vm.write pt i value) := by
  rintro t j ⟨hlinks, -⟩
  refine .inl (if_neg ?_)
  rintro ⟨rfl, -⟩
  omega

theorem and_entry {phys bits bit : BitVec 64} (haddr : addrMask &&& bit = 0)
    (hpresent : present &&& bit = 0) :
    ((phys &&& addrMask) ||| present ||| bits) &&& bit = bits &&& bit := by
  rw [BitVec.and_or_distrib_right, BitVec.and_or_distrib_right, BitVec.and_assoc, haddr, hpresent]
  simp

namespace PageHistory.Kept

variable {cr3 : BitVec 64} {s : PageHistory}

theorem forUser_concat (h : Kept roots cr3 s) {op : PageOp} (hop : op.ForUser) :
    ∀ op' ∈ s.done ++ [op], op'.ForUser := by
  intro op' hop'
  obtain hop' | hop' := List.mem_append.mp hop'
  · exact h.forUser op' hop'
  · exact List.mem_singleton.mp hop' ▸ hop

/-- Writing the entry of a page, as the last call for it. -/
theorem write (hroot : cr3 &&& addrMask ∈ roots) (h : Kept roots cr3 s) {op : PageOp}
    (hop : op.ForUser) (huser : UserAddress op.virt) {leaf : BitVec 64 × Fin 512}
    (hslot : Lib.slot s.vm.child (cr3 &&& addrMask) (path op.virt) = some leaf) {value : BitVec 64}
    (hvalue : (if value &&& present ≠ 0 then some value else none) = op.entry) :
    Kept roots cr3 ⟨s.vm.write leaf.1 leaf.2 value, s.done ++ [op]⟩ := by
  obtain ⟨level, sep⟩ := h.separated
  have hlevel := level_of_slot sep.forest (sep.fits hroot huser) hslot
  refine ⟨⟨level, sep.write hlevel _ _⟩, fun virt hvirt => ?_, fun virt hvirt => ?_,
    h.forUser_concat hop⟩
  · exact (h.opened virt hvirt).enlarges sep.forest (write_enlarges hlevel _ _)
      (sep.fits hroot hvirt)
  · rw [leafEntry_write sep hroot huser hslot value hvirt, latest_concat, hvalue,
      h.entry virt hvirt]
    split <;> rfl

theorem step (hroot : cr3 &&& addrMask ∈ roots) (h : Kept roots cr3 s) (op : PageOp)
    (hop : op.ForUser) : Kept roots cr3 (s.step cr3 op) := by
  obtain ⟨level, sep⟩ := h.separated
  cases op with
  | map virt phys flags =>
    have ⟨huser, hflags⟩ := hop
    obtain ⟨vm', level', grows, keeps, hopened, hresult⟩ := mapPage_cases sep hroot huser phys
      flags (P := fun vm => ∀ virt, UserAddress virt → OpenFrom vm (cr3 &&& addrMask) (path virt))
      h.opened fun sep hlinks hopened virt hvirt =>
        (hopened virt hvirt).enlarges sep.forest (nextTable_enlarges sep hlinks hflags)
          (sep.fits hroot hvirt)
    have hgrown : Kept roots cr3 ⟨vm', s.done⟩ := by
      refine ⟨⟨level', grows.separated⟩, hopened, fun virt hvirt => ?_, h.forUser⟩
      exact (leafEntry_grows sep grows keeps hroot hvirt).trans (h.entry virt hvirt)
    obtain ⟨e, hresult⟩ | ⟨pt, hslot, hresult⟩ := hresult
    · simp only [PageHistory.step, hresult]
      exact hgrown
    · simp only [PageHistory.step, hresult]
      exact hgrown.write hroot hop huser hslot
        (if_pos (entry_eq phys flags.bits flags.permissions).1)
  | unmap virt =>
    simp only [PageHistory.step]
    rw [sep.unmapPage_eq hroot hop]
    cases hslot : Lib.slot s.vm.child (cr3 &&& addrMask) (path virt) with
    | some leaf => exact h.write hroot hop hop hslot (by simp [PageOp.entry])
    | none =>
      -- A page that no table reaches has not been mapped.
      change Kept roots cr3 ⟨s.vm, s.done ++ [.unmap virt]⟩
      refine ⟨⟨level, sep⟩, h.opened, fun virt' hvirt' => ?_, h.forUser_concat hop⟩
      rw [latest_concat]
      split
      · rename_i hpage
        rw [leafEntry, path_eq_of_page_eq hpage]
        exact congrArg (Option.bind · _) hslot
      · exact h.entry virt' hvirt'

theorem run (hroot : cr3 &&& addrMask ∈ roots) (h : Kept roots cr3 s) {ops : List PageOp}
    (hops : ∀ op ∈ ops, op.ForUser) : Kept roots cr3 (ops.foldl (PageHistory.step cr3) s) := by
  induction ops generalizing s with
  | nil => exact h
  | cons op ops ih =>
    exact ih (h.step hroot op (hops op List.mem_cons_self)) fun op' hop' =>
      hops op' (List.mem_cons_of_mem _ hop')

/-- Before the first call. -/
theorem start (sep : Separated vm roots level)
    (hempty : ∀ i, UserIndex i → vm.mem (cr3 &&& addrMask) i &&& present = 0) :
    Kept roots cr3 ⟨vm, []⟩ := by
  refine ⟨⟨level, sep⟩, fun virt hvirt hpresent => absurd (hempty _ hvirt) hpresent,
    fun virt hvirt => ?_, fun op hop => by cases hop⟩
  have hchild : vm.child (cr3 &&& addrMask) (pml4Index virt) = none :=
    if_neg (not_not.mpr (hempty _ hvirt))
  simp only [leafEntry, path, Lib.slot, hchild, Option.bind_none]
  rfl

end PageHistory.Kept

/-- Of the calls for a page that did not fail, the last decides whether a program may read it,
and whether it may write. -/
theorem user_accessible_iff_latest {cr3 : BitVec 64} (sep : Separated vm roots level)
    (hroot : cr3 &&& addrMask ∈ roots)
    (hempty : ∀ i, UserIndex i → vm.mem (cr3 &&& addrMask) i &&& present = 0) {ops : List PageOp}
    (hops : ∀ op ∈ ops, op.ForUser) {virt : BitVec 64} (huser : UserAddress virt) (w : Bool) :
    userAccessible (ops.foldl (PageHistory.step cr3) ⟨vm, []⟩).vm cr3 virt w = true ↔
      ∃ virt' phys flags, latest (ops.foldl (PageHistory.step cr3) ⟨vm, []⟩).done virt =
        some (.map virt' phys flags) ∧ (w = true → flags.bits &&& writable = writable) := by
  have kept := (PageHistory.Kept.start sep hempty).run hroot hops
  generalize ops.foldl (PageHistory.step cr3) ⟨vm, []⟩ = s at kept ⊢
  rw [userAccessible_open (kept.opened virt huser), kept.entry virt huser]
  constructor
  · rintro ⟨entry, hentry, -, hwrite⟩
    obtain ⟨op, hlatest, hop⟩ := Option.bind_eq_some_iff.mp hentry
    cases op with
    | map virt' phys flags =>
      refine ⟨virt', phys, flags, hlatest, fun hw => ?_⟩
      rw [← Option.some.inj hop] at hwrite
      have hentry := hwrite hw
      rwa [and_entry (by decide) (by decide)] at hentry
    | unmap virt' => cases hop
  · rintro ⟨virt', phys, flags, hlatest, hwrite⟩
    obtain ⟨-, hflags⟩ := kept.forUser _ (List.mem_of_mem_filter (List.mem_of_getLast? hlatest))
    refine ⟨_, by rw [hlatest]; rfl, ?_, fun hw => ?_⟩
    · rw [and_entry (by decide) (by decide), hflags]
    · rw [and_entry (by decide) (by decide), hwrite hw]

/-- The first page of the user half, mapped for writing. -/
def firstPage : PageOp := .map 0x8000000000 0x7000 .userReadWrite

theorem user_accessible_iff_latest_firstPage :
    userAccessible ([firstPage].foldl (PageHistory.step 0x1000) ⟨smallTables, []⟩).vm 0x1000
      0x8000000000 true = true := by
  have hempty : ∀ i, UserIndex i → smallTables.mem (0x1000 &&& addrMask) i &&& present = 0 := by
    intro i hi
    have hne : i ≠ 0 := by
      rintro rfl
      exact absurd hi.1 (by decide)
    simp [smallTables, hne]
  have hops : ∀ op ∈ [firstPage], op.ForUser := by
    intro op hop
    rw [List.mem_singleton.mp hop]
    exact ⟨by decide, by decide⟩
  refine (user_accessible_iff_latest smallTables_separated (by decide) hempty hops
    (by decide : UserAddress 0x8000000000) true).mpr ?_
  refine ⟨0x8000000000, 0x7000, .userReadWrite, ?_, fun _ => by decide⟩
  have hok : (smallTables.mapPage 0x1000 0x8000000000 0x7000 .userReadWrite).1 = .ok () := by
    decide +kernel
  simp only [List.foldl, PageHistory.step, firstPage]
  generalize smallTables.mapPage 0x1000 0x8000000000 0x7000 .userReadWrite = result at hok
  obtain ⟨outcome, vm⟩ := result
  obtain rfl : outcome = .ok () := hok
  exact (latest_concat [] _ _).trans (if_pos rfl)

/-- A mapping to a frame that is not aligned fails, and the page stays as it was. -/
theorem failed_map_keeps_access :
    let vm := (smallTables.mapPage 0x1000 0x8000000000 0x7000 .userReadWrite).2
    let last := vm.mapPage 0x1000 0x8000000000 0x7001 .userReadWrite
    last.1 = .error .invalidAddress ∧ userAccessible last.2 0x1000 0x8000000000 true = true := by
  decide +kernel

end KazuOS.Kernel
