import KazuOS.Kernel.LoadedSpace

/-! What a loaded program finds in its memory. The code is mapped from the page of its entry
point on, so an address of the image is the address it was linked for only if the entry point
lies on the first page. -/
namespace KazuOS.Kernel

open KazuOS.Lib KazuOS.Memory KazuOS.Memory.AddressSpaces FrameOwnership

/-- The pages of a run of frames. -/
def RunPage (start count : Nat) (t : BitVec 64) : Prop := ∃ j < count, t = frameAddr (start + j)

theorem pageAt_frameAddr {start i : Nat} (h : start + i ≤ 2 ^ 27) :
    pageAt (BitVec.ofNat 64 (start * frameSize)) i &&& addrMask = frameAddr (start + i) := by
  have hpage : pageAt (BitVec.ofNat 64 (start * frameSize)) i = frameAddr (start + i) := by
    have hsize : (pageSize : BitVec 64).toNat = 4096 := by decide
    apply BitVec.eq_of_toNat_eq
    rw [pageAt, frameAddr_toNat h, BitVec.toNat_add, BitVec.toNat_mul, BitVec.toNat_ofNat,
      BitVec.toNat_ofNat, hsize, show frameSize = 4096 from rfl]
    omega
  have haddr := frameAddr_toNat h
  rw [hpage]
  refine and_addrMask_of_lt ?_ (by omega)
  exact aligned_iff.mpr (by omega)

/-- Memory with a run of frames mapped as a whole, after stores into it. -/
structure MapsRun (vm : Vmm) (level : BitVec 64 → Nat) (cr3 virt : BitVec 64) (start count : Nat)
    (ss : List (Store 64)) (vm' : Vmm) (level' : BitVec 64 → Nat) : Prop where
  grows : Extends (RunPage start count) vm level vm' level'
  mem : ∀ t, Outside vm level t → vm'.mem t = (vm.stores ss).mem t
  mapped : ∀ i < count, vm'.translate cr3 (pageAt virt i) = some (frameAddr (start + i))
  other : ∀ v, UserAddress v → (∀ i < count, page v ≠ page (pageAt virt i)) →
    vm'.translate cr3 v = vm.translate cr3 v

theorem mapsRun_of_mapRange {vm vm' : Vmm} {roots : List (BitVec 64)} {level : BitVec 64 → Nat}
    (sep : Separated vm roots level) {cr3 virt : BitVec 64} (hroot : cr3 ∈ roots)
    {start count : Nat} (hbound : start + count ≤ 2 ^ 27)
    (hrun : ∀ t, RunPage start count t → level t = 0) {ss : List (Store 64)}
    (hss : ∀ s ∈ ss, ∃ lo, Between (frameAddr start) lo (count * 4096) s)
    (huser : ∀ i < count, UserAddress (pageAt virt i))
    (hdistinct : ∀ i < count, ∀ j < i, page (pageAt virt i) ≠ page (pageAt virt j))
    {flags : MapFlags}
    (hmap : (vm.stores ss).mapRange cr3 virt (BitVec.ofNat 64 (start * frameSize)) (count * 4096)
      flags = (.ok (), vm')) :
    ∃ level', Separated vm' roots level' ∧ MapsRun vm level cr3 virt start count ss vm' level' := by
  have hpages := stores_in_run hbound hss
  obtain ⟨sep', hstores⟩ := extends_stores sep hrun hpages
  have hroot' : cr3 &&& addrMask ∈ roots := by rwa [sep.root_mask hroot]
  have hzero : ∀ a : BitVec 64, a + 0 * pageSize = a := by simp
  obtain ⟨level', sep'', hextends, htranslate⟩ := mapPages_extends
    (BitVec.ofNat 64 (start * frameSize)) flags sep' hroot' 0 (by rwa [hzero]) (P := fun _ => False)
  rw [Vmm.mapRange, divCeil_pages] at hmap
  simp only [hmap, hzero] at sep'' hextends htranslate
  obtain ⟨hmapped, hother⟩ := htranslate hdistinct trivial
  refine ⟨level', sep'', hstores.trans (hextends.mono fun _ h => h.elim), ?_, ?_, ?_⟩
  · exact fun t ht => hextends.mem t (hstores.outside t ht) not_false
  · intro i hi
    rw [hmapped i hi, pageAt_frameAddr (by omega)]
  · intro v hv hne
    rw [hother v hv hne]
    exact translate_stores (fun s hs a hcovers => hrun _ (hpages s hs a hcovers)) sep hroot' hv

/-! The bytes of the image and of the stack. -/

/-- The stack with the arguments on it, by bytes from its base on. -/
def stackByte (args : List (List UInt8)) (j : Nat) : UInt8 :=
  ByteMemory.writes (fun _ => 0) (pushArgsOntoStack 0 userStackBase args).stores (BitVec.ofNat 64 j)

theorem bytes_pushed {m : ByteMemory 64} {stackPhys : BitVec 64} {j : Nat}
    (hzero : m (stackPhys + BitVec.ofNat 64 j) = 0) (args : List (List UInt8)) :
    m.writes (pushArgsOntoStack stackPhys userStackBase args).stores
      (stackPhys + BitVec.ofNat 64 j) = stackByte args j := by
  rw [stores_shift, ByteMemory.writes_shift]
  exact ByteMemory.writes_congr hzero _

theorem pageBase_in_run {start j : Nat} (h : start + j / 4096 ≤ 2 ^ 27) :
    pageBase (frameAddr start + BitVec.ofNat 64 j) = frameAddr (start + j / 4096) := by
  apply BitVec.eq_of_toNat_eq
  rw [pageBase_toNat, BitVec.toNat_add, BitVec.toNat_ofNat, frameAddr_toNat h,
    frameAddr_toNat (by omega)]
  omega

/-- Where a built space leads, for the frames `start` of the code and `start'` of the stack. The
stack is mapped over the code where both would be. -/
structure Shows (vm : Vmm) (cr3 entry : BitVec 64) (code : List UInt8) (args : List (List UInt8))
    (start start' : Nat) : Prop where
  bound : start + codePages code ≤ 2 ^ 27
  stackBound : start' + stackPages ≤ 2 ^ 27
  stack : ∀ v j, j < stackPages → page v = stackPage + j →
    vm.translate cr3 v = some (frameAddr (start' + j))
  image : ∀ v i, i < codePages code → page v = page entry + i →
    page v < stackPage ∨ stackPage + stackPages ≤ page v →
    vm.translate cr3 v = some (frameAddr (start + i))
  other : ∀ v, UserAddress v → page v < page entry ∨ page entry + codePages code ≤ page v →
    page v < stackPage ∨ stackPage + stackPages ≤ page v → vm.translate cr3 v = none
  codeBytes : ∀ i b, code[i]? = some b → vm.bytes (frameAddr start + BitVec.ofNat 64 i) = b
  stackBytes : ∀ j < userStackSize,
    vm.bytes (frameAddr start' + BitVec.ofNat 64 j) = stackByte args j

section Built

variable {k : Kernel} {roots : List (BitVec 64)} {level : BitVec 64 → Nat} {vm vm' : Vmm}
  {cr3 : BitVec 64} {start : Nat}

variable {code : List UInt8} {entry : BitVec 64} {args : List (List UInt8)}

theorem mapsRun_code (sep : Separated vm roots level) (hroot : cr3 ∈ roots)
    (huser : ∀ i < codePages code, UserAddress (pageAt (codeBase entry) i))
    (hbound : start + codePages code ≤ 2 ^ 27)
    (hrun : ∀ t, RunPage start (codePages code) t → level t = 0)
    (hmap : mapCode vm cr3 entry (start * frameSize) code = (.ok (), vm')) :
    ∃ level', Separated vm' roots level' ∧
      MapsRun vm level cr3 (codeBase entry) start (codePages code)
        [⟨frameAddr start, List.replicate (codePages code * 4096) 0⟩, ⟨frameAddr start, code⟩]
        vm' level' := by
  refine mapsRun_of_mapRange sep hroot hbound hrun (code_between start code) huser ?_ hmap
  intro i hi j hj
  rw [page_pageAt, page_pageAt]
  omega

theorem mapsRun_stack (sep : Separated vm roots level) (hroot : cr3 ∈ roots)
    (hbound : start + stackPages ≤ 2 ^ 27) (hrun : ∀ t, RunPage start stackPages t → level t = 0)
    (hmap : mapStack vm cr3 (start * frameSize) = (.ok (), vm')) :
    ∃ level', Separated vm' roots level' ∧
      MapsRun vm level cr3 userStackBase start stackPages
        [⟨frameAddr start, List.replicate (stackPages * 4096) 0⟩] vm' level' := by
  refine mapsRun_of_mapRange sep hroot hbound hrun (stack_between start) userAddress_stack ?_ hmap
  intro i hi j hj
  rw [page_stack i hi, page_stack j (by omega)]
  omega

/-- The zeros under the arguments. -/
theorem bytes_zeroed (vm : Vmm) {count j : Nat} (hj : j < count * 4096) (hlt : count ≤ 2 ^ 27) :
    (vm.stores [⟨frameAddr start, List.replicate (count * 4096) 0⟩]).bytes
      (frameAddr start + BitVec.ofNat 64 j) = 0 := by
  rw [bytes_stores]
  refine (ByteMemory.holds_write vm.bytes _).get ?_ (List.getElem?_replicate_of_lt hj)
  rw [List.length_replicate]
  omega

theorem bytes_coded (vm : Vmm) (zeros : Store 64) (hlt : code.length ≤ 2 ^ 64)
    {i : Nat} {b : UInt8} (hb : code[i]? = some b) :
    (vm.stores [zeros, ⟨frameAddr start, code⟩]).bytes (frameAddr start + BitVec.ofNat 64 i) = b := by
  rw [bytes_stores]
  exact (ByteMemory.holds_write (vm.bytes.write zeros) ⟨frameAddr start, code⟩).get hlt hb

theorem shows_of_runs {vm₁ vm₂ vm₃ : Vmm} {level₁ level₂ level₃ : BitVec 64 → Nat} {start' : Nat}
    {zeros : Store 64} (sep : Separated vm₃ roots level₃) (hroot : cr3 ∈ roots)
    (hnew : ∀ v, UserAddress v → vm₁.translate cr3 v = none)
    (first : MapsRun vm₁ level₁ cr3 (codeBase entry) start (codePages code)
      [zeros, ⟨frameAddr start, code⟩] vm₂ level₂)
    (second : MapsRun vm₂ level₂ cr3 userStackBase start' stackPages
      [⟨frameAddr start', List.replicate (stackPages * 4096) 0⟩] vm₃ level₃)
    (hcode : ∀ t, RunPage start (codePages code) t → Outside vm₁ level₁ t)
    (hstack : ∀ t, RunPage start' stackPages t → Outside vm₂ level₂ t)
    (hapart : ∀ t, RunPage start (codePages code) t → ¬RunPage start' stackPages t)
    (hbound : start + codePages code ≤ 2 ^ 27) (hbound' : start' + stackPages ≤ 2 ^ 27)
    (huser : 2 ^ 27 ≤ page entry ∧ page entry + codePages code ≤ 2 ^ 35) (hfits : ArgsFit args) :
    Shows (vm₃.stores (pushArgsOntoStack (frameAddr start') userStackBase args).stores) cr3 entry
      code args start start' := by
  have hpages := stores_in_run hbound' (pushed_between start' hfits)
  have hroot' : cr3 &&& addrMask ∈ roots := by rwa [sep.root_mask hroot]
  have htranslate : ∀ {v}, UserAddress v → _ := fun {v} hv =>
    translate_stores (fun s hs a hcovers => ((second.grows.outside _
      (hstack _ (hpages s hs a hcovers))).level)) sep hroot' hv
  have hstackPage : stackPage + stackPages ≤ 2 ^ 35 := by decide
  refine ⟨hbound, hbound', ?_, ?_, ?_, ?_, ?_⟩
  · intro v j hj hv
    have huserv : UserAddress v := by
      rw [userAddress_iff, UserPage]
      have hlow : 2 ^ 27 ≤ stackPage := by decide
      omega
    rw [htranslate huserv, translate_of_page_eq (hv.trans (page_stack j hj).symm)]
    exact second.mapped j hj
  · intro v i hi hv hout
    have hpage : page v = page (pageAt (codeBase entry) i) := by
      rw [page_pageAt, hv, Nat.mod_eq_of_lt (by omega)]
    have huserv : UserAddress v := by
      rw [userAddress_iff, UserPage]
      omega
    rw [htranslate huserv, second.other v huserv, translate_of_page_eq hpage]
    · exact first.mapped i hi
    · intro j hj
      rw [page_stack j hj]
      omega
  · intro v huserv hout hout'
    rw [htranslate huserv, second.other v huserv, first.other v huserv]
    · exact hnew v huserv
    · intro i hi
      rw [page_pageAt]
      omega
    · intro j hj
      rw [page_stack j hj]
      omega
  · intro i b hb
    have hi := (List.getElem?_eq_some_iff.mp hb).1
    have hlength := length_le_codePages code
    have hpage : RunPage start (codePages code)
        (pageBase (frameAddr start + BitVec.ofNat 64 i)) :=
      ⟨i / 4096, by omega, pageBase_in_run (by omega)⟩
    have houtside := hcode _ hpage
    have hother := hapart _ hpage
    refine Eq.trans (bytes_congr ?_) (bytes_coded vm₁ zeros (by omega) hb)
    rw [mem_stores, second.grows.mem _ (first.grows.outside _ houtside) hother, first.mem _ houtside]
    intro s hs a hcovers heq
    exact hother (heq ▸ hpages s hs a hcovers)
  · intro j hj
    have hpage : RunPage start' stackPages (pageBase (frameAddr start' + BitVec.ofNat 64 j)) := by
      have hj' : j / 4096 < stackPages := Nat.div_lt_of_lt_mul hj
      exact ⟨j / 4096, hj', pageBase_in_run (by omega)⟩
    rw [bytes_stores]
    refine bytes_pushed ?_ args
    rw [bytes_congr (second.mem _ (hstack _ hpage))]
    exact bytes_zeroed vm₂ hj (by decide)

theorem frameAddr_inj {a b : Nat} (ha : a ≤ 2 ^ 27) (hb : b ≤ 2 ^ 27) (h : frameAddr a = frameAddr b) :
    a = b := by
  have htoNat := congrArg BitVec.toNat h
  rw [frameAddr_toNat ha, frameAddr_toNat hb] at htoNat
  omega

/-- A run taken after another one has no page in common with it. -/
theorem apart_runs {pmm pmm' pmm'' : Pmm} {start' count count' : Nat}
    (first : TakesRun start count pmm pmm') (second : TakesRun start' count' pmm' pmm'')
    (hlimit : pmm.totalFrames ≤ 2 ^ 27) :
    ∀ t, RunPage start count t → ¬RunPage start' count' t := by
  rintro t ⟨i, hi, rfl⟩ ⟨j, hj, heq⟩
  have hbound := first.bound
  have hbound' := second.bound
  rw [first.total] at hbound'
  have hsame := frameAddr_inj (by omega) (by omega) heq
  have hused := (first.used (start + i)).mpr (.inr ⟨by omega, by omega⟩)
  have hfree := second.free (start' + j) (by omega) (by omega)
  rw [← hsame, hused] at hfree
  cases hfree

/-- The loader maps two runs of frames with no page in common, one for the code and one for the
stack. -/
structure LoadsRuns (k : Kernel) (entry : BitVec 64) (code : List UInt8) (start start' : Nat) :
    Prop where
  bound : start + codePages code ≤ 2 ^ 27
  stackBound : start' + stackPages ≤ 2 ^ 27
  apart : ∀ t, RunPage start (codePages code) t → ¬RunPage start' stackPages t
  pages : k.loadedPages entry code =
    framedPages (codeBase entry) (BitVec.ofNat 64 (start * frameSize)) (codePages code) ++
      framedPages userStackBase (BitVec.ofNat 64 (start' * frameSize)) stackPages

theorem loadedPages_built {vm'' : Vmm}
    {codePhys stackPhys : Nat} {pmm pmm' : Pmm} (create : k.vm.createAddressSpace = (.ok cr3, vm))
    (frames : k.pmm.allocFrames (codePages code) = (some codePhys, pmm))
    (map : mapCode vm cr3 entry codePhys code = (.ok (), vm'))
    (stack : pmm.allocFrames stackPages = (some stackPhys, pmm'))
    (stackMap : mapStack vm' cr3 stackPhys = (.ok (), vm'')) :
    k.loadedPages entry code =
      framedPages (codeBase entry) (BitVec.ofNat 64 codePhys) (codePages code) ++
        framedPages userStackBase (BitVec.ofNat 64 stackPhys) stackPages := by
  rw [loadedPages, create, frames]
  dsimp only
  rw [map, stack]
  dsimp only
  obtain ⟨n, -, hcode, hall⟩ := mappedPages_zero_eq cr3 (codeBase entry) (BitVec.ofNat 64 codePhys)
    .userReadWrite (codePages code) (codeMemory vm codePhys code)
  obtain ⟨n', -, hstack, hall'⟩ := mappedPages_zero_eq cr3 userStackBase (BitVec.ofNat 64 stackPhys)
    MapFlags.userReadWrite.noExecute stackPages (stackMemory vm' stackPhys)
  rw [hcode, hstack, hall (congrArg Prod.fst map), hall' (congrArg Prod.fst stackMap)]

variable {space : ProcessSpace}

theorem createProcessSpace_loads (lay : Layout k roots level) (hfits : ArgsFit args)
    (hspace : (k.createProcessSpace entry code args).1 = some space) :
    ∃ start start', LoadsRuns k entry code start start' ∧
      (2 ^ 27 ≤ page entry ∧ page entry + codePages code ≤ 2 ^ 35 →
        Shows (k.createProcessSpace entry code args).2.vm space.cr3 entry code args start start') := by
  have hbuilds := createProcessSpace_builds k entry code args
  generalize k.createProcessSpace entry code args = result at hbuilds hspace ⊢
  cases hbuilds with
  | noSpace | noCode | unmapped | noStack | stackUnmapped => cases hspace
  | @built cr3 vm₁ vm₂ vm₃ _ _ _ _ create frames map stack stackMap _ push =>
    obtain rfl := Option.some.inj hspace
    obtain ⟨start, rfl, htakes⟩ := allocFrames_takes lay.sized frames
    obtain ⟨start', rfl, htakes'⟩ := allocFrames_takes (htakes.sized lay.sized) stack
    have hbound := Nat.le_trans htakes.bound lay.identity
    have hbound' := Nat.le_trans (htakes.total ▸ htakes'.bound) lay.identity
    have hapart := apart_runs htakes htakes' lay.identity
    refine ⟨start, start', ⟨hbound, hbound', hapart,
      loadedPages_built create frames map stack stackMap⟩, fun huser => ?_⟩
    have huserPages := (userAddress_code_iff entry (one_le_codePages code)).mpr huser
    obtain ⟨⟨level₁, sep₁, hcreated⟩, hnew⟩ :=
      createAddressSpace_extends (P := fun _ => False) lay.separated create
    have hcode : ∀ t, RunPage start (codePages code) t → Outside vm₁ level₁ t := by
      rintro t ⟨i, hi, rfl⟩
      exact hcreated.outside _ (lay.frames _ (free_run htakes i hi))
    obtain ⟨level₂, sep₂, first⟩ := mapsRun_code sep₁ List.mem_cons_self huserPages hbound
      (fun t ht => (hcode t ht).level) map
    have hstack : ∀ t, RunPage start' stackPages t → Outside vm₂ level₂ t := by
      rintro t ⟨j, hj, rfl⟩
      have hfree := htakes.free_sub (free_run htakes' j hj)
      exact first.grows.outside _ (hcreated.outside _ (lay.frames _ hfree))
    obtain ⟨level₃, sep₃, second⟩ := mapsRun_stack sep₂ List.mem_cons_self hbound'
      (fun t ht => (hstack t ht).level) stackMap
    rw [push]
    exact shows_of_runs sep₃ List.mem_cons_self hnew first second hcode hstack hapart hbound hbound'
      huser hfits

end Built

/-! Where the pages of a new address space are. -/

/-- A new address space has pages of its own only where the user may have them, and each of them leads
to the frame that it was mapped to. -/
structure Contained (vm : Vmm) (pages : List (BitVec 64 × BitVec 64)) (cr3 : BitVec 64) (vm' : Vmm) :
    Prop extends KeepsKernel vm vm' where
  root : ∀ i, ¬UserIndex i → vm'.mem cr3 i = vm.mem vm.kernelPml4 i
  user : ∀ m ∈ pages, UserAddress m.1
  leads : ∀ m ∈ pages, vm'.translate cr3 m.1 = some (m.2 &&& addrMask)

section Contained

variable {k : Kernel} {entry : BitVec 64} {code : List UInt8} {start start' : Nat}
  (h : LoadsRuns k entry code start start')
include h

theorem LoadsRuns.mem_code {i : Nat} (hi : i < codePages code) : (pageAt (codeBase entry) i,
    pageAt (BitVec.ofNat 64 (start * frameSize)) i) ∈ k.loadedPages entry code := by
  rw [h.pages]
  exact List.mem_append_left _ (mem_framedPages.mpr ⟨i, hi, rfl⟩)

theorem LoadsRuns.mem_stack {j : Nat} (hj : j < stackPages) : (pageAt userStackBase j,
    pageAt (BitVec.ofNat 64 (start' * frameSize)) j) ∈ k.loadedPages entry code := by
  rw [h.pages]
  exact List.mem_append_right _ (mem_framedPages.mpr ⟨j, hj, rfl⟩)

variable {cr3 : BitVec 64} {vm : Vmm}

/-- A page of both would lead to two frames. -/
theorem LoadsRuns.apart_of_leads
    (hleads : ∀ m ∈ k.loadedPages entry code, vm.translate cr3 m.1 = some (m.2 &&& addrMask)) :
    ∀ i < codePages code, ∀ j < stackPages,
      page (pageAt (codeBase entry) i) ≠ page (pageAt userStackBase j) := by
  intro i hi j hj heq
  have hbound := h.bound
  have hbound' := h.stackBound
  have hcode := hleads _ (h.mem_code hi)
  have hstack := hleads _ (h.mem_stack hj)
  rw [translate_of_page_eq heq, hstack, pageAt_frameAddr (by omega), pageAt_frameAddr (by omega),
    Option.some.injEq] at hcode
  exact h.apart _ ⟨i, hi, rfl⟩ ⟨j, hj, hcode.symm⟩

theorem LoadsRuns.leads {args : List (List UInt8)}
    (hshows : Shows vm cr3 entry code args start start')
    (hrange : LoadsInUserHalf entry (codePages code)) :
    ∀ m ∈ k.loadedPages entry code, vm.translate cr3 m.1 = some (m.2 &&& addrMask) := by
  obtain ⟨-, hhigh, hstack⟩ := hrange
  have hbound := h.bound
  have hbound' := h.stackBound
  rw [h.pages, List.forall_mem_append]
  constructor
  · intro m hm
    obtain ⟨i, hi, rfl⟩ := mem_framedPages.mp hm
    have hpage : page (pageAt (codeBase entry) i) = page entry + i := by
      rw [page_pageAt, Nat.mod_eq_of_lt (by omega)]
    rw [hshows.image _ i hi hpage (by omega), pageAt_frameAddr (by omega)]
  · intro m hm
    obtain ⟨j, hj, rfl⟩ := mem_framedPages.mp hm
    rw [hshows.stack _ j hj (page_stack j hj), pageAt_frameAddr (by omega)]

end Contained

/-- Whatever comes of the load, the kernel keeps its tables and only user addresses are mapped if the
image lies in the user half; and a space that was built is contained in it exactly then. -/
theorem loaded_space_contained_iff {k : Kernel} {roots : List (BitVec 64)} {level : BitVec 64 → Nat}
    (lay : Layout k roots level) {args : List (List UInt8)} (hfits : ArgsFit args)
    (image : List UInt8) :
    ∀ kxe, parseKxe image = some kxe →
      (LoadsInUserHalf kxe.entry (codePages kxe.code) →
        KeepsKernel k.vm (k.createProcessSpace kxe.entry kxe.code args).2.vm ∧
          ∀ m ∈ k.loadedPages kxe.entry kxe.code, UserAddress m.1) ∧
      ∀ space, (k.createProcessSpace kxe.entry kxe.code args).1 = some space →
        (Contained k.vm (k.loadedPages kxe.entry kxe.code) space.cr3
            (k.createProcessSpace kxe.entry kxe.code args).2.vm ↔
          LoadsInUserHalf kxe.entry (codePages kxe.code)) := by
  intro kxe _
  have hpages := one_le_codePages kxe.code
  have huser_iff := userAddress_code_iff kxe.entry hpages
  constructor
  · rintro ⟨hlow, hhigh, -⟩
    have huser := huser_iff.mpr ⟨hlow, hhigh⟩
    obtain ⟨roots', hreached, -⟩ := createProcessSpace_reached lay huser hfits
    exact ⟨hreached.keepsKernel lay, loadedPages_user huser⟩
  · intro space hspace
    obtain ⟨start, start', hloads, hshows⟩ := createProcessSpace_loads lay hfits hspace
    constructor
    · intro h
      have huser : ∀ i < codePages kxe.code, UserAddress (pageAt (codeBase kxe.entry) i) := by
        intro i hi
        have hpage := h.user _ (hloads.mem_code hi)
        exact hpage
      obtain ⟨hlow, hhigh⟩ := huser_iff.mp huser
      exact ⟨hlow, hhigh, (apart_code_iff hpages hhigh).mp (hloads.apart_of_leads h.leads)⟩
    · intro hrange
      have huser := huser_iff.mpr ⟨hrange.1, hrange.2.1⟩
      obtain ⟨roots', hreached, hroots⟩ := createProcessSpace_reached lay huser hfits
      exact ⟨hreached.keepsKernel lay, hreached.root (hroots space hspace), loadedPages_user huser,
        hloads.leads (hshows ⟨hrange.1, hrange.2.1⟩) hrange⟩

theorem loaded_space_contained_iff_ret : ∃ space,
    ((loaderKernel loaderTables).createProcessSpace userBase [0xC3] []).1 = some space ∧
      Contained (loaderKernel loaderTables).vm ((loaderKernel loaderTables).loadedPages userBase [0xC3])
        space.cr3 ((loaderKernel loaderTables).createProcessSpace userBase [0xC3] []).2.vm := by
  obtain ⟨space, hspace⟩ := loaderKernel_loads userBase
  have hrange : LoadsInUserHalf userBase (codePages [0xC3]) := by
    unfold LoadsInUserHalf
    decide
  have hfits : ArgsFit [] := .inl rfl
  have hcontained := (loaded_space_contained_iff loaderKernel_layout hfits retImage _
    retImage_parses).2
  dsimp only at hcontained
  exact ⟨space, hspace, (hcontained space hspace).mpr hrange⟩

/-- An entry offset that takes the load address around to zero. -/
def wrappedImage : List UInt8 := buildKxe [0xC3] 0xFFFFFF8000000000 0

/-- A kernel with room for the code of a small program and none for its stack. -/
def shortKernel : Kernel :=
  { loaderKernel [some 0x2000, some 0x3000, some 0x4000] with pmm := ⟨[0xDF], 8, 1, 0⟩ }

/-- Such an image is loaded at address zero, through a table that all address spaces share. The
entry made there stays when the load fails. -/
theorem wrapped_entry_reaches_kernel :
    parseKxe wrappedImage = some ⟨0, [0xC3], 0⟩ ∧
    (∃ space, ((loaderKernel loaderTables).createProcessSpace 0 [0xC3] []).1 = some space) ∧
    (∃ m ∈ (loaderKernel loaderTables).loadedPages 0 [0xC3], ¬UserAddress m.1) ∧
    SharedTable shortKernel.vm 3 0x3F000 ∧
    (shortKernel.createProcessSpace 0 [0xC3] []).2.vm.mem 0x3F000 0 ≠
      shortKernel.vm.mem 0x3F000 0 := by
  have hshared : ¬UserIndex 0 := by decide
  have hchild : shortKernel.vm.child shortKernel.vm.kernelPml4 0 = some 0x3F000 := by decide
  have hzero : ¬UserAddress (pageAt (codeBase 0) 0) := by decide
  obtain ⟨space, hspace⟩ := loaderKernel_loads 0
  obtain ⟨start, start', hloads, -⟩ :=
    createProcessSpace_loads loaderKernel_layout (.inl rfl) hspace
  exact ⟨by decide +kernel, ⟨space, hspace⟩, ⟨_, hloads.mem_code (one_le_codePages _), hzero⟩,
    .entry hshared hchild, by decide +kernel⟩

/-! The image at the addresses it was linked for. -/

/-- The byte that a program finds at an address. -/
def userByte (vm : Vmm) (cr3 virt : BitVec 64) : Option UInt8 :=
  (vm.translate cr3 virt).map fun frame => vm.bytes (frame + (virt &&& 0xfff))

/-- How far behind the base the stack begins. -/
def stackOffset : Nat := 0x7FFF0000

/-- The entry point lies on the first page of the image, and an image that reaches as far as the
stack has the bytes of the stack there. -/
def LinkedInPlace (code : List UInt8) (entry : BitVec 64) (args : List (List UInt8)) : Prop :=
  entry.toNat < 4096 ∧ ∀ i b, code[i]? = some b → stackOffset ≤ i →
    i < stackOffset + userStackSize → b = stackByte args (i - stackOffset)

theorem page_linked {i : Nat} (h : i < 2 ^ 47) :
    page (userBase + BitVec.ofNat 64 i) = 2 ^ 27 + i / 4096 := by
  have hbase : userBase.toNat = 2 ^ 39 := by decide
  rw [page, BitVec.toNat_add, BitVec.toNat_ofNat, hbase]
  omega

theorem address_in_run {start i o : Nat} (h : start + (i - o) / 4096 ≤ 2 ^ 27) (hi : i < 2 ^ 47)
    (ho : o % 4096 = 0) (hlt : o ≤ i) :
    frameAddr (start + (i - o) / 4096) + ((userBase + BitVec.ofNat 64 i) &&& 0xfff) =
      frameAddr start + BitVec.ofNat 64 (i - o) := by
  have hbase : userBase.toNat = 2 ^ 39 := by decide
  have hmask : (0xfff : BitVec 64).toNat = 2 ^ 12 - 1 := by decide
  apply BitVec.eq_of_toNat_eq
  rw [BitVec.toNat_add, BitVec.toNat_add, BitVec.toNat_and, hmask, Nat.and_two_pow_sub_one_eq_mod,
    BitVec.toNat_add, BitVec.toNat_ofNat, BitVec.toNat_ofNat, hbase, frameAddr_toNat (by omega),
    frameAddr_toNat (by omega)]
  omega

section Linked

variable {vm : Vmm} {cr3 : BitVec 64} {code : List UInt8} {entry : BitVec 64}
  {args : List (List UInt8)} {start start' : Nat}

variable {i : Nat}

variable {b : UInt8}

theorem Shows.length_lt (h : Shows vm cr3 (userBase + entry) code args start start')
    (hb : code[i]? = some b) : i / 4096 < codePages code ∧ i < 2 ^ 39 := by
  have hi := (List.getElem?_eq_some_iff.mp hb).1
  have hlength := length_le_codePages code
  have hbound := h.bound
  omega

theorem Shows.userByte_stack (h : Shows vm cr3 (userBase + entry) code args start start')
    (hlow : stackOffset ≤ i) (hhigh : i < stackOffset + userStackSize) :
    userByte vm cr3 (userBase + BitVec.ofNat 64 i) = some (stackByte args (i - stackOffset)) := by
  have hbound := h.stackBound
  unfold stackOffset at hlow hhigh ⊢
  unfold stackPages at hbound
  unfold userStackSize at hhigh
  have hpage : page (userBase + BitVec.ofNat 64 i) = stackPage + (i - 0x7FFF0000) / 4096 := by
    rw [page_linked (by omega), stackPage]
    omega
  have hj : (i - 0x7FFF0000) / 4096 < stackPages := by
    unfold stackPages
    omega
  have haddr := address_in_run (by omega : start' + (i - 0x7FFF0000) / 4096 ≤ 2 ^ 27) (by omega)
    (by decide) hlow
  rw [userByte, h.stack _ _ hj hpage, Option.map_some, haddr,
    h.stackBytes _ (by unfold userStackSize; omega)]

theorem Shows.userByte_image (h : Shows vm cr3 (userBase + entry) code args start start')
    (hentry : entry.toNat < 4096) (hb : code[i]? = some b)
    (hout : i < stackOffset ∨ stackOffset + userStackSize ≤ i) :
    userByte vm cr3 (userBase + BitVec.ofNat 64 i) = some b := by
  obtain ⟨hpages, hlt⟩ := h.length_lt hb
  have hbound := h.bound
  have hpage := page_linked (i := i) (by omega)
  have hfirst : page (userBase + entry) = 2 ^ 27 := by
    have hlinked := page_linked (i := entry.toNat) (by omega)
    rw [BitVec.ofNat_toNat, BitVec.setWidth_eq] at hlinked
    omega
  unfold stackOffset userStackSize at hout
  have hoff : page (userBase + BitVec.ofNat 64 i) < stackPage ∨
      stackPage + stackPages ≤ page (userBase + BitVec.ofNat 64 i) := by
    unfold stackPage stackPages
    omega
  have haddr := address_in_run (by omega : start + (i - 0) / 4096 ≤ 2 ^ 27) (by omega) rfl
    (Nat.zero_le i)
  rw [Nat.sub_zero] at haddr
  rw [userByte, h.image _ _ hpages (by omega) hoff, Option.map_some, haddr, h.codeBytes i b hb]

/-- An image is found where it was linked for exactly if its entry point is on its first page
and it stays clear of the stack. -/
theorem Shows.linked_iff (h : Shows vm cr3 (userBase + entry) code args start start')
    (hentry : entry.toNat < code.length) :
    (∀ i b, code[i]? = some b → userByte vm cr3 (userBase + BitVec.ofNat 64 i) = some b) ↔
      LinkedInPlace code entry args := by
  constructor
  · intro hfound
    refine ⟨?_, ?_⟩
    · by_contra hlate
      -- the base itself is below the first page that is mapped
      obtain ⟨b, hb⟩ : ∃ b, code[0]? = some b := ⟨_, List.getElem?_eq_getElem (by omega)⟩
      obtain ⟨b', hb'⟩ : ∃ b', code[entry.toNat]? = some b' := ⟨_, List.getElem?_eq_getElem hentry⟩
      obtain ⟨-, hlt⟩ := h.length_lt hb'
      have hbase := page_linked (i := 0) (by decide)
      have hlinked := page_linked (i := entry.toNat) (by omega)
      rw [BitVec.ofNat_toNat, BitVec.setWidth_eq] at hlinked
      have huser : UserAddress (userBase + BitVec.ofNat 64 0) := by decide
      have hnone := h.other _ huser (.inl (by omega)) (.inl (by rw [hbase]; decide))
      have hbyte := hfound 0 b hb
      rw [userByte, hnone] at hbyte
      cases hbyte
    · intro i b hb hlow hhigh
      have hbyte := hfound i b hb
      rw [h.userByte_stack hlow hhigh] at hbyte
      exact (Option.some.inj hbyte).symm
  · rintro ⟨hfirst, hstack⟩ i b hb
    by_cases hin : stackOffset ≤ i ∧ i < stackOffset + userStackSize
    · rw [h.userByte_stack hin.1 hin.2, ← hstack i b hb hin.1 hin.2]
    · exact h.userByte_image hfirst hb (by omega)

end Linked

/-! The new process. -/

open KazuOS.Task Tasks

def mainThread (ts : Tasks) (pid : Nat) : Option Thread := (ts.mainTid pid).bind ts.threads.lookup

theorem createProcessSpace_tasks (k : Kernel) (entry : BitVec 64) (code : List UInt8)
    (args : List (List UInt8)) : (k.createProcessSpace entry code args).2.tasks = k.tasks := by
  have hbuilds := createProcessSpace_builds k entry code args
  generalize k.createProcessSpace entry code args = result at hbuilds
  cases hbuilds with
  | noSpace | noCode | unmapped | noStack | stackUnmapped | built => rfl

theorem mainThread_spawned {ts ts' : Tasks} (hd : ts.Distinct) {t : Thread} {p : Process}
    (hspawns : SpawnsProcess ts ts' t p) (hmain : p.mainTid = some t.tid) :
    mainThread ts' p.pid = some t := by
  have hd' := SpawnsProcess.distinct hspawns hd
  have hp : p ∈ ts'.processes := by simp [hspawns.processes]
  have ht : t ∈ ts'.threads := by simp [hspawns.threads]
  have hprocess : ts'.process p.pid = some p := Lib.find?_of_mem Process.pid hd'.pids hp
  rw [mainThread, Tasks.mainTid, hprocess, Option.bind_some, hmain, Option.bind_some]
  exact hd'.lookup ht

variable {k : Kernel}

/-- The thread of a program that was just loaded starts with the context the loader gave. -/
theorem spawnKxe_main (hd : k.tasks.Distinct) (privilege : PrivilegeLevel) {l : Loaded}
    {stackBase : Nat} (hstack : l.stack = some stackBase) :
    (k.spawnKxe privilege (some l)).1 ≠ 0 ∧ (k.spawnKxe privilege (some l)).2.vm = l.vm ∧
      ∃ t, mainThread (k.spawnKxe privilege (some l)).2.tasks (k.spawnKxe privilege (some l)).1 =
          some t ∧
        t.userContext = startContext l.entry l.userStackTop l.cr3 l.argc l.argv := by
  obtain ⟨t, p, hspawns, hmain, hpid, hcontext⟩ := spawnUserProcess_starts hd stackBase l.entry
    l.userStackTop l.cr3 privilege l.argc l.argv
  have hpos : p.pid ≠ 0 := by
    rw [hspawns.pid]
    exact Nat.ne_of_gt hd.pidPositive
  have hthread := mainThread_spawned hd hspawns hmain
  unfold spawnKxe
  dsimp only
  rw [hstack, hpid, if_neg hpos]
  refine ⟨hpos, rfl, t, ?_, hcontext⟩
  have hsame := mainTid_updateProcess
    (f := fun p => { p with memoryBytes := l.codeSize + userStackSize }) (fun _ => rfl) (fun _ => rfl)
    (k.tasks.spawnUserProcess (some stackBase) l.entry l.userStackTop l.cr3 privilege l.argc l.argv).2
    p.pid p.pid
  dsimp only
  rw [mainThread, setMemoryBytes, hsame]
  exact hthread

/-- With a space and a kernel stack for it, a file becomes a process. -/
theorem spawnFile_starts (hd : k.tasks.Distinct) (accepts : KxeImage → Bool)
    (privilege : PrivilegeLevel) (stackBase : Nat) {file : List UInt8} {image : KxeImage}
    (hparses : parseKxe file = some image) (haccepts : accepts image) {args : List (List UInt8)}
    {space : ProcessSpace}
    (hspace : (k.createProcessSpace image.entry image.code args).1 = some space) :
    (k.spawnFile accepts privilege (some stackBase) (some file) args).1 ≠ 0 ∧
      (k.spawnFile accepts privilege (some stackBase) (some file) args).2.vm =
        (k.createProcessSpace image.entry image.code args).2.vm ∧
      ∃ t, mainThread (k.spawnFile accepts privilege (some stackBase) (some file) args).2.tasks
          (k.spawnFile accepts privilege (some stackBase) (some file) args).1 = some t ∧
        t.userContext = startContext image.entry.toNat space.initialRsp.toNat space.cr3.toNat
          space.argc.toNat space.argv.toNat := by
  have htasks := createProcessSpace_tasks k image.entry image.code args
  rw [spawnFile, Option.bind_some, hparses]
  dsimp only
  rw [if_pos haccepts, spawnKxeImage]
  rcases hresult : k.createProcessSpace image.entry image.code args with ⟨_ | space', k'⟩
  · rw [hresult] at hspace
    cases hspace
  rw [hresult] at hspace htasks
  obtain rfl := Option.some.inj hspace
  dsimp only at htasks ⊢
  exact spawnKxe_main (htasks ▸ hd) privilege (l := space'.loaded k' image (some stackBase)) rfl

/-- A process was made of the program, its thread starts at the entry point, and the image is
where it was linked for. -/
def StartsLinked (result : Nat × Kernel) (code : List UInt8) (entry : BitVec 64) : Prop :=
  result.1 ≠ 0 ∧ ∃ t, mainThread result.2.tasks result.1 = some t ∧
    t.userContext.rip = (userBase + entry).toNat ∧
    ∀ i b, code[i]? = some b →
      userByte result.2.vm (BitVec.ofNat 64 t.userContext.cr3) (userBase + BitVec.ofNat 64 i) = some b

/-- With frames, page tables and a kernel stack for it, a program that was built is loaded and
starts at its entry point. It is where it was linked for under one condition. -/
theorem built_image_starts_linked_iff {k : Kernel} {roots : List (BitVec 64)}
    {level : BitVec 64 → Nat} (lay : Layout k roots level) (hd : k.tasks.Distinct)
    {code : List UInt8} {entry : BitVec 64} (hentry : entry.toNat < code.length) (flags : BitVec 32)
    (accepts : KxeImage → Bool) (haccepts : accepts ⟨userBase + entry, code, flags⟩)
    (privilege : PrivilegeLevel) {args : List (List UInt8)} (hfits : ArgsFit args) (stackBase : Nat)
    (htables : 1 + 3 * (codePages code + stackPages) ≤ k.vm.supply) {codePhys stackPhys : Nat}
    {pmm pmm' : Pmm} (hcode : k.pmm.allocFrames (codePages code) = (some codePhys, pmm))
    (hstack : pmm.allocFrames stackPages = (some stackPhys, pmm')) :
    StartsLinked (k.spawnFile accepts privilege (some stackBase)
        (some (buildKxe code entry flags)) args) code entry ↔
      LinkedInPlace code entry args := by
  obtain ⟨start, -, htakes⟩ := allocFrames_takes lay.sized hcode
  have hpages : codePages code ≤ 2 ^ 27 := by
    have hbound := Nat.le_trans htakes.bound lay.identity
    omega
  have hlength := length_le_codePages code
  have hpage : page (userBase + entry) = 2 ^ 27 + entry.toNat / 4096 := by
    have hlinked := page_linked (i := entry.toNat) (by omega)
    rwa [BitVec.ofNat_toNat, BitVec.setWidth_eq] at hlinked
  obtain ⟨space, hspace⟩ :=
    createProcessSpace_succeeds (userBase + entry) args htables hcode hstack
  obtain ⟨start, start', -, hshows⟩ := createProcessSpace_loads lay hfits hspace
  have hshows := hshows (by omega)
  have hparses : parseKxe (buildKxe code entry flags) = some ⟨userBase + entry, code, flags⟩ :=
    parseKxe_buildKxe (by rw [kxeHeaderSize]; omega) entry flags
  obtain ⟨hpid, hvm, t, ht, hcontext⟩ :=
    spawnFile_starts hd accepts privilege stackBase hparses haccepts hspace
  have hrip : t.userContext.rip = (userBase + entry).toNat := by
    rw [hcontext]
    rfl
  have hcr3 : BitVec.ofNat 64 t.userContext.cr3 = space.cr3 := by
    have hsaved : t.userContext.cr3 = space.cr3.toNat := by
      rw [hcontext]
      rfl
    rw [hsaved, BitVec.ofNat_toNat, BitVec.setWidth_eq]
  rw [← hshows.linked_iff hentry]
  constructor
  · rintro ⟨-, t', ht', -, hfound⟩ i b hb
    obtain rfl := Option.some.inj (ht.symm.trans ht')
    have hbyte := hfound i b hb
    rwa [hvm, hcr3] at hbyte
  · intro hfound
    refine ⟨hpid, t, ht, hrip, ?_⟩
    rw [hvm, hcr3]
    exact hfound

theorem loaderKernel_distinct (tables : List (Option (BitVec 64))) :
    (loaderKernel tables).tasks.Distinct := by
  have hsame : (loaderKernel tables).tasks = twoThreads.tasks := rfl
  rw [hsame]
  exact ⟨⟨by decide, by decide⟩, ⟨by decide, by decide⟩, by decide, by decide⟩

theorem built_image_starts_linked_iff_ret :
    StartsLinked ((loaderKernel loaderTables).spawnFile (fun _ => true) .user (some 0x50000)
      (some (buildKxe [0xC3] 0 0)) []) [0xC3] 0 := by
  obtain ⟨pmm, pmm', hcode, hstack⟩ := loaderKernel_frames
  have hlinked : LinkedInPlace [0xC3] 0 [] := by
    refine ⟨by decide, fun i b hb hlow => ?_⟩
    have hi : i < 1 := (List.getElem?_eq_some_iff.mp hb).1
    unfold stackOffset at hlow
    omega
  exact (built_image_starts_linked_iff loaderKernel_layout (loaderKernel_distinct _) (by decide) 0
    (fun _ => true) rfl .user (.inl rfl) 0x50000 (by decide) hcode hstack).mpr hlinked

/-- A program whose entry point is on its second page. -/
def lateCode : List UInt8 := List.replicate 4096 0x90 ++ [0xC3]

theorem lateCode_length : lateCode.length = 4097 := by
  rw [lateCode, List.length_append, List.length_replicate]
  rfl

theorem lateCode_pages : codePages lateCode = 2 := by
  rw [codePages, lateCode_length]
  rfl

/-- It starts at its entry point, and finds the first byte of the image there. Nothing is mapped
at the base. -/
theorem late_entry_misses_base : ∃ space,
    parseKxe (buildKxe lateCode 4096 0) = some ⟨userBase + 4096, lateCode, 0⟩ ∧
      ((loaderKernel loaderTables).createProcessSpace (userBase + 4096) lateCode []).1 = some space ∧
      lateCode[0]? = some 0x90 ∧ lateCode[4096]? = some 0xC3 ∧
      userByte ((loaderKernel loaderTables).createProcessSpace (userBase + 4096) lateCode []).2.vm
        space.cr3 userBase = none ∧
      userByte ((loaderKernel loaderTables).createProcessSpace (userBase + 4096) lateCode []).2.vm
        space.cr3 (userBase + 4096) = some 0x90 := by
  have hcode : ((loaderKernel loaderTables).pmm.allocFrames 2).1 = some 262144 := by
    decide +kernel
  have hstack : (((loaderKernel loaderTables).pmm.allocFrames 2).2.allocFrames stackPages).1 =
      some 270336 := by
    decide +kernel
  have hfirst : lateCode[0]? = some 0x90 := by
    rw [lateCode, List.getElem?_append_left (by rw [List.length_replicate]; decide)]
    exact List.getElem?_replicate_of_lt (by decide)
  have hlast : lateCode[4096]? = some 0xC3 := by
    rw [lateCode, List.getElem?_append_right (by rw [List.length_replicate]), List.length_replicate]
    rfl
  have hpage : page (userBase + 4096) = 2 ^ 27 + 1 := by decide
  have hparses : parseKxe (buildKxe lateCode 4096 0) = some ⟨userBase + 4096, lateCode, 0⟩ :=
    parseKxe_buildKxe (by rw [lateCode_length]; decide) 4096 0
  obtain ⟨space, hspace⟩ : ∃ space, ((loaderKernel loaderTables).createProcessSpace
      (userBase + 4096) lateCode []).1 = some space :=
    createProcessSpace_succeeds (userBase + 4096) [] (by rw [lateCode_pages]; decide)
      (by rw [lateCode_pages]; exact Prod.ext hcode rfl) (Prod.ext hstack rfl)
  obtain ⟨start, start', -, hshows⟩ :=
    createProcessSpace_loads loaderKernel_layout (.inl rfl) hspace
  have hshows := hshows (by rw [hpage, lateCode_pages]; decide)
  refine ⟨space, hparses, hspace, hfirst, hlast, ?_, ?_⟩
  · rw [userByte, hshows.other userBase (by decide) (.inl (by rw [hpage]; decide)) (.inl (by decide))]
    rfl
  · have htranslate := hshows.image (userBase + 4096) 0 (by rw [lateCode_pages]; decide) (by simp)
      (.inl (by rw [hpage]; decide))
    have hbyte := hshows.codeBytes 0 0x90 hfirst
    rw [userByte, htranslate]
    exact congrArg some hbyte

end KazuOS.Kernel
