import KazuOS.Kernel.KeyFocus

/-! The framebuffer with its pixels. A call that takes it does all it has to do before it looks at
where the answer goes. -/
namespace KazuOS

open KazuOS.Kernel KazuOS.Lib KazuOS.Locking KazuOS.Memory KazuOS.Memory.AddressSpaces KazuOS.Task

/-- The kernel with the ring of key events, the bytes of the framebuffer and what was saved
of them. -/
structure Screen where
  kernel : Kernel
  keyEvents : EventRing
  pixels : Nat → UInt8
  backBuffer : Option (List UInt8)

namespace Screen

def fbInfoSize : Nat := 24

def writeInfo (s : Screen) (console : Option FbParams) (cpu out : Nat) : Nat :=
  if out = 0 then failure
  else if console.isNone then failure
  else if s.kernel.validateRange cpu out fbInfoSize true then 0 else failure

/-- `room` is whether the kernel heap has a back buffer to give. -/
def saveBackup (s : Screen) (p : FbParams) (room : Bool) : Screen :=
  if 0 < p.bytes ∧ room then { s with backBuffer := some ((List.range p.bytes).map s.pixels) } else s

def releaseBackup (s : Screen) : Screen := { s with backBuffer := none }

def clear (s : Screen) (p : FbParams) : Screen :=
  { s with pixels := fun i => if i < p.bytes then 0 else s.pixels i }

def flush (s : Screen) : Screen :=
  { s with kernel := s.kernel.flushKeyboard, keyEvents := s.keyEvents.flush }

def acquire (s : Screen) (console : Option FbParams) (cpu pid : Nat) (cr3 : BitVec 64) (out : Nat)
    (room : Bool) : Nat × Screen :=
  match s.kernel.fbOwner with
  | some owner => if owner = pid then (s.writeInfo console cpu out, s) else (failure, s)
  | none =>
      match console with
      | none => (failure, s)
      | some p =>
          let s := s.saveBackup p room
          match s.kernel.vm.mapRange cr3 userFbVa p.base p.bytes .userReadWrite with
          | (.error _, vm) => (failure, { s with kernel := { s.kernel with vm } }.releaseBackup)
          | (.ok (), vm) =>
              let s := { s with kernel := { s.kernel with vm } }.clear p
              let s := { s with kernel := { s.kernel with fbOwner := some pid } }.flush
              (s.writeInfo console cpu out, s)

def fbAcquire (s : Screen) (console : Option FbParams) (cpu out : Nat) (room : Bool) : Nat × Screen :=
  match s.kernel.tasks.currentUserPid cpu with
  | none => (failure, s)
  | some pid =>
      match s.kernel.userCr3 pid with
      | none => (failure, s)
      | some cr3 => s.acquire console cpu pid cr3 out room

@[simp] theorem saveBackup_kernel (s : Screen) (p : FbParams) (room : Bool) :
    (s.saveBackup p room).kernel = s.kernel := by
  unfold saveBackup
  split <;> rfl

@[simp] theorem saveBackup_pixels (s : Screen) (p : FbParams) (room : Bool) :
    (s.saveBackup p room).pixels = s.pixels := by
  unfold saveBackup
  split <;> rfl

@[simp] theorem saveBackup_keyEvents (s : Screen) (p : FbParams) (room : Bool) :
    (s.saveBackup p room).keyEvents = s.keyEvents := by
  unfold saveBackup
  split <;> rfl

/-- The call is the one whose locks are followed elsewhere. -/
theorem fbAcquire_kernel (s : Screen) (console : Option FbParams) (cpu out : Nat) (room : Bool) :
    (s.fbAcquire console cpu out room).2.kernel =
      ((sysFbAcquire console cpu true).exec Effect.apply s.kernel).2 := by
  rw [Desk.exec_sysFbAcquire ⟨s.kernel, s.keyEvents, 0, [], []⟩]
  unfold fbAcquire Desk.fbAcquire
  dsimp only
  cases s.kernel.tasks.currentUserPid cpu with
  | none => rfl
  | some pid =>
    dsimp only
    cases s.kernel.userCr3 pid with
    | none => rfl
    | some cr3 =>
      dsimp only
      unfold acquire
      cases howner : s.kernel.fbOwner with
      | some owner =>
        dsimp only
        split <;> rfl
      | none =>
        cases console with
        | none => rfl
        | some p =>
          dsimp only
          rw [saveBackup_kernel]
          generalize s.kernel.vm.mapRange _ userFbVa p.base p.bytes .userReadWrite = result
          obtain ⟨answer, vm⟩ := result
          cases answer with
          | error e =>
            dsimp only
            rw [← howner]
            rfl
          | ok => rfl

/-- The owner, the pixels, the back buffer, both rings and the caller's address space. -/
structure Kept (s s' : Screen) (cpu : Nat) : Prop where
  owner : s'.kernel.fbOwner = s.kernel.fbOwner
  pixels : s'.pixels = s.pixels
  backBuffer : s'.backBuffer = s.backBuffer
  keyboard : s'.kernel.keyboard = s.kernel.keyboard
  keyEvents : s'.keyEvents = s.keyEvents
  pages : ∀ cr3, s.kernel.userCr3 (s.kernel.callerPid cpu) = some cr3 → ∀ virt, UserAddress virt →
    s'.kernel.vm.translate cr3 virt = s.kernel.vm.translate cr3 virt

theorem Kept.refl (s : Screen) (cpu : Nat) : Kept s s cpu :=
  ⟨rfl, rfl, rfl, rfl, rfl, fun _ _ _ _ => rfl⟩

/-- SYS_FB_ACQUIRE fails without a trace. -/
def FailsClean (s : Screen) (console : Option FbParams) (cpu out : Nat) (room : Bool) : Prop :=
  (s.fbAcquire console cpu out room).1 = failure → Kept s (s.fbAcquire console cpu out room).2 cpu

/-- A process asks for a framebuffer that nobody has. -/
structure Asks (s : Screen) (console : Option FbParams) (cpu pid : Nat) (cr3 : BitVec 64)
    (p : FbParams) : Prop where
  owner : s.kernel.fbOwner = none
  caller : s.kernel.tasks.currentUserPid cpu = some pid
  space : s.kernel.userCr3 pid = some cr3
  console : console = some p

/-- The pages are mapped, and the answer cannot be written; or mapping them fails behind a page that
did not lead to its part of the framebuffer before, or with a back buffer that was there before. -/
def FailsWith (s : Screen) (cpu out : Nat) (cr3 : BitVec 64) (p : FbParams) : Prop :=
  match s.kernel.vm.mapRange cr3 userFbVa p.base p.bytes .userReadWrite with
  | (.ok (), vm) =>
      out = 0 ∨ validateRangeIn vm (s.kernel.activeCr3 cpu) out fbInfoSize true = false
  | (.error _, _) => s.backBuffer ≠ none ∨ ∃ i < divCeil p.bytes 4096,
      (s.kernel.vm.mapRange cr3 userFbVa p.base ((i + 1) * 4096) .userReadWrite).1 = .ok () ∧
        s.kernel.vm.translate cr3 (userFbVa + BitVec.ofNat 64 (i * 4096)) ≠
          some ((p.base + BitVec.ofNat 64 (i * 4096)) &&& addrMask)

def FailsLate (s : Screen) (console : Option FbParams) (cpu out : Nat) : Prop :=
  ∃ pid cr3 p, s.Asks console cpu pid cr3 p ∧ s.FailsWith cpu out cr3 p

variable {console : Option FbParams} {s : Screen}

theorem Asks.unique {cpu pid pid' : Nat} {cr3 cr3' : BitVec 64}
    {p p' : FbParams} (h : s.Asks console cpu pid cr3 p) (h' : s.Asks console cpu pid' cr3' p') :
    cr3' = cr3 ∧ p' = p := by
  obtain rfl := Option.some.inj (h.caller.symm.trans h'.caller)
  exact ⟨Option.some.inj (h'.space.symm.trans h.space),
    Option.some.inj (h'.console.symm.trans h.console)⟩

theorem Asks.failsLate_iff {cpu pid : Nat} {cr3 : BitVec 64}
    {p : FbParams} (h : s.Asks console cpu pid cr3 p) (out : Nat) :
    s.FailsLate console cpu out ↔ s.FailsWith cpu out cr3 p := by
  constructor
  · rintro ⟨pid', cr3', p', h', hlate⟩
    obtain ⟨rfl, rfl⟩ := h.unique h'
    exact hlate
  · exact fun hlate => ⟨pid, cr3, p, h, hlate⟩

/-- In all other cases nothing happens. -/
theorem fbAcquire_split (s : Screen) (console : Option FbParams) (cpu out : Nat) (room : Bool) :
    ((s.fbAcquire console cpu out room).2 = s ∧ ∀ pid cr3 p, ¬s.Asks console cpu pid cr3 p) ∨
      ∃ pid cr3 p, s.Asks console cpu pid cr3 p ∧
        s.fbAcquire console cpu out room = s.acquire console cpu pid cr3 out room := by
  unfold fbAcquire
  cases hcaller : s.kernel.tasks.currentUserPid cpu with
  | none => exact .inl ⟨rfl, fun _ _ _ h => nomatch hcaller.symm.trans h.caller⟩
  | some pid =>
    dsimp only
    cases hspace : s.kernel.userCr3 pid with
    | none =>
      refine .inl ⟨rfl, fun pid' cr3 p h => ?_⟩
      obtain rfl := Option.some.inj (hcaller.symm.trans h.caller)
      cases hspace.symm.trans h.space
    | some cr3 =>
      dsimp only
      cases howner : s.kernel.fbOwner with
      | some owner =>
        refine .inl ⟨?_, fun _ _ _ h => nomatch howner.symm.trans h.owner⟩
        unfold acquire
        simp only [howner]
        split <;> rfl
      | none =>
        cases console with
        | none =>
          refine .inl ⟨?_, fun _ _ _ h => nomatch h.console⟩
          unfold acquire
          simp only [howner]
        | some p => exact .inr ⟨pid, cr3, p, ⟨howner, hcaller, hspace, rfl⟩, rfl⟩

theorem writeInfo_eq (s : Screen) (p : FbParams) (cpu out : Nat) :
    s.writeInfo (some p) cpu out = failure ↔
      out = 0 ∨ validateRangeIn s.kernel.vm (s.kernel.activeCr3 cpu) out fbInfoSize true = false := by
  unfold writeInfo Kernel.validateRange
  split
  · simp_all
  · split
    · simp_all
    · split
      · simp_all [Kernel.failure]
      · simp_all

section

variable {s : Screen} {console : Option FbParams} {cpu : Nat} {roots : List (BitVec 64)}
  {level : BitVec 64 → Nat}

/-- Mapping a range leaves the address space as it is just if every page that it comes to led to its
frame before. -/
theorem mapRange_same_iff {vm : Vmm} (sep : Separated vm roots level) {cr3 virt : BitVec 64}
    (hroot : cr3 &&& addrMask ∈ roots) (phys : BitVec 64) (flags : MapFlags) {size : Nat}
    (hrange : UserRange virt (divCeil size 4096)) :
    (∀ v, UserAddress v →
        (vm.mapRange cr3 virt phys size flags).2.translate cr3 v = vm.translate cr3 v) ↔
      ∀ i < divCeil size 4096,
        (vm.mapRange cr3 virt phys ((i + 1) * 4096) flags).1 = .ok () →
          vm.translate cr3 (virt + BitVec.ofNat 64 (i * 4096)) =
            some ((phys + BitVec.ofNat 64 (i * 4096)) &&& addrMask) := by
  obtain ⟨count, hcount, hshows, hprefix⟩ := shows_mapRange sep.shows hroot phys flags hrange
  have hreaches : ∀ i < divCeil size 4096,
      (vm.mapRange cr3 virt phys ((i + 1) * 4096) flags).1 = .ok () ↔ i < count := by
    intro i hi
    unfold Vmm.mapRange
    rw [divCeil_pages]
    exact hprefix (i + 1) hi
  constructor
  · intro h i hi hok
    have hframe := hshows.cr3_eq hroot (hrange.user hi)
    rw [hrange.page_eq hi, Pages.fill_inside (getElem?_framesFrom phys ((hreaches i hi).mp hok)),
      h _ (hrange.user hi)] at hframe
    exact Option.map_injective (fun _ _ => BitVec.eq_of_toNat_eq) hframe
  · intro h v huser
    rw [Pages.fill_of_eq] at hshows
    · exact sep.shows.translate_eq hshows hroot huser
    · intro i entry hentry
      have hi : i < count := by
        simpa using (List.getElem?_eq_some_iff.mp hentry).1
      have hlt : i < divCeil size 4096 := by omega
      rw [getElem?_framesFrom phys hi, Option.some.injEq] at hentry
      rw [← hrange.page_eq hlt, ← sep.shows.cr3_eq hroot (hrange.user hlt),
        h i hlt ((hreaches i hlt).mpr hi), ← hentry]
      rfl

/-- A failed call leaves no trace just if it failed early. -/
theorem fails_clean_iff (sep : Separated s.kernel.vm roots level)
    (hroot : ∀ cr3, s.kernel.userCr3 (s.kernel.callerPid cpu) = some cr3 → cr3 &&& addrMask ∈ roots)
    (hfits : ∀ p, console = some p → userFbVa.toNat + p.bytes ≤ Kernel.userMax) (out : Nat)
    (room : Bool) : s.FailsClean console cpu out room ↔ ¬s.FailsLate console cpu out := by
  obtain ⟨hsame, hnot⟩ | ⟨pid, cr3, p, hasks, hcall⟩ := s.fbAcquire_split console cpu out room
  · refine iff_of_true (fun _ => ?_) ?_
    · rw [hsame]
      exact .refl s cpu
    · rintro ⟨pid, cr3, p, hasks, -⟩
      exact hnot pid cr3 p hasks
  have hpid : s.kernel.callerPid cpu = pid := by
    rw [callerPid, hasks.caller]
    rfl
  have hmem := hroot cr3 (hpid ▸ hasks.space)
  have hrange := userRange_pixels (hfits p hasks.console)
  have hpages := mapRange_same_iff sep hmem p.base .userReadWrite hrange
  unfold FailsClean
  rw [hcall, hasks.failsLate_iff, FailsWith]
  unfold acquire
  simp only [hasks.owner, hasks.console, saveBackup_kernel]
  generalize s.kernel.vm.mapRange cr3 userFbVa p.base p.bytes .userReadWrite = result at hpages ⊢
  obtain ⟨answer, vm⟩ := result
  cases answer with
  | ok =>
    -- the owner is another by now
    refine ⟨fun h hlate => ?_, fun hnot hfailed => absurd ((writeInfo_eq _ p cpu out).mp hfailed) hnot⟩
    have howner := (h ((writeInfo_eq _ p cpu out).mpr hlate)).owner
    rw [hasks.owner] at howner
    cases howner
  | error e =>
    dsimp only at hpages ⊢
    rw [not_or, not_not]
    constructor
    · intro h
      have hkept := h rfl
      refine ⟨hkept.backBuffer.symm, ?_⟩
      rintro ⟨i, hi, hok, hne⟩
      exact hne (hpages.mp (hkept.pages cr3 (hpid ▸ hasks.space)) i hi hok)
    · rintro ⟨hback, hsame⟩ -
      refine ⟨hasks.owner.symm, saveBackup_pixels s p room, hback.symm, rfl,
        saveBackup_keyEvents s p room, ?_⟩
      intro cr3' hcr3
      rw [hpid, hasks.space] at hcr3
      obtain rfl := Option.some.inj hcr3
      refine hpages.mpr fun i hi hok => ?_
      by_contra hne
      exact hsame ⟨i, hi, hok, hne⟩

end

/-- Process 1, a key typed, and text on the screen. -/
def textScreen : Screen where
  kernel := { smallFb.kernel with keyboard := ⟨fun _ => 97, 1, 0⟩ }
  keyEvents := ⟨fun _ => 0, 0, 0⟩
  pixels := fun _ => 255
  backBuffer := none

/-- A framebuffer that does not begin at a page cannot be mapped. -/
theorem fails_clean_iff_unaligned :
    (textScreen.fbAcquire (some ⟨0x80000800, 1, 512⟩) 0 0x8000000000 true).1 = Kernel.failure ∧
      textScreen.FailsClean (some ⟨0x80000800, 1, 512⟩) 0 0x8000000000 true := by
  obtain ⟨level, sep⟩ := smallFb_booted.separated
  have hspace : textScreen.kernel.userCr3 1 = some 0x2000 := by decide
  have hroot : ∀ cr3, textScreen.kernel.userCr3 (textScreen.kernel.callerPid 0) = some cr3 →
      cr3 &&& addrMask ∈ smallFb.roots := by
    intro cr3 hcr3
    rw [← Option.some.inj (hspace.symm.trans hcr3)]
    decide
  have hfits : ∀ p, some ⟨0x80000800, 1, 512⟩ = some p →
      userFbVa.toNat + FbParams.bytes p ≤ Kernel.userMax := by
    intro p hp
    rw [← Option.some.inj hp]
    decide
  refine ⟨by decide +kernel, (fails_clean_iff sep hroot hfits _ _).mpr ?_⟩
  have hasks : textScreen.Asks (some ⟨0x80000800, 1, 512⟩) 0 1 0x2000 ⟨0x80000800, 1, 512⟩ :=
    ⟨rfl, rfl, hspace, rfl⟩
  rw [hasks.failsLate_iff]
  rintro (hback | ⟨i, -, hok, -⟩)
  · exact hback rfl
  · revert hok
    unfold Vmm.mapRange
    rw [divCeil_pages]
    exact nofun

/-- Without a place for the answer the call fails, as the owner of a framebuffer that is black and
mapped, with the key gone. -/
theorem failed_acquire_owns :
    (textScreen.fbAcquire (some smallScreen) 0 0 true).1 = Kernel.failure ∧
      (textScreen.fbAcquire (some smallScreen) 0 0 true).2.kernel.fbOwner = some 1 ∧
      (textScreen.fbAcquire (some smallScreen) 0 0 true).2.pixels 0 = 0 ∧
      (textScreen.fbAcquire (some smallScreen) 0 0 true).2.backBuffer ≠ none ∧
      (textScreen.fbAcquire (some smallScreen) 0 0 true).2.kernel.keyboard.head = 0 ∧
      (textScreen.fbAcquire (some smallScreen) 0 0 true).2.kernel.vm.translate 0x2000 userFbVa =
        some smallScreen.base := by
  decide +kernel

end Screen

end KazuOS
