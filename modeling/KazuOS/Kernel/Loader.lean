import KazuOS.Kernel.ArgStack
import KazuOS.Kernel.Kxe
import KazuOS.Kernel.Locks
import KazuOS.Kernel.ShmRanges
import KazuOS.Memory.FrameRuns
import KazuOS.Memory.PhysicalBytes

/-! The loader. It builds an address space for a program, takes frames for the code and for the
stack, maps both and writes the arguments. Only the caller gives frames back, and it does so
only when the space was built and no process could be made of it. -/
namespace KazuOS

open KazuOS.Lib KazuOS.Memory KazuOS.Task

namespace Kernel

/-- Zeroed frames for so many bytes. -/
def allocPageRange (k : Kernel) (size : Nat) : Option (Nat × Nat) × Kernel :=
  let pages := max (divCeil size 4096) 1
  match k.pmm.allocFrames pages with
  | (none, pmm) => (none, { k with pmm })
  | (some phys, pmm) =>
      (some (phys, pages), { k with
        pmm
        vm := k.vm.store ⟨BitVec.ofNat 64 phys, List.replicate (pages * 4096) 0⟩ })

structure ProcessSpace where
  cr3 : BitVec 64
  initialRsp : BitVec 64
  argc : BitVec 64
  argv : BitVec 64
  frames : List (Nat × Nat)

def codePages (code : List UInt8) : Nat := max (divCeil code.length 4096) 1

/-- The code is mapped from the page of the entry point on. -/
def codeBase (entry : BitVec 64) : BitVec 64 := entry &&& ~~~0xfff

def createProcessSpace (k : Kernel) (entry : BitVec 64) (code : List UInt8)
    (args : List (List UInt8)) : Option ProcessSpace × Kernel :=
  match k.vm.createAddressSpace with
  | (.error _, vm) => (none, { k with vm })
  | (.ok cr3, vm) =>
      match allocPageRange { k with vm } (codePages code * 4096) with
      | (none, k) => (none, k)
      | (some (codePhys, codeFrameCount), k) =>
          let vm := k.vm.store ⟨BitVec.ofNat 64 codePhys, code⟩
          match vm.mapRange cr3 (codeBase entry) (BitVec.ofNat 64 codePhys) (codePages code * 4096)
              .userReadWrite with
          | (.error _, vm) => (none, { k with vm })
          | (.ok (), vm) =>
              match allocPageRange { k with vm } userStackSize with
              | (none, k) => (none, k)
              | (some (stackPhys, stackFrameCount), k) =>
                  match k.vm.mapRange cr3 userStackBase (BitVec.ofNat 64 stackPhys) userStackSize
                      MapFlags.userReadWrite.noExecute with
                  | (.error _, vm) => (none, { k with vm })
                  | (.ok (), vm) =>
                      let pushed := pushArgsOntoStack (BitVec.ofNat 64 stackPhys) userStackBase args
                      (some {
                          cr3
                          initialRsp := pushed.rsp
                          argc := pushed.argc
                          argv := pushed.argv
                          frames := [(codePhys, codeFrameCount), (stackPhys, stackFrameCount)] },
                        { k with vm := vm.stores pushed.stores })

def ProcessSpace.loaded (space : ProcessSpace) (k : Kernel) (image : KxeImage)
    (stack : Option Nat) : Loaded where
  vm := k.vm
  pmm := k.pmm
  frames := space.frames
  codeSize := image.code.length
  stack
  entry := image.entry.toNat
  userStackTop := space.initialRsp.toNat
  cr3 := space.cr3.toNat
  argc := space.argc.toNat
  argv := space.argv.toNat

/-- The whole of `spawn_kxe`. The kernel stack of the new thread comes from the heap. -/
def spawnKxeImage (k : Kernel) (privilege : PrivilegeLevel) (stack : Option Nat)
    (image : KxeImage) (args : List (List UInt8)) : Nat × Kernel :=
  match k.createProcessSpace image.entry image.code args with
  | (none, k) => (0, k)
  | (some space, k) => k.spawnKxe privilege (some (space.loaded k image stack))

/-- A file that is there, is a program and is one of those asked for. -/
def spawnFile (k : Kernel) (accepts : KxeImage → Bool) (privilege : PrivilegeLevel)
    (stack : Option Nat) (file : Option (List UInt8)) (args : List (List UInt8)) : Nat × Kernel :=
  match file.bind parseKxe with
  | none => (0, k)
  | some image =>
      if accepts image then k.spawnKxeImage privilege stack image args else (0, k)

/-- Nothing is left to set up, so the process may run. -/
def readied (result : Nat × Kernel) : Nat × Kernel :=
  if result.1 = 0 then result else (result.1, result.2.onTasks (·.setReady result.1))

def spawnUserWithArgs (k : Kernel) (stack : Option Nat) (file : Option (List UInt8))
    (args : List (List UInt8)) : Nat × Kernel :=
  k.spawnFile (fun _ => true) .user stack file args

def spawnDriver (k : Kernel) (stack : Option Nat) (file : Option (List UInt8)) : Nat × Kernel :=
  readied (k.spawnFile (fun image => image.flags &&& kxeFlagDriver ≠ 0) .driver stack file [])

def spawnProcess (k : Kernel) (privilege : PrivilegeLevel) (stack : Option Nat)
    (file : Option (List UInt8)) (args : List (List UInt8)) : Nat × Kernel :=
  readied (k.spawnFile (fun _ => true) privilege stack file args)

/-! How far the loader gets. -/

/-- Zeroed frames with the code in them. -/
def codeMemory (vm : Vmm) (phys : Nat) (code : List UInt8) : Vmm :=
  (vm.store ⟨BitVec.ofNat 64 phys, List.replicate (codePages code * 4096) 0⟩).store
    ⟨BitVec.ofNat 64 phys, code⟩

def stackPages : Nat := 16

def stackMemory (vm : Vmm) (phys : Nat) : Vmm :=
  vm.store ⟨BitVec.ofNat 64 phys, List.replicate (stackPages * 4096) 0⟩

def mapCode (vm : Vmm) (cr3 entry : BitVec 64) (phys : Nat) (code : List UInt8) :
    Except MapError Unit × Vmm :=
  (codeMemory vm phys code).mapRange cr3 (codeBase entry) (BitVec.ofNat 64 phys)
    (codePages code * 4096) .userReadWrite

def mapStack (vm : Vmm) (cr3 : BitVec 64) (phys : Nat) : Except MapError Unit × Vmm :=
  (stackMemory vm phys).mapRange cr3 userStackBase (BitVec.ofNat 64 phys) userStackSize
    MapFlags.userReadWrite.noExecute

/-- The outcomes of `create_process_space`, one for each place where it returns. -/
inductive Builds (k : Kernel) (entry : BitVec 64) (code : List UInt8) (args : List (List UInt8)) :
    Option ProcessSpace × Kernel → Prop where
  | noSpace {e : MapError} {vm : Vmm} (create : k.vm.createAddressSpace = (.error e, vm)) :
      Builds k entry code args (none, { k with vm })
  | noCode {cr3 : BitVec 64} {vm : Vmm} {pmm : Pmm}
      (create : k.vm.createAddressSpace = (.ok cr3, vm))
      (frames : k.pmm.allocFrames (codePages code) = (none, pmm)) :
      Builds k entry code args (none, { k with vm, pmm })
  | unmapped {cr3 : BitVec 64} {vm vm' : Vmm} {codePhys : Nat} {pmm : Pmm} {e : MapError}
      (create : k.vm.createAddressSpace = (.ok cr3, vm))
      (frames : k.pmm.allocFrames (codePages code) = (some codePhys, pmm))
      (map : mapCode vm cr3 entry codePhys code = (.error e, vm')) :
      Builds k entry code args (none, { k with vm := vm', pmm })
  | noStack {cr3 : BitVec 64} {vm vm' : Vmm} {codePhys : Nat} {pmm pmm' : Pmm}
      (create : k.vm.createAddressSpace = (.ok cr3, vm))
      (frames : k.pmm.allocFrames (codePages code) = (some codePhys, pmm))
      (map : mapCode vm cr3 entry codePhys code = (.ok (), vm'))
      (stack : pmm.allocFrames stackPages = (none, pmm')) :
      Builds k entry code args (none, { k with vm := vm', pmm := pmm' })
  | stackUnmapped {cr3 : BitVec 64} {vm vm' vm'' : Vmm} {codePhys stackPhys : Nat} {pmm pmm' : Pmm}
      {e : MapError} (create : k.vm.createAddressSpace = (.ok cr3, vm))
      (frames : k.pmm.allocFrames (codePages code) = (some codePhys, pmm))
      (map : mapCode vm cr3 entry codePhys code = (.ok (), vm'))
      (stack : pmm.allocFrames stackPages = (some stackPhys, pmm'))
      (stackMap : mapStack vm' cr3 stackPhys = (.error e, vm'')) :
      Builds k entry code args (none, { k with vm := vm'', pmm := pmm' })
  | built {cr3 : BitVec 64} {vm vm' vm'' : Vmm} {codePhys stackPhys : Nat} {pmm pmm' : Pmm}
      (create : k.vm.createAddressSpace = (.ok cr3, vm))
      (frames : k.pmm.allocFrames (codePages code) = (some codePhys, pmm))
      (map : mapCode vm cr3 entry codePhys code = (.ok (), vm'))
      (stack : pmm.allocFrames stackPages = (some stackPhys, pmm'))
      (stackMap : mapStack vm' cr3 stackPhys = (.ok (), vm'')) {pushed : ArgStack}
      (push : pushed = pushArgsOntoStack (BitVec.ofNat 64 stackPhys) userStackBase args) :
      Builds k entry code args
        (some ⟨cr3, pushed.rsp, pushed.argc, pushed.argv,
            [(codePhys, codePages code), (stackPhys, stackPages)]⟩,
          { k with vm := vm''.stores pushed.stores, pmm := pmm' })

theorem allocPageRange_eq (k : Kernel) {pages : Nat} (h : 1 ≤ pages) :
    k.allocPageRange (pages * 4096) =
      match k.pmm.allocFrames pages with
      | (none, pmm) => (none, { k with pmm })
      | (some phys, pmm) =>
          (some (phys, pages), { k with
            pmm
            vm := k.vm.store ⟨BitVec.ofNat 64 phys, List.replicate (pages * 4096) 0⟩ }) := by
  unfold allocPageRange
  rw [divCeil_pages, Nat.max_eq_left h]

theorem one_le_codePages (code : List UInt8) : 1 ≤ codePages code := Nat.le_max_right _ _

theorem createProcessSpace_builds (k : Kernel) (entry : BitVec 64) (code : List UInt8)
    (args : List (List UInt8)) :
    Builds k entry code args (k.createProcessSpace entry code args) := by
  have hstack : userStackSize = stackPages * 4096 := rfl
  unfold createProcessSpace
  rcases hcreate : k.vm.createAddressSpace with ⟨_ | cr3, vm⟩
  · exact .noSpace hcreate
  dsimp only
  rw [allocPageRange_eq _ (one_le_codePages code)]
  dsimp only
  rcases hframes : k.pmm.allocFrames (codePages code) with ⟨_ | codePhys, pmm⟩
  · exact .noCode hcreate hframes
  dsimp only
  rcases hmap : mapCode vm cr3 entry codePhys code with ⟨_ | _, vm'⟩
  · unfold mapCode codeMemory at hmap
    rw [hmap]
    exact .unmapped hcreate hframes hmap
  have hmapped := hmap
  unfold mapCode codeMemory at hmapped
  rw [hmapped]
  dsimp only
  rw [hstack, allocPageRange_eq _ (by decide)]
  dsimp only
  rcases hstackFrames : pmm.allocFrames stackPages with ⟨_ | stackPhys, pmm'⟩
  · exact .noStack hcreate hframes hmap hstackFrames
  dsimp only
  rcases hstackMap : mapStack vm' cr3 stackPhys with ⟨_ | _, vm''⟩
  · unfold mapStack stackMemory at hstackMap
    rw [hstack] at hstackMap
    rw [hstackMap]
    exact .stackUnmapped hcreate hframes hmap hstackFrames hstackMap
  have hstackMapped := hstackMap
  unfold mapStack stackMemory at hstackMapped
  rw [hstack] at hstackMapped
  rw [hstackMapped]
  exact .built hcreate hframes hmap hstackFrames hstackMap rfl

/-! What a failed spawn leaves behind. -/

open FrameOwnership

/-- The code has its frames and the space is not completed. -/
def failsHalfway (k : Kernel) (entry : BitVec 64) (code : List UInt8) : Bool :=
  match k.vm.createAddressSpace, k.pmm.allocFrames (codePages code) with
  | (.ok cr3, vm), (some codePhys, pmm) =>
      match mapCode vm cr3 entry codePhys code with
      | (.error _, _) => true
      | (.ok (), vm) =>
          match pmm.allocFrames stackPages with
          | (none, _) => true
          | (some stackPhys, _) =>
              match mapStack vm cr3 stackPhys with
              | (.error _, _) => true
              | (.ok (), _) => false
  | _, _ => false

def giveBack (pmm : Pmm) (frames : List (Nat × Nat)) : Pmm :=
  frames.foldl (fun pmm (phys, pages) => pmm.freeFrames phys pages) pmm

def SameFree (pmm pmm' : Pmm) : Prop := ∀ frame, FreeFrame pmm' frame ↔ FreeFrame pmm frame

/-- Frames that are taken and not given back are missing. -/
theorem not_sameFree_of_takes {a b c : Pmm} {start count : Nat} (h : TakesRun start count a b)
    (hcount : 0 < count) (hsub : ∀ frame, FreeFrame c frame → FreeFrame b frame) :
    ¬SameFree a c := by
  intro hsame
  obtain ⟨hfree, hnot⟩ := h.not_free hcount
  exact hnot (hsub start ((hsame start).mpr hfree))

variable {k : Kernel}

theorem failsHalfway_eq {entry : BitVec 64} {code : List UInt8} {cr3 : BitVec 64}
    {vm : Vmm} {codePhys : Nat} {pmm : Pmm} (create : k.vm.createAddressSpace = (.ok cr3, vm))
    (frames : k.pmm.allocFrames (codePages code) = (some codePhys, pmm)) :
    k.failsHalfway entry code =
      match mapCode vm cr3 entry codePhys code with
      | (.error _, _) => true
      | (.ok (), vm) =>
          match pmm.allocFrames stackPages with
          | (none, _) => true
          | (some stackPhys, _) =>
              match mapStack vm cr3 stackPhys with
              | (.error _, _) => true
              | (.ok (), _) => false := by
  rw [failsHalfway, create, frames]

theorem createProcessSpace_frames (hsized : k.pmm.Sized) (entry : BitVec 64)
    (code : List UInt8) (args : List (List UInt8)) :
    match k.createProcessSpace entry code args with
    | (none, k') => SameFree k.pmm k'.pmm ↔ k.failsHalfway entry code = false
    | (some space, k') =>
        k.failsHalfway entry code = false ∧ SameFree k.pmm (giveBack k'.pmm space.frames) := by
  have hcount : 0 < codePages code := one_le_codePages code
  have hbuilds := createProcessSpace_builds k entry code args
  generalize k.createProcessSpace entry code args = result at hbuilds
  cases hbuilds with
  | noSpace create =>
    rw [failsHalfway, create]
    exact iff_of_true (fun _ => Iff.rfl) rfl
  | noCode create frames =>
    rw [failsHalfway, create, frames]
    exact iff_of_true (allocFrames_missed frames) rfl
  | unmapped create frames map =>
    obtain ⟨start, -, htakes⟩ := allocFrames_takes hsized frames
    rw [failsHalfway_eq create frames, map]
    exact iff_of_false (not_sameFree_of_takes htakes hcount fun _ h => h) (by simp)
  | noStack create frames map stack =>
    obtain ⟨start, -, htakes⟩ := allocFrames_takes hsized frames
    rw [failsHalfway_eq create frames, map]
    dsimp only
    rw [stack]
    exact iff_of_false
      (not_sameFree_of_takes htakes hcount fun f h => (allocFrames_missed stack f).mp h) (by simp)
  | stackUnmapped create frames map stack stackMap =>
    obtain ⟨start, -, htakes⟩ := allocFrames_takes hsized frames
    obtain ⟨start', -, htakes'⟩ := allocFrames_takes (htakes.sized hsized) stack
    rw [failsHalfway_eq create frames, map]
    dsimp only
    rw [stack]
    dsimp only
    rw [stackMap]
    exact iff_of_false (not_sameFree_of_takes htakes hcount fun f h => htakes'.free_sub h) (by simp)
  | built create frames map stack stackMap push =>
    obtain ⟨start, rfl, htakes⟩ := allocFrames_takes hsized frames
    obtain ⟨start', rfl, htakes'⟩ := allocFrames_takes (htakes.sized hsized) stack
    rw [failsHalfway_eq create frames, map]
    dsimp only
    rw [stack]
    dsimp only
    rw [stackMap]
    refine ⟨rfl, fun frame => ?_⟩
    rw [giveBack, List.foldl_cons, List.foldl_cons, List.foldl_nil]
    exact free_of_frees htakes htakes' (htakes'.sized (htakes.sized hsized)) frame

/-- The calls that load a program. -/
inductive Spawn where
  | user (args : List (List UInt8))
  | driver
  | process (privilege : PrivilegeLevel) (args : List (List UInt8))

def Spawn.run (call : Spawn) (k : Kernel) (stack : Option Nat) (file : Option (List UInt8)) :
    Nat × Kernel :=
  match call with
  | .user args => k.spawnUserWithArgs stack file args
  | .driver => k.spawnDriver stack file
  | .process privilege args => k.spawnProcess privilege stack file args

def Spawn.accepts : Spawn → KxeImage → Bool
  | .driver, image => image.flags &&& kxeFlagDriver ≠ 0
  | _, _ => true

theorem readied_of_fail {result : Nat × Kernel} (h : (readied result).1 = 0) :
    readied result = result := by
  unfold readied at h ⊢
  split at h
  · rw [if_pos ‹_›]
  · contradiction

/-- A call that fails has done what loading the file does. -/
theorem Spawn.run_of_fail (call : Spawn) {stack : Option Nat}
    {file : Option (List UInt8)} (hfail : (call.run k stack file).1 = 0) :
    ∃ privilege args, call.run k stack file =
      k.spawnFile call.accepts privilege stack file args := by
  cases call with
  | user args => exact ⟨.user, args, rfl⟩
  | driver => exact ⟨.driver, [], readied_of_fail hfail⟩
  | process privilege args => exact ⟨privilege, args, readied_of_fail hfail⟩

theorem spawnKxe_of_fail {privilege : PrivilegeLevel} {l : Loaded}
    (h : (k.spawnKxe privilege (some l)).1 = 0) :
    (k.spawnKxe privilege (some l)).2.pmm = giveBack l.pmm l.frames := by
  unfold spawnKxe at h ⊢
  dsimp only at h ⊢
  split at h
  · rw [if_pos ‹_›]
    rfl
  · contradiction

/-- A spawn that fails leaves the free frames as they were, unless the loader gave up with
frames in its hands. -/
theorem failed_spawn_keeps_frames_iff (call : Spawn) {k : Kernel} (hsized : k.pmm.Sized)
    {stack : Option Nat} {file : Option (List UInt8)} (hfail : (call.run k stack file).1 = 0) :
    SameFree k.pmm (call.run k stack file).2.pmm ↔
      ∀ image, file.bind parseKxe = some image → call.accepts image →
        k.failsHalfway image.entry image.code = false := by
  obtain ⟨privilege, args, hrun⟩ := call.run_of_fail hfail
  rw [hrun] at hfail ⊢
  unfold spawnFile at hfail ⊢
  cases himage : file.bind parseKxe with
  | none => exact iff_of_true (fun _ => Iff.rfl) (fun _ h => nomatch h)
  | some image =>
    rw [himage] at hfail
    dsimp only at hfail ⊢
    cases haccepts : call.accepts image with
    | false =>
      refine iff_of_true (fun _ => Iff.rfl) ?_
      rintro image' himage' haccepts'
      obtain rfl := Option.some.inj himage'
      rw [haccepts] at haccepts'
      cases haccepts'
    | true =>
      have hcondition : (∀ image', some image = some image' → call.accepts image' →
          k.failsHalfway image'.entry image'.code = false) ↔
          k.failsHalfway image.entry image.code = false := by
        constructor
        · exact fun h => h image rfl haccepts
        · rintro h image' himage' -
          exact Option.some.inj himage' ▸ h
      rw [hcondition]
      rw [haccepts, if_pos rfl] at hfail
      rw [if_pos rfl]
      have hframes := createProcessSpace_frames hsized image.entry image.code args
      unfold spawnKxeImage at hfail ⊢
      rcases hspace : k.createProcessSpace image.entry image.code args with ⟨_ | space, k'⟩
      · rw [hspace] at hframes
        exact hframes
      · rw [hspace] at hframes hfail
        rw [spawnKxe_of_fail hfail]
        exact iff_of_true hframes.2 hframes.1

/-- A kernel whose root has one entry, with these page tables to hand out. The frames from 64
on are free. -/
def loaderKernel (tables : List (Option (BitVec 64))) : Kernel :=
  { twoThreads with
    vm := ⟨fun t i => if t = 0x1000 ∧ i = 0 then 0x3F003 else 0, 0x1000, tables⟩
    pmm := ⟨List.replicate 8 0xFF ++ List.replicate 8 0, 128, 64, 0⟩ }

/-- A program of one instruction. -/
def retImage : List UInt8 := buildKxe [0xC3] 0 0

theorem failed_spawn_keeps_frames_iff_noTables :
    ((Spawn.user []).run (loaderKernel []) none (some retImage)).1 = 0 ∧
      SameFree (loaderKernel []).pmm
        ((Spawn.user []).run (loaderKernel []) none (some retImage)).2.pmm := by
  have hfail : ((Spawn.user []).run (loaderKernel []) none (some retImage)).1 = 0 := by
    decide +kernel
  have hsized : (loaderKernel []).pmm.Sized := by
    unfold Pmm.Sized
    decide
  exact ⟨hfail, (failed_spawn_keeps_frames_iff (.user []) hsized hfail).mpr fun _ _ _ => rfl⟩

/-- With a page table for the root alone the code cannot be mapped, and its frame is lost. -/
theorem failed_map_keeps_frame :
    ((Spawn.user []).run (loaderKernel [some 0x2000]) none (some retImage)).1 = 0 ∧
      FreeFrame (loaderKernel [some 0x2000]).pmm 64 ∧
      ¬FreeFrame ((Spawn.user []).run (loaderKernel [some 0x2000]) none (some retImage)).2.pmm 64 := by
  unfold FreeFrame
  decide +kernel

end Kernel

end KazuOS
