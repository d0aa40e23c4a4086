import KazuOS.Kernel.System
import KazuOS.Lib.LockProgram

/-! The kernel's three locks and the code that nests them: key bytes are delivered under
the keyboard lock, the framebuffer changes hands through the keyboard and console locks,
and a process is torn down under the threads lock. -/
namespace KazuOS.Task.Tasks

def sigintCatches (ts : Tasks) (pid : Nat) : Bool :=
  ((ts.process pid).map (·.sigintCatch)).getD false

/-- The wait target of a process is that of its main thread. -/
def waitTarget (ts : Tasks) (p : Process) : Option WaitTarget :=
  p.mainTid.bind fun tid => (ts.threads.lookup tid).map (·.waitTarget)

def waitsOnPid (ts : Tasks) (p : Process) : Bool :=
  match ts.waitTarget p with
  | some (.pid _) => true
  | _ => false

/-- The leaf of the wait chain: a process that is waited for and waits for none. -/
def foregroundPid (ts : Tasks) : Option Nat :=
  (ts.processes.find? fun p =>
    p.pid ≠ 0 && p.state ≠ .empty && p.state ≠ .exited &&
      ts.processes.any (fun q => ts.waitTarget q = some (.pid p.pid)) && !ts.waitsOnPid p).map (·.pid)

end KazuOS.Task.Tasks

namespace KazuOS.Memory.Vmm

/-- The loop of `map_range` from a page on. -/
def mapPages (cr3 virt phys : BitVec 64) (flags : MapFlags) :
    Nat → BitVec 64 → Vmm → Except MapError Unit × Vmm
  | 0, _, vm => (.ok (), vm)
  | pages + 1, page, vm =>
      match vm.mapPage cr3 (virt + page * pageSize) (phys + page * pageSize) flags with
      | (.error e, vm) => (.error e, vm)
      | (.ok (), vm) => mapPages cr3 virt phys flags pages (page + 1) vm

def mapRange (vm : Vmm) (cr3 virt phys : BitVec 64) (size : Nat) (flags : MapFlags) :
    Except MapError Unit × Vmm :=
  mapPages cr3 virt phys flags (divCeil size 4096) 0 vm

end KazuOS.Memory.Vmm

namespace KazuOS.Kernel

/-- What teardown frees after the framebuffer. -/
def freeTables (k : Kernel) (cpu pid : Nat) : Kernel :=
  let k := k.onTasks (·.clearCurrentUser cpu pid)
  let k := k.closeAll pid
  let k := k.releaseIrqForPid pid
  let k := k.freeDmaForPid pid
  let k := k.freePciMmioForPid pid
  let k := k.freeHeapForPid pid
  let k := k.freeAddressSpace cpu pid
  k.freeImageForPid pid

theorem freeResources_eq (k : Kernel) (cpu pid : Nat) :
    k.freeResources cpu pid = (k.releaseFramebuffer pid).freeTables cpu pid := rfl

end KazuOS.Kernel

namespace KazuOS.Locking

open KazuOS.Memory KazuOS.Task KazuOS.Lib KazuOS.Lib.Prog

inductive Lock where
  | threads
  | keyboard
  | console
  deriving DecidableEq, Repr

/-- Only the threads lock can be entered again by its holder. -/
def Lock.reentrant : Lock → Bool
  | .threads => true
  | .keyboard | .console => false

/-- What code does between lock operations. The test of `release` for the framebuffer's
owner is told apart; it changes nothing. -/
inductive Effect where
  | update (f : Kernel → Kernel)
  | checkOwner (pid : Nat)

def Effect.apply : Effect → Kernel → Kernel
  | .update f, k => f k
  | .checkOwner _, k => k

abbrev Code := Prog Lock Effect Kernel

def look : Code Kernel := perform (.update id)

def modify (f : Kernel → Kernel) : Code Kernel := perform (.update f)

def withThreadsLock (body : Code α) : Code α := withLock .threads body

def onTasks (f : Tasks → Tasks) : Code Kernel := withThreadsLock (modify (·.onTasks f))

/-! Key bytes. -/

def sigintCatches (pid : Nat) : Code Bool :=
  withThreadsLock do
    let k ← look
    pure (k.tasks.sigintCatches pid)

def foregroundPid : Code (Option Nat) :=
  withThreadsLock do
    let k ← look
    pure k.tasks.foregroundPid

def sendSigint (pid : Nat) : Code Kernel := onTasks (·.sendSigint pid)

/-- The result tells whether a reader was woken. -/
def wakeWith (wake : Task.Memory → Threads → Bool × Threads) : Code Bool :=
  withThreadsLock do
    let k ← modify fun k => k.setThreads (wake k.tasks.mem k.tasks.threads).2
    pure (wake k.tasks.mem k.tasks.threads).1

def wakeupKeyWaiters (key : UInt8) : Code Bool :=
  wakeWith fun mem threads => threads.wakeupKeyWaiters mem key.toNat

def wakeupKeyWaiterForPid (pid : Nat) (key : UInt8) : Code Bool :=
  wakeWith fun mem threads => threads.wakeupKeyWaiterForPid mem pid key.toNat

/-- Whom Ctrl+C interrupts: a framebuffer owner that catches SIGINT, or the foreground
command when nobody owns the framebuffer. -/
def sigintTarget (ch : UInt8) : Code (Option Nat) :=
  if ch = 3 then do
    let k ← look
    match k.fbOwner with
    | some owner =>
        let catches ← sigintCatches owner
        pure (if catches then some owner else none)
    | none => foregroundPid
  else pure none

def wakeReader (ch : UInt8) : Code Bool := do
  let k ← look
  match k.fbOwner with
  | some owner => wakeupKeyWaiterForPid owner ch
  | none => wakeupKeyWaiters ch

def pushByte (ch : UInt8) : Code Unit := do
  let target ← sigintTarget ch
  match target with
  | some pid =>
      let _ ← sendSigint pid
      pure ()
  | none =>
      let woken ← wakeReader ch
      if woken then pure () else
        let _ ← modify (·.bufferByte ch)
        pure ()

def pushBytes : List UInt8 → Code Unit
  | [] => pure ()
  | ch :: rest => do
      pushByte ch
      pushBytes rest

/-- The scancodes waiting in the controller are given as the bytes they stand for. -/
def poll (bytes : List UInt8) : Code Unit := withLock .keyboard (pushBytes bytes)

def injectKeys (keys : List UInt8) : Code Unit := withLock .keyboard (pushBytes keys)

def flush : Code Kernel := withLock .keyboard (modify (·.flushKeyboard))

/-! The framebuffer. -/

structure FbParams where
  base : BitVec 64
  height : Nat
  stride : Nat

def FbParams.bytes (p : FbParams) : Nat := p.stride * p.height * 4

def userFbVa : BitVec 64 := 0x0000008200000000

/-- What the console was set up with is fixed at boot. -/
def fbParams (console : Option FbParams) : Code (Option FbParams) :=
  withLock .console (pure console)

/-- `out` is whether the caller's buffer is there to be written. -/
def writeInfo (console : Option FbParams) (out : Bool) : Code Nat :=
  if out then do
    let params ← fbParams console
    pure (if params.isSome then 0 else Kernel.failure)
  else pure Kernel.failure

def acquire (console : Option FbParams) (pid : Nat) (cr3 : BitVec 64) (out : Bool) : Code Nat := do
  let k ← look
  match k.fbOwner with
  | some owner => if owner = pid then writeInfo console out else pure Kernel.failure
  | none =>
      let params ← fbParams console
      match params with
      | none => pure Kernel.failure
      | some p =>
          let map := fun vm : Vmm => vm.mapRange cr3 userFbVa p.base p.bytes .userReadWrite
          let k ← modify fun k => { k with vm := (map k.vm).2 }
          match (map k.vm).1 with
          | .error _ => pure Kernel.failure
          | .ok () =>
              let _ ← modify fun k => { k with fbOwner := some pid }
              let _ ← flush
              writeInfo console out

def release (console : Option FbParams) (pid : Nat) : Code Unit := do
  let k ← perform (.checkOwner pid)
  if k.fbOwner = some pid then
    let _ ← modify fun k => { k with fbOwner := none }
    let _ ← flush
    let _ ← fbParams console
    pure ()
  else pure ()

def userContext (pid : Nat) : Code (Option UserContext) :=
  withThreadsLock do
    let k ← look
    pure (((k.tasks.mainTid pid).bind k.tasks.threads.lookup).map (·.userContext))

def sysFbAcquire (console : Option FbParams) (cpu : Nat) (out : Bool) : Code Nat := do
  let k ← look
  match k.tasks.currentUserPid cpu with
  | none => pure Kernel.failure
  | some pid =>
      let context ← userContext pid
      match context with
      | none => pure Kernel.failure
      | some context => acquire console pid (BitVec.ofNat 64 context.cr3) out

def sysFbRelease (console : Option FbParams) (cpu : Nat) : Code Unit := do
  let k ← look
  match k.tasks.currentUserPid cpu with
  | none => pure ()
  | some pid => release console pid

/-! The end of a process. -/

def liveThreadCount (pid : Nat) : Code Nat :=
  withThreadsLock do
    let k ← look
    pure (k.tasks.liveThreadCount pid)

def kernelStackBase (tid : Nat) : Code Nat :=
  withThreadsLock do
    let k ← look
    pure (k.tasks.kernelStackBase tid)

def exitSelf (cpu : Nat) : Code Bool :=
  withThreadsLock do
    let k ← look
    let pid := k.tasks.currentPid cpu
    if pid = 0 then pure false else
      let live ← liveThreadCount pid
      if 1 < live then
        let _ ← onTasks (·.setKillPending pid)
        let _ ← onTasks (·.exitCurrentThread cpu)
        pure true
      else pure false

/-- A process other than the kernel's goes, with all it holds. -/
def dismantle (console : Option FbParams) (cpu pid tid : Nat) : Code Unit :=
  if pid = 0 then do
    let _ ← modify (·.onTasks (·.updateProcess 0 fun p => { p with state := .running }))
    pure ()
  else do
    let stackBase ← kernelStackBase tid
    let _ ← onTasks (·.killChildren pid)
    release console pid
    let _ ← modify (·.freeTables cpu pid)
    let _ ← onTasks (·.removeProcess pid)
    let _ ← onTasks (Kernel.wakeupPidWaiters · pid)
    let _ ← modify (·.onTasks (·.deferFreeKernelStack cpu stackBase))
    pure ()

def leave (cpu tid : Nat) : Code Unit := do
  let _ ← modify (·.onTasks (·.clearCurrentPid cpu))
  if tid = 0 then pure () else
    let _ ← onTasks fun ts =>
      { ts with threads := (ts.threads.setState tid .exited).wakeupThreadWaiters ts.mem tid }
    pure ()

def teardown (console : Option FbParams) (cpu : Nat) : Code Unit :=
  withThreadsLock do
    let k ← look
    dismantle console cpu (k.tasks.currentPid cpu) (k.tasks.currentTid cpu)
    leave cpu (k.tasks.currentTid cpu)

def exitCurrent (console : Option FbParams) (cpu : Nat) : Code Unit := do
  let selfOnly ← exitSelf cpu
  if selfOnly then pure () else teardown console cpu

section Exec

variable (k : Kernel)

@[simp] theorem exec_look : look.exec Effect.apply k = (k, k) := rfl

@[simp] theorem exec_modify (f : Kernel → Kernel) :
    (modify f).exec Effect.apply k = (k, f k) := rfl

@[simp] theorem exec_withThreadsLock (body : Code α) :
    (withThreadsLock body).exec Effect.apply k = body.exec Effect.apply k :=
  exec_withLock ..

@[simp] theorem exec_onTasks (f : Tasks → Tasks) :
    (onTasks f).exec Effect.apply k = (k, k.onTasks f) := rfl

@[simp] theorem exec_release (console : Option FbParams) (pid : Nat) :
    (release console pid).exec Effect.apply k = ((), k.releaseFramebuffer pid) := by
  by_cases h : k.fbOwner = some pid
  · simp [release, Kernel.releaseFramebuffer, h, flush, fbParams, Effect.apply]
  · simp [release, Kernel.releaseFramebuffer, h, Effect.apply]

theorem exec_exitSelf (cpu : Nat) : (exitSelf cpu).exec Effect.apply k = k.exitSelf cpu := by
  by_cases hpid : k.tasks.currentPid cpu = 0
  · simp [exitSelf, Kernel.exitSelf, hpid]
  · by_cases hlive : 1 < k.tasks.liveThreadCount (k.tasks.currentPid cpu)
    · simp [exitSelf, Kernel.exitSelf, hpid, hlive, liveThreadCount, Kernel.onTasks]
    · simp [exitSelf, Kernel.exitSelf, hpid, hlive, liveThreadCount]

theorem exec_teardown (console : Option FbParams) (cpu : Nat) :
    (teardown console cpu).exec Effect.apply k = ((), k.teardown cpu) := by
  by_cases hpid : k.tasks.currentPid cpu = 0
  · by_cases htid : k.tasks.currentTid cpu = 0
    · simp [teardown, Kernel.teardown, leave, dismantle, hpid, htid]
    · simp [teardown, Kernel.teardown, leave, dismantle, hpid, htid]
  · by_cases htid : k.tasks.currentTid cpu = 0
    · simp [teardown, Kernel.teardown, leave, dismantle, kernelStackBase, hpid, htid,
        Kernel.freeResources_eq]
    · simp [teardown, Kernel.teardown, leave, dismantle, kernelStackBase, hpid, htid,
        Kernel.freeResources_eq]

/-- Run alone, the code of `exit_current` does what its two sections do one after the
other. -/
theorem exec_exitCurrent (console : Option FbParams) (cpu : Nat) :
    (exitCurrent console cpu).exec Effect.apply k = ((), k.exitCurrent cpu) := by
  unfold exitCurrent Kernel.exitCurrent
  rw [exec_bind, exec_exitSelf]
  rcases k.exitSelf cpu with ⟨_ | _, k'⟩
  · exact exec_teardown k' console cpu
  · rfl

end Exec

end KazuOS.Locking
