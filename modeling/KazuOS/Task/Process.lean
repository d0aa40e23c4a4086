import KazuOS.Task.Thread

/-! Processes, the per-CPU current thread, signals and thread exit. Every function
is one critical section of the threads lock. -/
namespace KazuOS.Task

inductive ProcessState where
  | empty
  | ready
  | running
  | sleeping
  | exited
  deriving DecidableEq, Repr

structure Process where
  pid : Nat
  state : ProcessState
  memoryBytes : Nat
  sigintCatch : Bool
  sigintPending : Bool
  sigtermCatch : Bool
  sigtermPending : Bool
  killPending : Bool
  parent : Nat
  privilege : PrivilegeLevel
  mainTid : Option Nat
  threads : List Nat
  deriving DecidableEq, Repr

/-- What the threads lock protects, the per-CPU current user, and the stacks handed
back to the kernel heap, newest first. -/
structure Tasks where
  threads : Threads
  processes : List Process
  nextTid : Nat
  nextPid : Nat
  nextAssignCpu : Nat
  cpuCount : Nat
  currentUserPid : Nat → Option Nat
  currentUserTid : Nat → Option Nat
  pendingStackFree : Nat → Nat
  freedStacks : List Nat
  mem : Memory

def kernelProcess : Process where
  pid := 0
  state := .running
  memoryBytes := 0
  sigintCatch := false
  sigintPending := false
  sigtermCatch := false
  sigtermPending := false
  killPending := false
  parent := 0
  privilege := .driver
  mainTid := none
  threads := []

/-- The tables after `init` on a machine with `cpuCount` CPUs. -/
def Tasks.init (cpuCount : Nat) (mem : Memory) : Tasks where
  threads := []
  processes := [kernelProcess]
  nextTid := 1
  nextPid := 1
  nextAssignCpu := 0
  cpuCount := cpuCount
  currentUserPid := fun _ => none
  currentUserTid := fun _ => none
  pendingStackFree := fun _ => 0
  freedStacks := []
  mem := mem

namespace Process

def setReady (p : Process) : Process :=
  match p.state with
  | .ready | .running | .sleeping => { p with state := .ready }
  | _ => p

def setRunning (p : Process) : Process :=
  match p.state with
  | .empty | .exited => p
  | _ => { p with state := .running }

def setSleeping (p : Process) : Process :=
  match p.state with
  | .empty | .exited => p
  | _ => { p with state := .sleeping }

/-- SIGTERM is left pending for a process that catches it and kills any other. -/
def terminate (p : Process) : Process :=
  if p.sigtermCatch then { p with sigtermPending := true } else { p with killPending := true }

end Process

namespace Process

theorem setReady_eq (p : Process) : ∃ state, p.setReady = { p with state } := by
  unfold setReady
  split
  · exact ⟨.ready, rfl⟩
  · exact ⟨.ready, rfl⟩
  · exact ⟨.ready, rfl⟩
  · exact ⟨p.state, rfl⟩

theorem setRunning_eq (p : Process) : ∃ state, p.setRunning = { p with state } := by
  unfold setRunning
  split
  · exact ⟨p.state, rfl⟩
  · exact ⟨p.state, rfl⟩
  · exact ⟨.running, rfl⟩

theorem setSleeping_eq (p : Process) : ∃ state, p.setSleeping = { p with state } := by
  unfold setSleeping
  split
  · exact ⟨p.state, rfl⟩
  · exact ⟨p.state, rfl⟩
  · exact ⟨.sleeping, rfl⟩

end Process

namespace Tasks

def process (ts : Tasks) (pid : Nat) : Option Process := ts.processes.find? (·.pid = pid)

def updateProcess (ts : Tasks) (pid : Nat) (f : Process → Process) : Tasks :=
  { ts with processes := Lib.modifyFirst (·.pid = pid) f ts.processes }

def mainTid (ts : Tasks) (pid : Nat) : Option Nat := (ts.process pid).bind (·.mainTid)

variable {f : Process → Process}

theorem process_updateProcess (hkey : ∀ p, (f p).pid = p.pid) (ts : Tasks) (pid q : Nat) :
    (ts.updateProcess pid f).process q =
      if q = pid then (ts.process q).map f else ts.process q :=
  Lib.find?_modifyFirst Process.pid hkey ts.processes pid q

theorem mainTid_updateProcess (hkey : ∀ p, (f p).pid = p.pid)
    (hmain : ∀ p, (f p).mainTid = p.mainTid) (ts : Tasks) (pid q : Nat) :
    (ts.updateProcess pid f).mainTid q = ts.mainTid q := by
  rw [mainTid, process_updateProcess hkey]
  split
  · cases h : ts.process q with
    | none => simp [mainTid, h]
    | some p => simp [mainTid, h, hmain]
  · rfl

/-- Apply a thread-table function to the main thread of a process. -/
def onMain (ts : Tasks) (pid : Nat) (f : Threads → Nat → Threads) : Tasks :=
  match ts.mainTid pid with
  | some tid => { ts with threads := f ts.threads tid }
  | none => ts

def currentPid (ts : Tasks) (cpu : Nat) : Nat := (ts.currentUserPid cpu).getD 0
def currentTid (ts : Tasks) (cpu : Nat) : Nat := (ts.currentUserTid cpu).getD 0

def threadPid (ts : Tasks) (tid : Nat) : Option Nat :=
  (ts.threads.find? fun t => t.tid = tid && t.state ≠ .empty).map (·.pid)

def setCurrentUserPid (ts : Tasks) (cpu : Nat) (pid : Option Nat) : Tasks :=
  { ts with
    currentUserPid := Function.update ts.currentUserPid cpu pid
    currentUserTid := Function.update ts.currentUserTid cpu (pid.bind ts.mainTid) }

def setCurrentUserTid (ts : Tasks) (cpu : Nat) (tid : Option Nat) : Tasks :=
  { ts with
    currentUserTid := Function.update ts.currentUserTid cpu tid
    currentUserPid := Function.update ts.currentUserPid cpu (tid.bind ts.threadPid) }

def clearCurrentPid (ts : Tasks) (cpu : Nat) : Tasks := ts.setCurrentUserPid cpu none

def clearCurrentUser (ts : Tasks) (cpu pid : Nat) : Tasks :=
  if ts.currentUserPid cpu = some pid then
    { ts with
      currentUserPid := Function.update ts.currentUserPid cpu none
      currentUserTid := Function.update ts.currentUserTid cpu none }
  else ts

def privilegeLevel (ts : Tasks) (pid : Nat) : PrivilegeLevel :=
  ((ts.process pid).map (·.privilege)).getD .user

def isKillPending (ts : Tasks) (pid : Nat) : Bool :=
  ((ts.process pid).map (·.killPending)).getD false

def setKillPending (ts : Tasks) (pid : Nat) : Tasks :=
  ts.updateProcess pid fun p => { p with killPending := true }

def setParent (ts : Tasks) (pid parent : Nat) : Tasks :=
  ts.updateProcess pid fun p => { p with parent }

def userCr3 (ts : Tasks) (pid : Nat) : Option Nat :=
  ((ts.mainTid pid).bind ts.threads.lookup).map (·.userContext.cr3)

def setReady (ts : Tasks) (pid : Nat) : Tasks :=
  (ts.updateProcess pid Process.setReady).onMain pid Threads.setReady

def setSleeping (ts : Tasks) (pid : Nat) : Tasks :=
  (ts.updateProcess pid Process.setSleeping).onMain pid Threads.setSleeping

def setWaitTarget (ts : Tasks) (pid : Nat) (target : WaitTarget) : Tasks :=
  ts.onMain pid fun threads tid => threads.setWaitTarget tid target

theorem mainTid_updateProcess_setSleeping (ts : Tasks) (pid : Nat) :
    (ts.updateProcess pid Process.setSleeping).mainTid pid = ts.mainTid pid := by
  apply mainTid_updateProcess
  · intro p
    obtain ⟨state, h⟩ := p.setSleeping_eq
    rw [h]
  · intro p
    obtain ⟨state, h⟩ := p.setSleeping_eq
    rw [h]

/-- Putting a process to sleep puts its main thread to sleep. -/
theorem setSleeping_threads (ts : Tasks) (pid : Nat) :
    (ts.setSleeping pid).threads =
      match ts.mainTid pid with
      | some tid => ts.threads.setSleeping tid
      | none => ts.threads := by
  unfold setSleeping onMain
  rw [mainTid_updateProcess_setSleeping]
  cases ts.mainTid pid with
  | none => rfl
  | some tid => rfl

theorem mainTid_setSleeping (ts : Tasks) (pid : Nat) :
    (ts.setSleeping pid).mainTid pid = ts.mainTid pid := by
  unfold setSleeping onMain
  split
  · exact ts.mainTid_updateProcess_setSleeping pid
  · exact ts.mainTid_updateProcess_setSleeping pid

def setRunning (ts : Tasks) (cpu pid : Nat) : Tasks :=
  let ts := ts.updateProcess pid Process.setRunning
  match ts.currentUserTid cpu with
  | some tid => { ts with threads := ts.threads.setRunning tid }
  | none => ts

/-- The state of the process `info` finds: one that is not empty. -/
def info (ts : Tasks) (pid : Nat) : Option ProcessState :=
  (ts.processes.find? fun p => p.pid = pid && p.state ≠ .empty).map (·.state)

/-! Creation. The kernel heap answers the request for a stack. -/

def setupKernelTaskStack (mem : Memory) (stackBase entry arg : Nat) : Memory :=
  let stackTop := stackBase + kernelStackSize
  writeWords mem (stackTop - 160)
    [0, 0, 0, 0, 0, 0, 0, 0, 0, 0, arg, 0, 0, 0, 0, entry, 0x8, 0x202, stackTop, 0x10]

/-- The record `create_kernel_thread` pushes. -/
def newThread (tid pid stackBase : Nat) (privilege : PrivilegeLevel) (assignedCpu : Nat) :
    Thread where
  tid := tid
  pid := pid
  state := .sleeping
  cpuTicks := 0
  userContext := emptyUserContext
  kernelRsp := stackBase + kernelStackSize - 160
  kernelStackBase := stackBase
  kernelPreempted := false
  blockingRsp := 0
  blockingRetval := 0
  waitTarget := .none
  privilege := privilege
  assignedCpu := assignedCpu

def createKernelThread (ts : Tasks) (stack : Option Nat) (pid entry arg : Nat)
    (privilege : PrivilegeLevel) : Nat × Tasks :=
  match stack with
  | none => (0, ts)
  | some stackBase =>
      let assignedCpu := ts.nextAssignCpu % max ts.cpuCount 1
      let thread := newThread ts.nextTid pid stackBase privilege assignedCpu
      (ts.nextTid,
        { ts with
          threads := ts.threads ++ [thread]
          nextTid := ts.nextTid + 1
          nextAssignCpu := ts.nextAssignCpu + 1
          mem := setupKernelTaskStack ts.mem stackBase entry arg })

def startContext (entry userStackTop cr3 argc argv : Nat) : UserContext :=
  { emptyUserContext with
    rip := entry, rsp := userStackTop, cr3, userStackTop, rdi := argc, rsi := argv }

def createUserThread (ts : Tasks) (stack : Option Nat) (pid entry userStackTop cr3 : Nat)
    (privilege : PrivilegeLevel) (argc argv : Nat) : Nat × Tasks :=
  match ts.createKernelThread stack pid entry 0 privilege with
  | (0, ts) => (0, ts)
  | (tid, ts) =>
      (tid, { ts with
        threads := ts.threads.setUserContext tid (startContext entry userStackTop cr3 argc argv) })

def createProcess (ts : Tasks) (privilege : PrivilegeLevel) (mainTid : Nat) : Nat × Tasks :=
  let process : Process :=
    { kernelProcess with
      pid := ts.nextPid, state := .sleeping, privilege, mainTid := some mainTid,
      threads := [mainTid] }
  (ts.nextPid, { ts with processes := ts.processes ++ [process], nextPid := ts.nextPid + 1 })

def spawnUserProcess (ts : Tasks) (stack : Option Nat)
    (entry userStackTop cr3 : Nat) (privilege : PrivilegeLevel) (argc argv : Nat) : Nat × Tasks :=
  match ts.createKernelThread stack 0 entry 0 privilege with
  | (0, ts) => (0, ts)
  | (tid, ts) =>
      match ts.createProcess privilege tid with
      | (0, ts) => (0, { ts with threads := ts.threads.removeThread tid })
      | (pid, ts) =>
          let threads := (ts.threads.setThreadPid tid pid).setUserContext tid
            (startContext entry userStackTop cr3 argc argv)
          (pid, { ts with threads })

def addThreadToProcess (ts : Tasks) (pid tid : Nat) : Tasks :=
  ts.updateProcess pid fun p => { p with threads := p.threads ++ [tid] }

def removeThreadFromProcess (ts : Tasks) (pid tid : Nat) : Tasks :=
  ts.updateProcess pid fun p => { p with threads := p.threads.filter (· ≠ tid) }

def spawnUserThread (ts : Tasks) (cpu : Nat) (stack : Option Nat) (entry arg stackTop : Nat) :
    Nat × Tasks :=
  let pid := ts.currentPid cpu
  if pid = 0 then (0, ts) else
    match (ts.threads.lookup (ts.currentTid cpu)).map (·.userContext.cr3) with
    | none => (0, ts)
    | some cr3 =>
        match ts.createUserThread stack pid entry stackTop cr3 (ts.privilegeLevel pid) arg 0 with
        | (0, ts) => (0, ts)
        | (tid, ts) =>
            let ts := ts.addThreadToProcess pid tid
            (tid, { ts with threads := ts.threads.setReady tid })

/-! Thread exit and blocking. -/

def deferFreeKernelStack (ts : Tasks) (cpu stackBase : Nat) : Tasks :=
  let prev := ts.pendingStackFree cpu
  { ts with
    pendingStackFree := Function.update ts.pendingStackFree cpu stackBase
    freedStacks := if prev = 0 then ts.freedStacks else prev :: ts.freedStacks }

def kernelStackBase (ts : Tasks) (tid : Nat) : Nat :=
  ((ts.threads.lookup tid).map (·.kernelStackBase)).getD 0

def exitCurrentThread (ts : Tasks) (cpu : Nat) : Tasks :=
  let pid := ts.currentPid cpu
  let tid := ts.currentTid cpu
  let ts := ts.removeThreadFromProcess pid tid
  let ts := ts.clearCurrentUser cpu pid
  let ts := ts.clearCurrentPid cpu
  if tid ≠ 0 then
    let threads := (ts.threads.setState tid .exited).wakeupThreadWaiters ts.mem tid
    let ts := { ts with threads }
    let stackBase := ts.kernelStackBase tid
    { ts with threads := ts.threads.removeThread tid }.deferFreeKernelStack cpu stackBase
  else ts

/-- Put one thread to sleep on a target. -/
def block (ts : Tasks) (tid : Nat) (target : WaitTarget) : Tasks :=
  { ts with threads := (ts.threads.setWaitTarget tid target).setSleeping tid }

/-- Blocking a process blocks its main thread. -/
theorem setSleeping_setWaitTarget_threads (ts : Tasks) (pid : Nat) (target : WaitTarget) :
    ((ts.setWaitTarget pid target).setSleeping pid).threads =
      match ts.mainTid pid with
      | some tid => (ts.block tid target).threads
      | none => ts.threads := by
  rw [setSleeping_threads]
  have hmain : (ts.setWaitTarget pid target).mainTid pid = ts.mainTid pid := by
    unfold setWaitTarget onMain
    split
    · rfl
    · rfl
  rw [hmain]
  cases h : ts.mainTid pid with
  | none => simp only [setWaitTarget, onMain, h]
  | some tid => simp only [setWaitTarget, onMain, h, block]

def blockCurrent (ts : Tasks) (cpu : Nat) (target : WaitTarget) : Tasks :=
  match ts.currentUserTid cpu with
  | some tid => ts.block tid target
  | none => ts

def joinCurrent (ts : Tasks) (cpu tid : Nat) : Bool × Tasks :=
  if ts.threads.live tid then (true, ts.blockCurrent cpu (.tid tid)) else (false, ts)

def liveThreadCount (ts : Tasks) (pid : Nat) : Nat :=
  match ts.process pid with
  | some p => p.threads.countP ts.threads.live
  | none => 0

def removeProcess (ts : Tasks) (pid : Nat) : Tasks :=
  match ts.processes.findIdx? (·.pid = pid), ts.process pid with
  | some pos, some p =>
      { ts with
        processes := Lib.swapRemove ts.processes pos
        threads := p.threads.foldl Threads.removeThread ts.threads }
  | _, _ => ts

/-! Signals and kills. -/

def killPid (ts : Tasks) (pid : Nat) : Tasks :=
  if pid = 0 then ts else
    match ts.process pid with
    | none => ts
    | some p =>
        if p.privilege.isDriver then ts
        else (ts.setKillPending pid).onMain pid Threads.setReady

def killChildren (ts : Tasks) (pid : Nat) : Tasks :=
  ((ts.processes.filter (·.parent = pid)).map (·.pid)).foldl killPid ts

/-- Return a thread parked in a blocking syscall to its caller. -/
def interruptSleep (ts : Tasks) (tid : Nat) : Tasks :=
  if ts.threads.state tid = some .sleeping then
    let threads := ts.threads.applyBlockingReturnIfPending ts.mem tid
    { ts with threads := (threads.setReady tid).setWaitTarget tid .none }
  else ts

/-- Mark SIGINT pending and interrupt the main thread's sleep. -/
def raiseSigint (ts : Tasks) (p : Process) : Tasks :=
  let ts := ts.updateProcess p.pid fun p => { p with sigintPending := true }
  match p.mainTid with
  | some tid => ts.interruptSleep tid
  | none => ts

def sendSigint (ts : Tasks) (pid : Nat) : Tasks :=
  match ts.process pid with
  | none => ts
  | some p =>
      if p.privilege.isDriver then ts
      else if p.sigintCatch then ts.raiseSigint p
      else ts.killPid pid

def sendDriverExit (ts : Tasks) (pid : Nat) : Tasks :=
  match ts.process pid with
  | none => ts
  | some p => ts.raiseSigint p

def sendSigterm (ts : Tasks) (pid : Nat) : Tasks :=
  (ts.updateProcess pid Process.terminate).onMain pid Threads.setReady

/-- One loop of the shutdown functions: mark every process but the kernel's and
make its main thread ready. -/
def shutdownAll (mark : Process → Process) (ts : Tasks) : Tasks :=
  let user := ts.processes.filter (·.pid ≠ 0)
  { ts with
    processes := ts.processes.map fun p => if p.pid = 0 then p else mark p
    threads := (user.filterMap (·.mainTid)).foldl Threads.setReady ts.threads }

def shutdownSigtermAll (ts : Tasks) : Tasks := shutdownAll Process.terminate ts

def shutdownSigkillAll (ts : Tasks) : Tasks :=
  shutdownAll (fun p => { p with killPending := true }) ts

def signalSetCatch (ts : Tasks) (pid : Nat) (sigint sigterm : Bool) : Tasks :=
  ts.updateProcess pid fun p => { p with sigintCatch := sigint, sigtermCatch := sigterm }

def wakeupIpcWaiter (ts : Tasks) (pid retval : Nat) : Tasks :=
  ts.onMain pid fun threads tid => threads.wakeupIpcWaiter ts.mem tid retval

end Tasks

end KazuOS.Task
