import KazuOS.Kernel.Blocking
import KazuOS.Kernel.Exit
import KazuOS.Lib.Run

/-! All CPUs together. A step is one critical section of the threads lock, run by a
CPU for the thread it executes, by its timer interrupt, or on behalf of any other
interrupt or syscall. -/
namespace KazuOS.Kernel

open KazuOS.Memory KazuOS.Task

/-- Sections that do not depend on where a thread's code stands: wakes, signals, and
the creation of processes. -/
inductive Async where
  | key (byte : Nat)
  | keyFor (pid byte : Nat)
  | irq (number : Nat)
  | audio
  | notifyPipe (pipeId : Nat)
  | closeFd (pid fd : Nat)
  | send (channelId : Nat) (data : List UInt8)
  | sendReliable (channelId : Nat) (data : List UInt8)
  | recvNonblock (channelId bufLen : Nat)
  | abortSenders (channelId : Nat)
  | kill (pid : Nat)
  | sigint (pid : Nat)
  | sigterm (pid : Nat)
  | driverExit (pid : Nat)
  | sigtermAll
  | sigkillAll
  | signalCatch (pid : Nat) (catchInt catchTerm : Bool)
  | spawnProcess (stack : Option Nat) (entry userStackTop cr3 : Nat) (privilege : PrivilegeLevel)
      (argc argv : Nat)
  | setParent (pid parent : Nat)
  | launch (pid : Nat)

def Async.apply (k : Kernel) : Async → Kernel
  | .key byte => k.setThreads (k.tasks.threads.wakeupKeyWaiters k.tasks.mem byte).2
  | .keyFor pid byte =>
      k.setThreads (k.tasks.threads.wakeupKeyWaiterForPid k.tasks.mem pid byte).2
  | .irq number => k.setThreads (k.tasks.threads.wakeupIrqWaiter k.tasks.mem number).2
  | .audio => k.setThreads (k.tasks.threads.wakeupAudioWaiters k.tasks.mem)
  | .notifyPipe pipeId => k.notifyPipeReaders pipeId
  | .closeFd pid fd => (k.freeFd pid fd).2
  | .send channelId data => (k.trySend channelId data).2
  | .sendReliable channelId data => (k.trySendReliable channelId data).2
  | .recvNonblock channelId bufLen => (k.tryRecvNonblock channelId bufLen).2
  | .abortSenders channelId => k.abortSenders channelId
  | .kill pid => k.onTasks (·.killPid pid)
  | .sigint pid => k.onTasks (·.sendSigint pid)
  | .sigterm pid => k.onTasks (·.sendSigterm pid)
  | .driverExit pid => k.onTasks (·.sendDriverExit pid)
  | .sigtermAll => k.onTasks (·.shutdownSigtermAll)
  | .sigkillAll => k.onTasks (·.shutdownSigkillAll)
  | .signalCatch pid catchInt catchTerm => k.onTasks (·.signalSetCatch pid catchInt catchTerm)
  | .spawnProcess stack entry userStackTop cr3 privilege argc argv =>
      k.onTasks fun ts => (ts.spawnUserProcess stack entry userStackTop cr3 privilege argc argv).2
  | .setParent pid parent => k.onTasks (·.setParent pid parent)
  | .launch pid => k.onTasks (·.setReady pid)

/-- One critical section, as a CPU runs it. -/
inductive Action where
  | nothing
  | async (a : Async)
  | serve (call : Call)
  | waitBlock (pid : Nat)
  | consoleTarget
  | consoleSleep
  | spawnThread (stack : Option Nat) (entry arg stackTop : Nat)
  | exitThread
  | exitSelf
  | teardown
  | commit (rsp : Nat)
  | leave
  | enter
  | timers (now : Nat)
  | ticks
  | preempt (currentTid savedRsp : Nat) (ring3 : Bool)
  | switch (currentTid : Nat) (ring3 hasReturnStack : Bool)
  | other (k : Kernel)

/-- The last case stands for everything that touches neither threads nor processes:
stack words and all other tables may change. -/
def Action.apply (k : Kernel) (cpu : Nat) : Action → Kernel
  | .nothing => k
  | .async a => a.apply k
  | .serve call => (k.syscall cpu call).2
  | .waitBlock pid => k.blockCurrent cpu (.pid pid)
  | .consoleTarget => k.onTasks (·.setWaitTarget (k.callerPid cpu) .keyboard)
  | .consoleSleep => k.onTasks (·.setSleeping (k.callerPid cpu))
  | .spawnThread stack entry arg stackTop =>
      k.onTasks fun ts => (ts.spawnUserThread cpu stack entry arg stackTop).2
  | .exitThread => k.onTasks (·.exitCurrentThread cpu)
  | .exitSelf => (k.exitSelf cpu).2
  | .teardown => k.teardown cpu
  | .commit rsp => k.onTasks (·.commitBlock cpu rsp)
  | .leave => k.onTasks (·.leaveCpu cpu)
  | .enter => k.onTasks fun ts => (ts.enterNextProcess cpu).2
  | .timers now => k.onTasks (·.wakeTimerSleepers now)
  | .ticks => k.onTasks (·.wakeTickSleepers)
  | .preempt currentTid savedRsp ring3 => k.onTasks (·.preempt currentTid savedRsp ring3)
  | .switch currentTid ring3 hasReturnStack =>
      k.onTasks fun ts => (ts.timerSwitch cpu currentTid ring3 hasReturnStack).2
  | .other k' => { k' with tasks := { k.tasks with mem := k'.tasks.mem } }

/-- The syscalls whose course over several sections is followed. -/
inductive Request where
  | blocking (call : Call)
  | exit
  | threadExit
  | threadSpawn (stack : Option Nat) (entry arg stackTop : Nat)

/-- Where a thread's code stands: ring 3, or before a critical section. -/
inductive Point where
  | user
  | entered (request : Request)
  | serving (request : Request)
  | waitBlock (pid : Nat)
  | consoleSleep
  | exitThread
  | exitCheck
  | exitTeardown
  | blocked
  | committed
  | returning

/-- How far the timer interrupt of a CPU has come. -/
inductive Stage where
  | off
  | timers
  | ticks
  | reapTest
  | reapCheck
  | reapTeardown
  | preempt
  | switch (currentTid : Nat) (reaped : Bool)

/-- What each CPU executes, where each thread stands, and where its saved kernel frame
would continue. -/
structure Control where
  running : Nat → Option Nat
  point : Nat → Point
  kernelPoint : Nat → Point
  stage : Nat → Stage

structure System where
  kernel : Kernel
  control : Control
  /-- Threads asleep by their own call, with the target they set. -/
  slept : Nat → Option WaitTarget

inductive Event where
  | syscall (cpu : Nat) (request : Request)
  | advance (cpu rsp : Nat)
  | enter (cpu : Nat)
  | tick (cpu : Nat)
  | tickStep (cpu now savedRsp : Nat) (hasReturnStack : Bool)
  | async (a : Async)
  | other (k : Kernel)

namespace Control

def setPoint (c : Control) (tid : Nat) (point : Point) : Control :=
  { c with point := Function.update c.point tid point }

def setRunning (c : Control) (cpu : Nat) (tid : Option Nat) : Control :=
  { c with running := Function.update c.running cpu tid }

def setStage (c : Control) (cpu : Nat) (stage : Stage) : Control :=
  { c with stage := Function.update c.stage cpu stage }

def keepKernelPoint (c : Control) (tid : Nat) : Control :=
  { c with kernelPoint := Function.update c.kernelPoint tid (c.point tid) }

/-- The timer interrupted ring 3 code. -/
def ring3 (c : Control) (cpu : Nat) : Bool :=
  match c.running cpu with
  | some tid =>
      match c.point tid with
      | .user => true
      | _ => false
  | none => false

/-- A dispatched thread continues in ring 3 or where its kernel frame was saved. -/
def dispatched (c : Control) (cpu tid : Nat) : Resumption → Control
  | .kernel _ => (c.setRunning cpu (some tid)).setPoint tid (c.kernelPoint tid)
  | _ => (c.setRunning cpu (some tid)).setPoint tid .user

end Control

/-- A planned step: who runs which section, where control goes, and whether the CPU's
current thread has blocked itself by it. -/
structure Plan where
  cpu : Nat
  action : Action
  control : Control
  blocks : Bool := false

/-- A console read with a valid buffer and no key waiting. -/
def consoleWaits (k : Kernel) (cpu : Nat) : Call → Bool
  | .read fd bufPtr bufLen _ =>
      bufPtr ≠ 0 && bufLen ≠ 0 && k.validateRange cpu bufPtr bufLen true &&
        k.getFd (k.callerPid cpu) fd = some .consoleIn &&
        (k.kbdLockedOut cpu || k.keyboard.head = k.keyboard.tail)
  | _ => false

/-- The first section of a blocking call. SYS_WAIT and console reads block in a later
one; the other calls look and block at once. -/
def System.planCall (s : System) (cpu tid : Nat) (call : Call) : Plan :=
  let c := s.control
  match call with
  | .wait pid =>
      match s.kernel.tasks.info pid with
      | some .exited | none => ⟨cpu, .nothing, c.setPoint tid .returning, false⟩
      | some _ => ⟨cpu, .nothing, c.setPoint tid (.waitBlock pid), false⟩
  | call =>
      if s.kernel.consoleWaits cpu call then
        ⟨cpu, .consoleTarget, c.setPoint tid .consoleSleep, false⟩
      else if (s.kernel.syscall cpu call).1 = blockToScheduler then
        ⟨cpu, .serve call, c.setPoint tid .blocked, true⟩
      else ⟨cpu, .serve call, c.setPoint tid .returning, false⟩

/-- The deferred kill of `syscall_dispatch`. -/
def killed (k : Kernel) (cpu : Nat) : Bool :=
  match k.tasks.currentUserPid cpu with
  | some pid => k.tasks.isKillPending pid
  | none => false

/-- SYS_THREAD_EXIT counts in one section and leaves in another. -/
def System.planThreadExit (s : System) (cpu tid : Nat) : Plan :=
  let pid := s.kernel.callerPid cpu
  if pid ≠ 0 ∧ s.kernel.tasks.liveThreadCount pid ≤ 1 then
    ⟨cpu, .nothing, s.control.setPoint tid .exitCheck, false⟩
  else ⟨cpu, .nothing, s.control.setPoint tid .exitThread, false⟩

/-- The next section of the thread a CPU executes. -/
def System.planAdvance (s : System) (cpu tid rsp : Nat) : Option Plan :=
  let c := s.control
  match c.point tid with
  | .user => none
  | .entered request =>
      if s.kernel.killed cpu then some ⟨cpu, .nothing, c.setPoint tid .exitCheck, false⟩
      else some ⟨cpu, .nothing, c.setPoint tid (.serving request), false⟩
  | .serving (.blocking call) => some (s.planCall cpu tid call)
  | .serving .exit => some ⟨cpu, .nothing, c.setPoint tid .exitCheck, false⟩
  | .serving .threadExit => some (s.planThreadExit cpu tid)
  | .serving (.threadSpawn stack entry arg stackTop) =>
      some ⟨cpu, .spawnThread stack entry arg stackTop, c.setPoint tid .returning, false⟩
  | .waitBlock pid => some ⟨cpu, .waitBlock pid, c.setPoint tid .blocked, true⟩
  | .consoleSleep => some ⟨cpu, .consoleSleep, c.setPoint tid .blocked, true⟩
  | .exitThread => some ⟨cpu, .exitThread, c.setRunning cpu none, false⟩
  | .exitCheck =>
      if (s.kernel.exitSelf cpu).1 then some ⟨cpu, .exitSelf, c.setRunning cpu none, false⟩
      else some ⟨cpu, .exitSelf, c.setPoint tid .exitTeardown, false⟩
  | .exitTeardown => some ⟨cpu, .teardown, c.setRunning cpu none, false⟩
  | .blocked => some ⟨cpu, .commit rsp, c.setPoint tid .committed, false⟩
  | .committed => some ⟨cpu, .leave, (c.setRunning cpu none).setPoint tid .user, false⟩
  | .returning => some ⟨cpu, .nothing, c.setPoint tid .user, false⟩

/-- The next section of a CPU's timer interrupt. -/
def System.planTick (s : System) (cpu now savedRsp : Nat) (hasReturnStack : Bool) : Option Plan :=
  let c := s.control
  let ts := s.kernel.tasks
  let current := ts.currentTid cpu
  match c.stage cpu with
  | .off => none
  | .timers => some ⟨cpu, .timers now, c.setStage cpu .ticks, false⟩
  | .ticks => some ⟨cpu, .ticks, c.setStage cpu .reapTest, false⟩
  | .reapTest =>
      if c.ring3 cpu && current ≠ 0 && ts.currentPid cpu ≠ 0 && s.kernel.killed cpu then
        some ⟨cpu, .nothing, c.setStage cpu .reapCheck, false⟩
      else some ⟨cpu, .nothing, c.setStage cpu .preempt, false⟩
  | .reapCheck =>
      if (s.kernel.exitSelf cpu).1 then
        some ⟨cpu, .exitSelf,
          (c.setRunning cpu none).setStage cpu (.switch current true), false⟩
      else some ⟨cpu, .exitSelf, c.setStage cpu .reapTeardown, false⟩
  | .reapTeardown =>
      some ⟨cpu, .teardown, (c.setRunning cpu none).setStage cpu (.switch current true), false⟩
  | .preempt =>
      let c' := if c.ring3 cpu then c else c.keepKernelPoint current
      some ⟨cpu, .preempt current savedRsp (c.ring3 cpu),
        c'.setStage cpu (.switch current false), false⟩
  | .switch current reaped =>
      let ring3 := c.ring3 cpu || reaped
      let c' := match (ts.timerSwitch cpu current ring3 hasReturnStack).1 with
        | some r => c.dispatched cpu (ts.threads.scheduleNext cpu current) r
        | none => c
      some ⟨cpu, .switch current ring3 hasReturnStack, c'.setStage cpu .off, false⟩

def Control.idle (c : Control) (cpu : Nat) : Bool :=
  match c.stage cpu, c.running cpu with
  | .off, none => true
  | _, _ => false

/-- The thread a CPU executes outside its timer interrupt. -/
def Control.executes (c : Control) (cpu : Nat) : Option Nat :=
  match c.stage cpu with
  | .off => c.running cpu
  | _ => none

def System.plan (s : System) : Event → Option Plan
  | .syscall cpu request =>
      (s.control.executes cpu).bind fun tid =>
        match s.control.point tid with
        | .user => some ⟨cpu, .nothing, s.control.setPoint tid (.entered request), false⟩
        | _ => none
  | .advance cpu rsp => (s.control.executes cpu).bind fun tid => s.planAdvance cpu tid rsp
  | .enter cpu =>
      if s.control.idle cpu then
        let control := match (s.kernel.tasks.enterNextProcess cpu).1 with
          | some r =>
              s.control.dispatched cpu (s.kernel.tasks.threads.scheduleNext cpu 0) r
          | none => s.control
        some ⟨cpu, .enter, control, false⟩
      else none
  | .tick cpu =>
      match s.control.stage cpu with
      | .off => some ⟨cpu, .nothing, s.control.setStage cpu .timers, false⟩
      | _ => none
  | .tickStep cpu now savedRsp hasReturnStack => s.planTick cpu now savedRsp hasReturnStack
  | .async a => some ⟨0, .async a, s.control, false⟩
  | .other k => some ⟨0, .other k, s.control, false⟩

/-- Who sleeps by its own call after a section: the CPU's current thread if it has just
blocked itself, and everyone who did before and still sleeps. -/
def System.sleepers (s : System) (p : Plan) : Nat → Option WaitTarget := fun tid =>
  match (p.action.apply s.kernel p.cpu).tasks.threads.lookup tid with
  | some t =>
      if t.state ≠ .sleeping then none
      else if p.blocks && s.kernel.tasks.currentUserTid p.cpu = some tid then some t.waitTarget
      else s.slept tid
  | none => none

def System.step (s : System) (e : Event) : Option System :=
  (s.plan e).map fun p => ⟨p.action.apply s.kernel p.cpu, p.control, s.sleepers p⟩

variable {s t : System} {e : Event}

theorem System.step_eq_some (h : s.step e = some t) :
    ∃ p, s.plan e = some p ∧ t.kernel = p.action.apply s.kernel p.cpu ∧ t.slept = s.sleepers p := by
  obtain ⟨p, hp, rfl⟩ := Option.map_eq_some_iff.mp h
  exact ⟨p, hp, rfl, rfl⟩

/-- A step whose plan passes a test on the state before it. -/
def System.stepIf (test : System → Plan → Bool) (s : System) (e : Event) : Option System :=
  if (s.plan e).all (test s) then s.step e else none

theorem System.stepIf_eq_some {test : System → Plan → Bool} (h : s.stepIf test e = some t) :
    s.step e = some t ∧ ∀ p, s.plan e = some p → test s p = true := by
  unfold System.stepIf at h
  split at h
  · rename_i htest
    refine ⟨h, ?_⟩
    intro p hplan
    simpa [hplan] using htest
  · cases h

/-- The kernel before its first process, with any contents of the other tables. -/
def System.boot (k : Kernel) (cpuCount : Nat) (mem : Memory) : System where
  kernel := { k with tasks := Tasks.init cpuCount mem }
  control := ⟨fun _ => none, fun _ => .user, fun _ => .user, fun _ => .off⟩
  slept := fun _ => none

end KazuOS.Kernel
