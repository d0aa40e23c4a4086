import KazuOS.Task.Process

/-! Context switches: what the timer saves of the thread it interrupts and what the
two dispatchers load for the thread they pick. -/
namespace KazuOS.Task

/-- The registers an interrupt stub pushed at `rsp`. -/
def interruptFrame (mem : Memory) (rsp : Nat) : Registers where
  r15 := mem (rsp + 8 * 0)
  r14 := mem (rsp + 8 * 1)
  r13 := mem (rsp + 8 * 2)
  r12 := mem (rsp + 8 * 3)
  rbp := mem (rsp + 8 * 4)
  rbx := mem (rsp + 8 * 5)
  r11 := mem (rsp + 8 * 6)
  r10 := mem (rsp + 8 * 7)
  r9 := mem (rsp + 8 * 8)
  r8 := mem (rsp + 8 * 9)
  rdi := mem (rsp + 8 * 10)
  rsi := mem (rsp + 8 * 11)
  rdx := mem (rsp + 8 * 12)
  rcx := mem (rsp + 8 * 13)
  rax := mem (rsp + 8 * 14)
  rip := mem (rsp + 8 * 15)
  rflags := mem (rsp + 8 * 17)
  rsp := mem (rsp + 8 * 18)

/-- What the processor and an interrupt stub push, lowest address first. -/
def interruptWords (regs : Registers) (cs ss : Nat) : List Nat :=
  [regs.r15, regs.r14, regs.r13, regs.r12, regs.rbp, regs.rbx, regs.r11, regs.r10, regs.r9,
    regs.r8, regs.rdi, regs.rsi, regs.rdx, regs.rcx, regs.rax, regs.rip, cs, regs.rflags,
    regs.rsp, ss]

/-- What the processor and the int 0x80 stub push, lowest address first. -/
def syscallWords (regs : Registers) (cs ss : Nat) : List Nat :=
  [regs.r15, regs.r14, regs.r13, regs.r12, regs.r11, regs.r10, regs.r9, regs.r8, regs.rdi,
    regs.rsi, regs.rdx, regs.rcx, regs.rbx, regs.rbp, regs.rip, cs, regs.rflags, regs.rsp, ss]

/-- How a dispatched thread continues: an int 0x80 frame with a result, an interrupt
frame, or a user context. -/
inductive Resumption where
  | blocking (rsp retval : Nat)
  | kernel (rsp : Nat)
  | user (context : UserContext)
  deriving DecidableEq, Repr

namespace Thread

def saveUserContext (mem : Memory) (framePtr : Nat) (t : Thread) : Thread :=
  { t with userContext :=
      { t.userContext with toRegisters := interruptFrame mem framePtr, kernelRsp := framePtr } }

/-- The thread after the timer interrupted it in ring 3. -/
def preemptUser (mem : Memory) (savedRsp : Nat) (t : Thread) : Thread :=
  { t.saveUserContext mem savedRsp with kernelPreempted := false }.setReady

/-- The thread after the timer interrupted it in ring 0. -/
def preemptKernel (savedRsp : Nat) (t : Thread) : Thread :=
  { t with kernelRsp := savedRsp, kernelPreempted := true }.setReady

/-- The frame on the per-CPU return stack enables interrupts. -/
def temporaryContext (context : UserContext) : UserContext :=
  { context with rflags := context.rflags ||| 0x200 }

/-- The choice of `enter_next_process`: a blocking frame, a kernel frame, the context. -/
def enter (t : Thread) : Resumption × Thread :=
  if t.blockingRsp ≠ 0 then
    (.blocking t.blockingRsp t.blockingRetval, { t with blockingRsp := 0, blockingRetval := 0 })
  else if t.kernelPreempted then (.kernel t.kernelRsp, t)
  else (.user (temporaryContext t.userContext), t)

/-- The choice of `timer_handler_inner`: a kernel frame, then the context with a
blocking frame folded into it. -/
def switchTo (mem : Memory) (ring3 : Bool) (t : Thread) : Resumption × Thread :=
  if t.kernelPreempted then (.kernel t.kernelRsp, t)
  else
    let t := t.applyBlockingReturnIfPending mem
    (.user (if ring3 then t.userContext else temporaryContext t.userContext), t)

end Thread

namespace Tasks

/-- Make a chosen thread current on a CPU and running. -/
def launch (ts : Tasks) (cpu tid : Nat) : Tasks :=
  let pid := (ts.threadPid tid).getD 0
  (ts.setCurrentUserTid cpu (some tid)).setRunning cpu pid

/-- Dispatch a thread by one of the two choices. -/
def dispatch (ts : Tasks) (cpu tid : Nat) (choose : Thread → Resumption × Thread) :
    Option Resumption × Tasks :=
  ((ts.threads.lookup tid).map fun t => (choose t).1,
    { ts with threads := ts.threads.update tid fun t => (choose t).2 }.launch cpu tid)

def enterNextProcess (ts : Tasks) (cpu : Nat) : Option Resumption × Tasks :=
  match ts.threads.scheduleNext cpu 0 with
  | 0 => (none, (ts.clearCurrentPid cpu).setCurrentUserTid cpu none)
  | tid => ts.dispatch cpu tid Thread.enter

/-- `syscall_block_fn`: the frame goes to the thread that blocked. -/
def commitBlock (ts : Tasks) (cpu blockingRsp : Nat) : Tasks :=
  match ts.currentUserTid cpu with
  | some tid => { ts with threads := ts.threads.setBlockingRsp tid blockingRsp }
  | none => ts

def leaveCpu (ts : Tasks) (cpu : Nat) : Tasks :=
  (ts.setCurrentUserPid cpu none).clearCurrentPid cpu

def wakeTimerSleepers (ts : Tasks) (now : Nat) : Tasks :=
  { ts with threads := ts.threads.wakeTimerSleepers ts.mem now }

def wakeTickSleepers (ts : Tasks) : Tasks :=
  { ts with threads := ts.threads.wakeTickSleepers ts.mem }

/-- The timer saves and re-readies the thread it interrupted. -/
def preempt (ts : Tasks) (currentTid savedRsp : Nat) (ring3 : Bool) : Tasks :=
  if currentTid = 0 then ts else
    { ts with threads := ts.threads.update currentTid fun t =>
        if ring3 then t.preemptUser ts.mem savedRsp else t.preemptKernel savedRsp }

/-- The end of `timer_handler_inner`; `none` returns to the interrupted code. -/
def timerSwitch (ts : Tasks) (cpu currentTid : Nat) (ring3 hasReturnStack : Bool) :
    Option Resumption × Tasks :=
  match ts.threads.scheduleNext cpu currentTid with
  | 0 => (none, ts.setCurrentUserTid cpu none)
  | tid =>
      if !ring3 && (tid = currentTid || !hasReturnStack) then (none, ts)
      else ts.dispatch cpu tid (Thread.switchTo ts.mem ring3)

end Tasks

end KazuOS.Task
