import KazuOS.Lib.Table

/-! Threads and the thread table. Each function is one critical section of the
threads lock. Saved frames live in the words of the kernel stacks. -/
namespace KazuOS.Task

inductive ThreadState where
  | empty
  | ready
  | running
  | sleeping
  | exited
  deriving DecidableEq, Repr

inductive PrivilegeLevel where
  | system
  | driver
  | user
  deriving DecidableEq, Repr

/-- The privilege test of the signal functions: `privilege <= Driver`. -/
def PrivilegeLevel.isDriver : PrivilegeLevel → Bool
  | .system | .driver => true
  | .user => false

inductive WaitTarget where
  | none
  | keyboard
  | pid (pid : Nat)
  | tid (tid : Nat)
  | timer (deadline : Nat)
  | tick
  | ipc (channel : Nat)
  | irq (irq : Nat)
  | audio
  | pipeRead (pipeId bufPtr bufLen : Nat)
  deriving DecidableEq, Repr

@[ext]
structure Registers where
  rax : Nat
  rbx : Nat
  rcx : Nat
  rdx : Nat
  rsi : Nat
  rdi : Nat
  rbp : Nat
  r8 : Nat
  r9 : Nat
  r10 : Nat
  r11 : Nat
  r12 : Nat
  r13 : Nat
  r14 : Nat
  r15 : Nat
  rip : Nat
  rsp : Nat
  rflags : Nat
  deriving DecidableEq, Repr

structure UserContext extends Registers where
  cr3 : Nat
  kernelRsp : Nat
  userStackTop : Nat
  deriving DecidableEq, Repr

def emptyUserContext : UserContext where
  rax := 0
  rbx := 0
  rcx := 0
  rdx := 0
  rsi := 0
  rdi := 0
  rbp := 0
  r8 := 0
  r9 := 0
  r10 := 0
  r11 := 0
  r12 := 0
  r13 := 0
  r14 := 0
  r15 := 0
  rip := 0
  rsp := 0
  rflags := 0x202
  cr3 := 0
  kernelRsp := 0
  userStackTop := 0

structure Thread where
  tid : Nat
  pid : Nat
  state : ThreadState
  cpuTicks : Nat
  userContext : UserContext
  kernelRsp : Nat
  kernelStackBase : Nat
  kernelPreempted : Bool
  blockingRsp : Nat
  blockingRetval : Nat
  waitTarget : WaitTarget
  privilege : PrivilegeLevel
  assignedCpu : Nat
  deriving DecidableEq, Repr

def kernelStackSize : Nat := 65536

/-- Words of the kernel stacks, by address. -/
abbrev Memory := Nat → Nat

/-- Write consecutive words from an address up. -/
def writeWords (mem : Memory) (base : Nat) (words : List Nat) : Memory :=
  fun a =>
    if base ≤ a ∧ a < base + 8 * words.length ∧ (a - base) % 8 = 0 then
      words.getD ((a - base) / 8) 0
    else mem a

namespace Thread

def setRunning (t : Thread) : Thread :=
  match t.state with
  | .empty | .exited => t
  | _ => { t with state := .running }

def setReady (t : Thread) : Thread :=
  match t.state with
  | .ready | .running | .sleeping => { t with state := .ready }
  | _ => t

def setSleeping (t : Thread) : Thread :=
  match t.state with
  | .empty | .exited => t
  | _ => { t with state := .sleeping }

theorem setRunning_eq (t : Thread) : ∃ state, t.setRunning = { t with state } := by
  unfold setRunning
  split
  · exact ⟨t.state, rfl⟩
  · exact ⟨t.state, rfl⟩
  · exact ⟨.running, rfl⟩

theorem setReady_eq (t : Thread) : ∃ state, t.setReady = { t with state } := by
  unfold setReady
  split
  · exact ⟨.ready, rfl⟩
  · exact ⟨.ready, rfl⟩
  · exact ⟨.ready, rfl⟩
  · exact ⟨t.state, rfl⟩

theorem setSleeping_eq (t : Thread) : ∃ state, t.setSleeping = { t with state } := by
  unfold setSleeping
  split
  · exact ⟨t.state, rfl⟩
  · exact ⟨t.state, rfl⟩
  · exact ⟨.sleeping, rfl⟩

@[simp]
theorem setRunning_tid (t : Thread) : t.setRunning.tid = t.tid := by
  obtain ⟨state, h⟩ := t.setRunning_eq
  rw [h]

@[simp]
theorem setReady_tid (t : Thread) : t.setReady.tid = t.tid := by
  obtain ⟨state, h⟩ := t.setReady_eq
  rw [h]

@[simp]
theorem setSleeping_tid (t : Thread) : t.setSleeping.tid = t.tid := by
  obtain ⟨state, h⟩ := t.setSleeping_eq
  rw [h]

theorem setSleeping_of_awake {t : Thread} (awake : t.state = .ready ∨ t.state = .running) :
    t.setSleeping = { t with state := .sleeping } := by
  obtain hstate | hstate := awake
  · simp [setSleeping, hstate]
  · simp [setSleeping, hstate]

/-- The registers the int 0x80 stub pushed at `rsp`, with the result in rax. -/
def blockingFrame (mem : Memory) (rsp retval : Nat) : Registers where
  rax := retval
  rbx := mem (rsp + 8 * 12)
  rcx := mem (rsp + 8 * 11)
  rdx := mem (rsp + 8 * 10)
  rsi := mem (rsp + 8 * 9)
  rdi := mem (rsp + 8 * 8)
  rbp := mem (rsp + 8 * 13)
  r8 := mem (rsp + 8 * 7)
  r9 := mem (rsp + 8 * 6)
  r10 := mem (rsp + 8 * 5)
  r11 := mem (rsp + 8 * 4)
  r12 := mem (rsp + 8 * 3)
  r13 := mem (rsp + 8 * 2)
  r14 := mem (rsp + 8 * 1)
  r15 := mem (rsp + 8 * 0)
  rip := mem (rsp + 8 * 14)
  rsp := mem (rsp + 8 * 17)
  rflags := mem (rsp + 8 * 16)

def restoreCtxFromBlockingFrame (mem : Memory) (retval : Nat) (t : Thread) : Thread :=
  if t.blockingRsp = 0 then t
  else { t with
    userContext := { t.userContext with toRegisters := blockingFrame mem t.blockingRsp retval }
    blockingRsp := 0
    kernelPreempted := false }

def applyBlockingReturnIfPending (mem : Memory) (t : Thread) : Thread :=
  if t.blockingRsp ≠ 0 then
    restoreCtxFromBlockingFrame mem t.blockingRetval { t with blockingRetval := 0 }
  else t

/-- What every waker does to the thread it wakes. -/
def wake (mem : Memory) (retval : Nat) (t : Thread) : Thread :=
  { restoreCtxFromBlockingFrame mem retval t with state := .ready, waitTarget := .none }

/-- A thread sleeping on a target the waker accepts. -/
def waitsOn (accepts : WaitTarget → Bool) (t : Thread) : Bool :=
  t.state = .sleeping && accepts t.waitTarget

end Thread

/-- The thread table, searched from the front. -/
abbrev Threads := List Thread

namespace Threads

def lookup (threads : Threads) (tid : Nat) : Option Thread := threads.find? (·.tid = tid)

def update (threads : Threads) (tid : Nat) (f : Thread → Thread) : Threads :=
  Lib.modifyFirst (·.tid = tid) f threads

def state (threads : Threads) (tid : Nat) : Option ThreadState := (threads.lookup tid).map (·.state)

/-- A thread that is in the table and neither exited nor empty. -/
def live (threads : Threads) (tid : Nat) : Bool :=
  match threads.state tid with
  | some .exited | some .empty | none => false
  | _ => true

def setUserContext (threads : Threads) (tid : Nat) (context : UserContext) : Threads :=
  threads.update tid fun t => { t with userContext := context }

def setRunning (threads : Threads) (tid : Nat) : Threads := threads.update tid Thread.setRunning
def setReady (threads : Threads) (tid : Nat) : Threads := threads.update tid Thread.setReady
def setSleeping (threads : Threads) (tid : Nat) : Threads := threads.update tid Thread.setSleeping

def setState (threads : Threads) (tid : Nat) (state : ThreadState) : Threads :=
  match state with
  | .ready => threads.setReady tid
  | .running => threads.setRunning tid
  | .sleeping => threads.setSleeping tid
  | .exited | .empty => threads.update tid fun t => { t with state }

def setBlockingRsp (threads : Threads) (tid rsp : Nat) : Threads :=
  threads.update tid fun t => { t with blockingRsp := rsp }

def setWaitTarget (threads : Threads) (tid : Nat) (target : WaitTarget) : Threads :=
  threads.update tid fun t => { t with waitTarget := target }

def setThreadPid (threads : Threads) (tid pid : Nat) : Threads :=
  threads.update tid fun t => { t with pid }

def removeThread (threads : Threads) (tid : Nat) : Threads := threads.filter (·.tid ≠ tid)

def applyBlockingReturnIfPending (mem : Memory) (threads : Threads) (tid : Nat) : Threads :=
  threads.update tid (Thread.applyBlockingReturnIfPending mem)

/-- Wake every sleeper the waker accepts. -/
def wakeAll (mem : Memory) (retval : Nat) (accepts : WaitTarget → Bool) (threads : Threads) :
    Threads :=
  threads.map fun t => if t.waitsOn accepts then t.wake mem retval else t

def wakeupPidWaiters (mem : Memory) (exitedPid : Nat) (threads : Threads) : Threads :=
  wakeAll mem 1 (· = .pid exitedPid) threads

def wakeupThreadWaiters (mem : Memory) (exitedTid : Nat) (threads : Threads) : Threads :=
  wakeAll mem 0 (· = .tid exitedTid) threads

def wakeupAudioWaiters (mem : Memory) (threads : Threads) : Threads :=
  wakeAll mem 0 (· = .audio) threads

def timerExpired (now : Nat) : WaitTarget → Bool
  | .timer deadline => deadline ≤ now
  | _ => false

def wakeTimerSleepers (mem : Memory) (now : Nat) (threads : Threads) : Threads :=
  wakeAll mem 0 (timerExpired now) threads

def wakeTickSleepers (mem : Memory) (threads : Threads) : Threads :=
  wakeAll mem 0 (· = .tick) threads

/-- Wake the first sleeper of the table the waker accepts. -/
def wakeFirst (mem : Memory) (retval : Nat) (chosen : Thread → Bool)
    (accepts : WaitTarget → Bool) (threads : Threads) : Bool × Threads :=
  (threads.any fun t => chosen t && t.waitsOn accepts,
    Lib.modifyFirst (fun t => chosen t && t.waitsOn accepts) (Thread.wake mem retval) threads)

def wakeupKeyWaiters (mem : Memory) (key : Nat) (threads : Threads) : Bool × Threads :=
  wakeFirst mem key (fun _ => true) (· = .keyboard) threads

def wakeupKeyWaiterForPid (mem : Memory) (pid key : Nat) (threads : Threads) : Bool × Threads :=
  wakeFirst mem key (·.pid = pid) (· = .keyboard) threads

def wakeupIrqWaiter (mem : Memory) (irq : Nat) (threads : Threads) : Bool × Threads :=
  wakeFirst mem 0 (fun _ => true) (· = .irq irq) threads

def isIpc : WaitTarget → Bool
  | .ipc _ => true
  | _ => false

def wakeupIpcWaiter (mem : Memory) (tid retval : Nat) (threads : Threads) : Threads :=
  threads.update tid fun t => if t.waitsOn isIpc then t.wake mem retval else t

variable {f : Thread → Thread}

theorem lookup_update (hkey : ∀ t, (f t).tid = t.tid) (threads : Threads) (tid j : Nat) :
    (threads.update tid f).lookup j =
      if j = tid then (threads.lookup j).map f else threads.lookup j :=
  Lib.find?_modifyFirst Thread.tid hkey threads tid j

theorem filter_update (hkey : ∀ t, (f t).tid = t.tid) (threads : Threads)
    (tid : Nat) : (threads.update tid f).filter (·.tid ≠ tid) = threads.filter (·.tid ≠ tid) :=
  Lib.filter_modifyFirst Thread.tid hkey threads tid

theorem lookup_setSleeping (threads : Threads) (tid j : Nat) :
    (threads.setSleeping tid).lookup j =
      if j = tid then (threads.lookup j).map Thread.setSleeping else threads.lookup j :=
  lookup_update Thread.setSleeping_tid threads tid j

theorem lookup_setWaitTarget (threads : Threads) (tid j : Nat) (target : WaitTarget) :
    (threads.setWaitTarget tid target).lookup j =
      if j = tid then (threads.lookup j).map fun t => { t with waitTarget := target }
      else threads.lookup j := by
  apply lookup_update
  intro t
  rfl

/-- Round robin among the ready threads of a CPU: the lowest tid after the current
one, else the lowest, else zero. -/
def scheduleNext (cpu currentTid : Nat) (threads : Threads) : Nat :=
  let ready := threads.filter fun t => t.assignedCpu = cpu && t.state = .ready
  match ((ready.filter (currentTid < ·.tid)).map (·.tid)).min? with
  | some tid => tid
  | none => ((ready.map (·.tid)).min?).getD 0

end Threads

end KazuOS.Task
