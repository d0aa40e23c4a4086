import KazuOS.Kernel.Files
import KazuOS.Kernel.Ipc

/-! The syscalls that can put a thread to sleep, and which thread that is. Half of
them block the calling thread, half the main thread of its process. -/
namespace KazuOS.Kernel

open KazuOS.Memory KazuOS.Task

def sleepUnitUs : Nat := 1
def sleepUnitTick : Nat := 2

def blockCurrent (k : Kernel) (cpu : Nat) (target : WaitTarget) : Kernel :=
  { k with tasks := k.tasks.blockCurrent cpu target }

/-- Put the main thread of the calling process to sleep. -/
def blockMain (k : Kernel) (cpu : Nat) (target : WaitTarget) : Kernel :=
  match k.tasks.currentUserPid cpu with
  | some pid => { k with tasks := (k.tasks.setWaitTarget pid target).setSleeping pid }
  | none => k

def sysWait (k : Kernel) (cpu pid : Nat) : Nat × Kernel :=
  match k.tasks.info pid with
  | some .exited | none => (1, k)
  | some _ => (blockToScheduler, k.blockCurrent cpu (.pid pid))

/-- The length of a sleep in time stamp ticks; `none` if it is over at once. -/
def sleepTicks (k : Kernel) (duration unit : Nat) : Option Nat :=
  let product := k.tscPerMs * duration
  if 2 ^ 64 ≤ product then none
  else if unit = sleepUnitUs then
    if product / 1000 = 0 then none else some (product / 1000)
  else some product

def sysSleep (k : Kernel) (cpu duration unit now : Nat) : Nat × Kernel :=
  if duration = 0 then (0, k)
  else if unit = sleepUnitTick then (blockToScheduler, k.blockCurrent cpu .tick)
  else
    match k.sleepTicks duration unit with
    | none => (0, k)
    | some tsc => (blockToScheduler, k.blockCurrent cpu (.timer ((now + tsc) % 2 ^ 64)))

def sysThreadJoin (k : Kernel) (cpu tid : Nat) : Nat × Kernel :=
  match k.tasks.joinCurrent cpu tid with
  | (true, tasks) => (blockToScheduler, { k with tasks })
  | (false, tasks) => (0, { k with tasks })

def ownsDriverIrq (k : Kernel) (pid irq : Nat) : Bool :=
  k.driverIrq.owner = pid && k.driverIrq.number = irq

def sysIrqWait (k : Kernel) (cpu arg : Nat) : Nat × Kernel :=
  let caller := k.callerPid cpu
  let irq := arg % 256
  if !(k.tasks.privilegeLevel caller).isDriver then (failure, k)
  else if !k.ownsDriverIrq caller irq then (failure, k)
  else (blockToScheduler, k.blockCurrent cpu (.irq irq))

def readConsole (k : Kernel) (cpu : Nat) : Nat × Kernel :=
  match if k.kbdLockedOut cpu then (none, k) else k.getRaw with
  | (some _, k) => (1, k)
  | (none, k) => (blockToScheduler, k.blockMain cpu .keyboard)

def readPipeEnd (k : Kernel) (cpu pipeId bufPtr bufLen : Nat) : Nat × Kernel :=
  if !k.pipeIsEmpty pipeId then
    let (bytes, k) := k.readPipe pipeId bufLen
    (bytes.length, k)
  else if k.writerClosed pipeId then (0, k)
  else (blockToScheduler, k.blockMain cpu (.pipeRead pipeId bufPtr bufLen))

/-- A file delivers what it holds from the descriptor's offset on. -/
def readFile (k : Kernel) (pid fd node generation offset count : Nat) : Nat × Kernel :=
  if count = 0 then (0, k) else
    match k.table pid with
    | some entries =>
        (count, k.setTable pid (entries.set fd (.file node generation (offset + count))))
    | none => (count, k)

def sysRead (k : Kernel) (cpu fd bufPtr bufLen available : Nat) : Nat × Kernel :=
  if bufPtr = 0 ∨ bufLen = 0 then (0, k)
  else if !k.validateRange cpu bufPtr bufLen true then (failure, k)
  else
    match k.getFd (k.callerPid cpu) fd with
    | some .consoleIn => k.readConsole cpu
    | some (.pipeRead pipeId) => k.readPipeEnd cpu pipeId bufPtr bufLen
    | some (.file node generation offset) =>
        k.readFile (k.callerPid cpu) fd node generation offset (min bufLen available)
    | some (.device _) => (0, k)
    | _ => (failure, k)

def sysIoctl (k : Kernel) (cpu fd cmd arg : Nat) : Nat × Kernel :=
  match k.getFd (k.callerPid cpu) fd with
  | some (.device _) => k.audioIoctl cpu cmd arg
  | _ => (failure, k)

def sysIpcRecv (k : Kernel) (cpu channelId bufPtr bufLen : Nat) : Nat × Kernel :=
  if bufPtr = 0 ∨ bufLen = 0 then (failure, k)
  else if !k.validateRange cpu bufPtr bufLen true then (failure, k)
  else
    match k.tryRecv channelId bufLen (k.callerPid cpu) with
    | (.ok message, k) => (message.length, k)
    | (.error, k) => (failure, k)
    | (.block, k) => (blockToScheduler, k)

/-- The calls that can return to the scheduler. `now` is the time stamp counter and
`available` what a file holds from the descriptor's offset on. -/
inductive Call where
  | read (fd bufPtr bufLen available : Nat)
  | ipcRecv (channelId bufPtr bufLen : Nat)
  | sleep (duration unit now : Nat)
  | wait (pid : Nat)
  | threadJoin (tid : Nat)
  | irqWait (irq : Nat)
  | ioctl (fd cmd arg : Nat)

def syscall (k : Kernel) (cpu : Nat) : Call → Nat × Kernel
  | .read fd bufPtr bufLen available => k.sysRead cpu fd bufPtr bufLen available
  | .ipcRecv channelId bufPtr bufLen => k.sysIpcRecv cpu channelId bufPtr bufLen
  | .sleep duration unit now => k.sysSleep cpu duration unit now
  | .wait pid => k.sysWait cpu pid
  | .threadJoin tid => k.sysThreadJoin cpu tid
  | .irqWait irq => k.sysIrqWait cpu irq
  | .ioctl fd cmd arg => k.sysIoctl cpu fd cmd arg

/-- The wait target a blocked call sets. -/
def targetOf (k : Kernel) (cpu : Nat) : Call → WaitTarget
  | .read fd bufPtr bufLen _ =>
      match k.getFd (k.callerPid cpu) fd with
      | some (.pipeRead pipeId) => .pipeRead pipeId bufPtr bufLen
      | _ => .keyboard
  | .ipcRecv channelId _ _ => .ipc channelId
  | .sleep duration unit now =>
      if unit = sleepUnitTick then .tick
      else .timer ((now + (k.sleepTicks duration unit).getD 0) % 2 ^ 64)
  | .wait pid => .pid pid
  | .threadJoin tid => .tid tid
  | .irqWait irq => .irq (irq % 256)
  | .ioctl _ _ _ => .ipc k.audioChannel

/-- The calls that go through `block_current`. -/
def Call.blocksThread : Call → Bool
  | .sleep _ _ _ | .wait _ | .threadJoin _ | .irqWait _ => true
  | .read _ _ _ _ | .ipcRecv _ _ _ | .ioctl _ _ _ => false

/-- A process already registered as waiting for room in the audio queue is not put to
sleep again. -/
def alreadyWaits (k : Kernel) (pid : Nat) : Call → Bool
  | .ioctl _ _ _ =>
      match k.slot k.audioChannel with
      | some c => pid ∈ c.sendWaiters
      | none => false
  | _ => false

/-- Byte counts and small results are not the marker. -/
theorem ne_blockToScheduler {n : Nat} (h : n ≤ maxTransfer) : n ≠ blockToScheduler := by
  unfold maxTransfer at h
  unfold blockToScheduler
  omega

theorem failure_ne_blockToScheduler : failure ≠ blockToScheduler := by decide

variable {k : Kernel} {cpu pid : Nat}

theorem sysSleep_blocks {cpu duration unit now : Nat}
    (h : (k.sysSleep cpu duration unit now).1 = blockToScheduler) :
    (k.sysSleep cpu duration unit now).2 =
      k.blockCurrent cpu (k.targetOf cpu (.sleep duration unit now)) := by
  unfold sysSleep at h ⊢
  simp only [targetOf]
  split at h
  · exact absurd h (ne_blockToScheduler (Nat.zero_le _))
  · rename_i hduration
    rw [if_neg hduration]
    split at h
    · rename_i hunit
      rw [if_pos hunit, if_pos hunit]
    · rename_i hunit
      rw [if_neg hunit, if_neg hunit]
      cases hticks : k.sleepTicks duration unit with
      | none =>
        rw [hticks] at h
        exact absurd h (ne_blockToScheduler (Nat.zero_le _))
      | some tsc => rfl

theorem sysWait_blocks (h : (k.sysWait cpu pid).1 = blockToScheduler) :
    (k.sysWait cpu pid).2 = k.blockCurrent cpu (.pid pid) := by
  unfold sysWait at h ⊢
  split at h
  · exact absurd h (ne_blockToScheduler (by decide : 1 ≤ maxTransfer))
  · exact absurd h (ne_blockToScheduler (by decide : 1 ≤ maxTransfer))
  · rfl

theorem sysThreadJoin_blocks {cpu tid : Nat} (h : (k.sysThreadJoin cpu tid).1 = blockToScheduler) :
    (k.sysThreadJoin cpu tid).2 = k.blockCurrent cpu (.tid tid) := by
  unfold sysThreadJoin Tasks.joinCurrent at h ⊢
  by_cases hlive : k.tasks.threads.live tid = true
  · rw [if_pos hlive]
    rfl
  · rw [if_neg hlive] at h
    exact absurd h (ne_blockToScheduler (Nat.zero_le _))

theorem sysIrqWait_blocks {cpu irq : Nat} (h : (k.sysIrqWait cpu irq).1 = blockToScheduler) :
    (k.sysIrqWait cpu irq).2 = k.blockCurrent cpu (.irq (irq % 256)) := by
  unfold sysIrqWait at h ⊢
  dsimp only at h ⊢
  split at h
  · exact absurd h failure_ne_blockToScheduler
  · split at h
    · exact absurd h failure_ne_blockToScheduler
    · rename_i hdriver howner
      rw [if_neg hdriver, if_neg howner]

variable {call : Call} {t : Thread} {tid : Nat}

/-- A call through `block_current` that returns to the scheduler did just that. -/
theorem syscall_blocksThread {cpu : Nat}
    (hcall : call.blocksThread = true) (h : (k.syscall cpu call).1 = blockToScheduler) :
    (k.syscall cpu call).2 = k.blockCurrent cpu (k.targetOf cpu call) := by
  cases call with
  | sleep duration unit now => exact sysSleep_blocks h
  | wait pid => exact sysWait_blocks h
  | threadJoin tid => exact sysThreadJoin_blocks h
  | irqWait irq => exact sysIrqWait_blocks h
  | read fd bufPtr bufLen available | ipcRecv channelId bufPtr bufLen | ioctl fd cmd arg =>
    cases hcall

theorem le_maxTransfer {cpu ptr len : Nat} {write : Bool}
    (h : k.validateRange cpu ptr len write = true) : len ≤ maxTransfer := by
  unfold validateRange validateRangeIn at h
  split at h
  · rename_i hzero
    rw [hzero]
    exact Nat.zero_le _
  · split at h
    · cases h
    · rename_i hrange
      exact Nat.le_of_not_lt (not_or.mp hrange).1

theorem getRaw_tasks (k : Kernel) : k.getRaw.2.tasks = k.tasks := by
  unfold getRaw
  dsimp only
  split
  · rfl
  · rfl

/-- Blocking the calling process, as the three calls below do. -/
def mainBlocked (k : Kernel) (pid : Nat) (target : WaitTarget) : Tasks :=
  (k.tasks.setWaitTarget pid target).setSleeping pid

theorem blockMain_tasks (hpid : k.tasks.currentUserPid cpu = some pid) (target : WaitTarget) :
    (k.blockMain cpu target).tasks = k.mainBlocked pid target := by
  simp only [blockMain, hpid]
  rfl

theorem readConsole_blocks (hpid : k.tasks.currentUserPid cpu = some pid)
    (h : (k.readConsole cpu).1 = blockToScheduler) :
    (k.readConsole cpu).2.tasks = k.mainBlocked pid .keyboard := by
  have htasks : (if k.kbdLockedOut cpu = true then (none, k) else k.getRaw).2.tasks = k.tasks := by
    split
    · rfl
    · exact getRaw_tasks k
  unfold readConsole at h ⊢
  split at h
  · exact absurd h (ne_blockToScheduler (by decide : 1 ≤ maxTransfer))
  · rename_i k' hch
    rw [hch] at htasks
    dsimp only at htasks ⊢
    rw [blockMain_tasks (htasks ▸ hpid), mainBlocked, mainBlocked, htasks]

theorem length_drain_le (pipes : List (Option PipeState)) (id maxLen : Nat) :
    (drain pipes id maxLen).1.length ≤ maxLen := by
  unfold drain
  split
  · exact List.length_take_le _ _
  · exact Nat.zero_le _

theorem readPipeEnd_blocks {cpu pid pipeId bufPtr bufLen : Nat}
    (hpid : k.tasks.currentUserPid cpu = some pid) (hlen : bufLen ≤ maxTransfer)
    (h : (k.readPipeEnd cpu pipeId bufPtr bufLen).1 = blockToScheduler) :
    (k.readPipeEnd cpu pipeId bufPtr bufLen).2.tasks =
      k.mainBlocked pid (.pipeRead pipeId bufPtr bufLen) := by
  unfold readPipeEnd at h ⊢
  split at h
  · have hcount := length_drain_le k.pipes pipeId bufLen
    exact absurd h (ne_blockToScheduler (hcount.trans hlen))
  · split at h
    · exact absurd h (ne_blockToScheduler (Nat.zero_le _))
    · rename_i hempty hclosed
      rw [if_neg hempty, if_neg hclosed]
      exact blockMain_tasks hpid _

theorem sysRead_blocks {cpu pid fd bufPtr bufLen available : Nat}
    (hpid : k.tasks.currentUserPid cpu = some pid)
    (h : (k.sysRead cpu fd bufPtr bufLen available).1 = blockToScheduler) :
    (k.sysRead cpu fd bufPtr bufLen available).2.tasks =
      k.mainBlocked pid (k.targetOf cpu (.read fd bufPtr bufLen available)) := by
  unfold sysRead at h ⊢
  split at h
  · exact absurd h (ne_blockToScheduler (Nat.zero_le _))
  · split at h
    · exact absurd h failure_ne_blockToScheduler
    · rename_i hnull hvalid
      have hlen : bufLen ≤ maxTransfer := le_maxTransfer (by simpa using hvalid)
      rw [if_neg hnull, if_neg hvalid]
      simp only [targetOf]
      split at h
      · rename_i hfd
        rw [hfd]
        exact readConsole_blocks hpid h
      · rename_i pipeId hfd
        rw [hfd]
        exact readPipeEnd_blocks hpid hlen h
      · rename_i node generation offset hfd
        have hcount : min bufLen available ≤ maxTransfer := (Nat.min_le_left _ _).trans hlen
        unfold readFile at h
        split at h
        · exact absurd h (ne_blockToScheduler (Nat.zero_le _))
        · split at h
          · exact absurd h (ne_blockToScheduler hcount)
          · exact absurd h (ne_blockToScheduler hcount)
      · exact absurd h (ne_blockToScheduler (Nat.zero_le _))
      · exact absurd h failure_ne_blockToScheduler

theorem callerPid_eq (hpid : k.tasks.currentUserPid cpu = some pid) : k.callerPid cpu = pid := by
  simp [callerPid, hpid]

theorem dequeue_result {channelId bufLen pid : Nat} {message : List UInt8} {k' : Kernel}
    (h : k.tryRecv channelId bufLen pid = (.ok message, k')) : message.length ≤ bufLen := by
  unfold tryRecv at h
  split at h
  · cases h
  · split at h
    · split at h
      · cases h
      · cases h
    · cases h
      exact List.length_take_le _ _

theorem sysIpcRecv_blocks {cpu pid channelId bufPtr bufLen : Nat}
    (hpid : k.tasks.currentUserPid cpu = some pid) (hne : pid ≠ 0)
    (h : (k.sysIpcRecv cpu channelId bufPtr bufLen).1 = blockToScheduler) :
    (k.sysIpcRecv cpu channelId bufPtr bufLen).2.tasks = k.mainBlocked pid (.ipc channelId) := by
  unfold sysIpcRecv at h ⊢
  split at h
  · exact absurd h failure_ne_blockToScheduler
  · split at h
    · exact absurd h failure_ne_blockToScheduler
    · rename_i hnull hvalid
      have hlen : bufLen ≤ maxTransfer := le_maxTransfer (by simpa using hvalid)
      rw [if_neg hnull, if_neg hvalid]
      rw [callerPid_eq hpid] at h ⊢
      split at h
      · rename_i message k' hrecv
        exact absurd h (ne_blockToScheduler ((dequeue_result hrecv).trans hlen))
      · exact absurd h failure_ne_blockToScheduler
      · rename_i k' hrecv
        unfold tryRecv at hrecv
        split at hrecv
        · cases hrecv
        · split at hrecv
          · rw [if_pos hne] at hrecv
            cases hrecv
            rfl
          · cases hrecv

theorem audioStatus_ne_block (result : SendResult × Kernel) :
    (audioStatus result).1 ≠ blockToScheduler := by
  unfold audioStatus
  split
  · exact ne_blockToScheduler (Nat.zero_le _)
  · exact failure_ne_blockToScheduler

theorem audioIoctl_blocks {cpu pid cmd arg : Nat} (hpid : k.tasks.currentUserPid cpu = some pid)
    (hne : pid ≠ 0) (h : (k.audioIoctl cpu cmd arg).1 = blockToScheduler) :
    ∃ c, k.slot k.audioChannel = some c ∧ (k.audioIoctl cpu cmd arg).2.tasks =
      if pid ∈ c.sendWaiters then k.tasks else k.mainBlocked pid (.ipc k.audioChannel) := by
  unfold audioIoctl at h ⊢
  split at h
  · exact absurd h (audioStatus_ne_block _)
  · exact absurd h (audioStatus_ne_block _)
  · exact absurd h (audioStatus_ne_block _)
  · split at h
    · rename_i honline
      simp only [honline, if_true]
      rw [callerPid_eq hpid] at h ⊢
      unfold waitSendSpace at h ⊢
      cases hslot : k.slot k.audioChannel with
      | none =>
        rw [hslot] at h
        exact absurd h (ne_blockToScheduler (Nat.zero_le _))
      | some c =>
        rw [hslot] at h
        dsimp only at h ⊢
        by_cases hfull : c.queue.length < maxQueue
        · rw [if_pos hfull] at h
          exact absurd h (ne_blockToScheduler (Nat.zero_le _))
        · refine ⟨c, rfl, ?_⟩
          rw [if_neg hfull]
          by_cases hmem : pid ∈ c.sendWaiters
          · rw [if_neg (fun h => h.2 hmem), if_pos hmem]
          · rw [if_pos ⟨hne, hmem⟩, if_neg hmem]
            rfl
    · exact absurd h failure_ne_blockToScheduler
  · exact absurd h failure_ne_blockToScheduler

/-- A call that blocks by pid and returns to the scheduler blocked the main thread, or
nothing at all if the process was already on the waiting list. -/
theorem syscall_blocksMain
    (hcall : call.blocksThread = false) (hpid : k.tasks.currentUserPid cpu = some pid)
    (hne : pid ≠ 0) (h : (k.syscall cpu call).1 = blockToScheduler) :
    (k.syscall cpu call).2.tasks =
      if k.alreadyWaits pid call then k.tasks else k.mainBlocked pid (k.targetOf cpu call) := by
  cases call with
  | read fd bufPtr bufLen available => exact sysRead_blocks hpid h
  | ipcRecv channelId bufPtr bufLen => exact sysIpcRecv_blocks hpid hne h
  | ioctl fd cmd arg =>
    simp only [syscall, sysIoctl] at h ⊢
    split at h
    · rename_i handle hfd
      obtain ⟨c, hslot, htasks⟩ := audioIoctl_blocks hpid hne h
      simp only [htasks, alreadyWaits, hslot, targetOf, decide_eq_true_eq]
    · exact absurd h failure_ne_blockToScheduler
  | sleep duration unit now => cases hcall
  | wait pid => cases hcall
  | threadJoin tid => cases hcall
  | irqWait irq => cases hcall

/-- What a blocking call may change of a thread. -/
def waiting (t : Thread) : Nat × ThreadState × WaitTarget := (t.tid, t.state, t.waitTarget)

/-- The caller, and no other thread, was put to sleep on a target. -/
structure BlocksCaller (before after : Threads) (tid : Nat) (target : WaitTarget) : Prop where
  asleep : ∃ t, after.lookup tid = some t ∧ t.state = .sleeping ∧ t.waitTarget = target
  others : (after.filter (·.tid ≠ tid)).map waiting = (before.filter (·.tid ≠ tid)).map waiting

theorem lookup_block (ts : Tasks) (tid other : Nat) (target : WaitTarget) :
    (ts.block tid target).threads.lookup other =
      if other = tid then
        (ts.threads.lookup other).map fun t => { t with waitTarget := target }.setSleeping
      else ts.threads.lookup other := by
  unfold Tasks.block
  rw [Threads.lookup_setSleeping, Threads.lookup_setWaitTarget]
  split
  · rw [Option.map_map]
    rfl
  · rfl

theorem block_blocksCaller {ts : Tasks}
    (hcaller : ts.threads.lookup tid = some t) (hactive : t.state = .ready ∨ t.state = .running)
    (target : WaitTarget) : BlocksCaller ts.threads (ts.block tid target).threads tid target := by
  constructor
  · refine ⟨{ t with waitTarget := target, state := .sleeping }, ?_, rfl, rfl⟩
    rw [lookup_block, if_pos rfl, hcaller, Option.map_some]
    exact congrArg some (Thread.setSleeping_of_awake hactive)
  · congr 1
    unfold Tasks.block Threads.setSleeping Threads.setWaitTarget
    rw [Threads.filter_update Thread.setSleeping_tid]
    apply Threads.filter_update
    intro t
    rfl

theorem not_blocksCaller {before after : Threads} {target : WaitTarget}
    (hcaller : after.lookup tid = some t) (hactive : t.state = .ready ∨ t.state = .running) :
    ¬BlocksCaller before after tid target := by
  intro h
  obtain ⟨t', ht', hsleeping, -⟩ := h.asleep
  cases hcaller.symm.trans ht'
  simp [hsleeping] at hactive

/-- The calls that block whoever made them: those through `block_current`, and the others
when the main thread makes them and its process does not wait for audio already. -/
def BlocksItself (k : Kernel) (pid tid : Nat) (call : Call) : Prop :=
  call.blocksThread = true ∨
    (k.tasks.mainTid pid = some tid ∧ k.alreadyWaits pid call = false)

/-- A call that returned to the scheduler put its caller, and nobody else, to sleep
exactly if it is one that blocks whoever made it. -/
theorem blocked_call_blocks_caller_iff {k : Kernel} {cpu pid tid : Nat} {t : Thread} {call : Call}
    (hpid : k.tasks.currentUserPid cpu = some pid) (hne : pid ≠ 0)
    (htid : k.tasks.currentUserTid cpu = some tid) (hcaller : k.tasks.threads.lookup tid = some t)
    (hactive : t.state = .ready ∨ t.state = .running)
    (hret : (k.syscall cpu call).1 = blockToScheduler) :
    BlocksCaller k.tasks.threads (k.syscall cpu call).2.tasks.threads tid (k.targetOf cpu call) ↔
      BlocksItself k pid tid call := by
  cases hcall : call.blocksThread with
  | true =>
    have hblocks := block_blocksCaller hcaller hactive (k.targetOf cpu call)
    rw [syscall_blocksThread hcall hret]
    simp only [blockCurrent, Tasks.blockCurrent, htid]
    exact iff_of_true hblocks (.inl hcall)
  | false =>
    rw [syscall_blocksMain hcall hpid hne hret, BlocksItself, hcall]
    cases hwaits : k.alreadyWaits pid call with
    | true =>
      simp only [if_true]
      exact iff_of_false (not_blocksCaller hcaller hactive) (by simp)
    | false =>
      simp only [Bool.false_eq_true, if_false, mainBlocked,
        Tasks.setSleeping_setWaitTarget_threads, false_or, and_true]
      cases hmain : k.tasks.mainTid pid with
      | none => exact iff_of_false (not_blocksCaller hcaller hactive) (by simp)
      | some main =>
        by_cases heq : tid = main
        · subst heq
          exact iff_of_true (block_blocksCaller hcaller hactive _) rfl
        · apply iff_of_false
          · apply not_blocksCaller _ hactive
            rw [lookup_block, if_neg heq, hcaller]
          · intro h
            exact heq (Option.some.inj h).symm

/-- A process with a main thread on CPU 0 and a worker on CPU 1, both running, and a
console to read from. -/
def twoThreads : Kernel where
  tasks :=
    { Tasks.init 2 (fun _ => 0) with
      threads :=
        [{ Tasks.newThread 1 1 4096 .user 0 with state := .running },
          { Tasks.newThread 2 1 69632 .user 1 with state := .running }]
      processes :=
        [kernelProcess,
          { kernelProcess with
            pid := 1, state := .running, privilege := .user, mainTid := some 1, threads := [1, 2] }]
      nextTid := 3
      nextPid := 2
      currentUserPid := fun _ => some 1
      currentUserTid := fun cpu => some (cpu + 1) }
  pipes := []
  tables := [none, some [.consoleIn]]
  channels := []
  audioChannel := 0
  audioOnline := false
  keyboard := ⟨fun _ => 0, 0, 0⟩
  fbOwner := none
  driverIrq := ⟨0, 0, 0, false⟩
  vm := ⟨fun _ _ => 7, 0, []⟩
  pmm := ⟨[], 0, 0, 0⟩
  heapAllocs := []
  dmaAllocs := []
  pciMmioAllocs := []
  imageAllocs := []
  shmObjects := []
  freedBuffers := []
  activeCr3 := fun _ => 0
  tscPerMs := 3000000

/-- The main thread reads the console. -/
theorem blocked_call_blocks_caller_iff_twoThreads :
    (twoThreads.syscall 0 (.read 0 userMin 1 0)).1 = blockToScheduler ∧
      BlocksCaller twoThreads.tasks.threads
        (twoThreads.syscall 0 (.read 0 userMin 1 0)).2.tasks.threads 1 .keyboard :=
  have hret : (twoThreads.syscall 0 (.read 0 userMin 1 0)).1 = blockToScheduler := by decide
  ⟨hret, (blocked_call_blocks_caller_iff rfl (by decide) rfl rfl (.inr rfl) hret).mpr
    (.inr ⟨rfl, rfl⟩)⟩

/-- The worker reads the console: the main thread is put to sleep in its place. -/
theorem read_by_worker_blocks_main :
    (twoThreads.syscall 1 (.read 0 userMin 1 0)).1 = blockToScheduler ∧
      (twoThreads.syscall 1 (.read 0 userMin 1 0)).2.tasks.threads.map waiting =
        [(1, .sleeping, .keyboard), (2, .running, .none)] ∧
      ¬BlocksCaller twoThreads.tasks.threads
        (twoThreads.syscall 1 (.read 0 userMin 1 0)).2.tasks.threads 2 .keyboard :=
  ⟨by decide, by decide, not_blocksCaller rfl (.inr rfl)⟩

end KazuOS.Kernel
