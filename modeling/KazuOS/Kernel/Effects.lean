import KazuOS.Kernel.Blocking
import KazuOS.Kernel.Exit
import KazuOS.Task.Lifecycle

/-! What the kernel's functions can do to threads and processes: whom pipes, channels,
blocking calls and the end of a process wake, put to sleep or end. -/
namespace KazuOS.Kernel

open KazuOS.Memory KazuOS.Task KazuOS.Task.Tasks

variable {A B : Sleepers} {k : Kernel}

/-! Pipes and descriptors. -/

/-- Readers of a pipe. -/
def pipeReaders (pipeId : Nat) : Sleepers := fun _ w =>
  ∃ bufPtr bufLen, w = .pipeRead pipeId bufPtr bufLen

variable {pids : List Nat} {c : Channel} {call : Call} {t : Thread}

theorem readerOf_sleeps {vm : Vmm} {pipeId bufLen : Nat} (h : readerOf vm pipeId t = some bufLen) :
    t.state = .sleeping ∧ pipeReaders pipeId t.tid t.waitTarget := by
  unfold readerOf at h
  split at h
  · rename_i id bufPtr bufLen hstate htarget
    split at h
    · rename_i hid
      exact ⟨hstate, bufPtr, bufLen, by rw [htarget, hid.1]⟩
    · cases h
  · cases h

theorem moves_deliver (vm : Vmm) (mem : Memory) (pipeId : Nat) (threads : Threads)
    (pipes : List (Option PipeState)) :
    List.Forall₂ (Thread.Moves (pipeReaders pipeId) nobody) threads
      (deliver vm mem pipeId threads pipes).1 := by
  induction threads generalizing pipes with
  | nil => exact .nil
  | cons t threads ih =>
    unfold deliver
    split
    · rename_i bufLen hreader
      obtain ⟨hsleeping, htarget⟩ := readerOf_sleeps hreader
      apply List.Forall₂.cons
      · have hretval : Thread.Moves (pipeReaders pipeId) nobody t
            { t with blockingRetval := (drain pipes pipeId bufLen).1.length } :=
          Thread.Moves.of_same rfl rfl rfl rfl rfl rfl
        exact hretval.trans (Thread.wake_moves mem _ hsleeping htarget)
      · exact ih _
    · exact .cons (Thread.Moves.refl t) (ih _)

theorem keeps_notifyPipeReaders (k : Kernel) (pipeId : Nat) :
    Keeps (pipeReaders pipeId) nobody k.tasks (k.notifyPipeReaders pipeId).tasks :=
  keeps_threads (moves_deliver k.vm k.tasks.mem pipeId k.tasks.threads k.pipes)

theorem updatePipe_tasks (k : Kernel) (id : Nat) (f : PipeState → Option PipeState) :
    (k.updatePipe id f).tasks = k.tasks := by
  unfold updatePipe
  split
  · rfl
  · rfl

/-- Readers of the pipe whose write end a descriptor is. -/
def readersBehind (entry : FdEntry) : Sleepers := fun tid w =>
  ∃ pipeId, entry = .pipeWrite pipeId ∧ pipeReaders pipeId tid w

theorem keeps_closeEntry (k : Kernel) (entry : FdEntry) :
    Keeps (readersBehind entry) nobody k.tasks (k.closeEntry entry).tasks := by
  unfold closeEntry
  split
  · rename_i id
    have hnotify := keeps_notifyPipeReaders (k.closeWrite id) id
    rw [closeWrite, updatePipe_tasks] at hnotify
    exact hnotify.mono (fun _ _ h => ⟨id, rfl, h⟩) fun _ _ h => h
  · rename_i id
    rw [closeRead, updatePipe_tasks]
    exact Keeps.refl _
  · exact Keeps.refl _

/-- Readers of a pipe one of whose write ends a process holds. -/
def readersBehindPid (k : Kernel) (pid : Nat) : Sleepers := fun tid w =>
  ∃ fd entry, k.getFd pid fd = some entry ∧ readersBehind entry tid w

theorem keeps_freeFd (k : Kernel) (pid fd : Nat) :
    Keeps (fun tid w => ∃ entry, k.getFd pid fd = some entry ∧ readersBehind entry tid w) nobody
      k.tasks (k.freeFd pid fd).2.tasks := by
  unfold freeFd
  split
  · exact Keeps.refl _
  · rename_i entries htable
    split
    · rename_i entry hentry
      have hfd : k.getFd pid fd = some entry := by rw [getFd, htable]; exact hentry
      exact (keeps_closeEntry k entry).mono (fun _ _ h => ⟨entry, hfd, h⟩) fun _ _ h => h
    · exact Keeps.refl _

theorem keeps_closeAll (k : Kernel) (pid : Nat) :
    Keeps (k.readersBehindPid pid) nobody k.tasks (k.closeAll pid).tasks := by
  unfold closeAll
  split
  · rename_i entries htable
    apply Keeps.foldl Kernel.tasks entries k
    intro k' entry hentry _
    obtain ⟨fd, hlt, hget⟩ := List.getElem_of_mem hentry
    have hfd : k.getFd pid fd = some entry := by
      rw [getFd, htable]
      exact List.getElem?_eq_some_iff.mpr ⟨hlt, hget⟩
    exact (keeps_closeEntry k' entry).mono (fun _ _ h => ⟨fd, entry, hfd, h⟩) fun _ _ h => h
  · exact Keeps.refl _

/-! Channels. -/

def receivers (k : Kernel) (channelId : Nat) : List Nat :=
  ((k.slot channelId).map (·.recvWaiters)).getD []

def senders (k : Kernel) (channelId : Nat) : List Nat :=
  ((k.slot channelId).map (·.sendWaiters)).getD []

/-- The main threads of some processes, asleep on any channel. -/
def ipcMains (k : Kernel) (pids : List Nat) : Sleepers := fun tid w =>
  ∃ pid ∈ pids, k.tasks.ipcMainOf pid tid w

theorem keeps_wakePid (k : Kernel) {pid : Nat} (hpid : pid ∈ pids) (retval : Nat) :
    Keeps (k.ipcMains pids) nobody k.tasks (k.wakeupIpcWaiter pid retval).tasks :=
  (keeps_wakeupIpcWaiter k.tasks pid retval).mono (fun _ _ h => ⟨pid, hpid, h⟩) fun _ _ h => h

theorem keeps_enqueue (k : Kernel) (channelId : Nat) (c : Channel) (data : List UInt8) :
    Keeps (k.ipcMains (c.recvWaiters.take 1)) nobody k.tasks (k.enqueue channelId c data).tasks := by
  unfold enqueue
  split
  · exact Keeps.refl _
  · rename_i pid waiters hwaiters
    have hpid : pid ∈ c.recvWaiters.take 1 := by simp [hwaiters]
    exact keeps_wakePid (k.setSlot channelId _) hpid 0

theorem keeps_dequeue (k : Kernel) (channelId : Nat) (c : Channel) (rest : List (List UInt8)) :
    Keeps (k.ipcMains (c.sendWaiters.take 1)) nobody k.tasks
      (k.dequeue channelId c rest).tasks := by
  unfold dequeue
  split
  · exact Keeps.refl _
  · rename_i pid waiters hwaiters
    have hpid : pid ∈ c.sendWaiters.take 1 := by simp [hwaiters]
    exact keeps_wakePid (k.setSlot channelId _) hpid 0

variable {r : Nat × Kernel} {channelId : Nat} {cpu : Nat}

theorem receivers_of_slot (h : k.slot channelId = some c) :
    k.receivers channelId = c.recvWaiters := by
  simp [receivers, h]

theorem senders_of_slot (h : k.slot channelId = some c) : k.senders channelId = c.sendWaiters := by
  simp [senders, h]

theorem keeps_trySendReliable (k : Kernel) (channelId : Nat) (data : List UInt8) :
    Keeps (k.ipcMains ((k.receivers channelId).take 1)) nobody k.tasks
      (k.trySendReliable channelId data).2.tasks := by
  unfold trySendReliable
  split
  · exact Keeps.refl _
  · split
    · exact Keeps.refl _
    · rename_i c hslot
      rw [receivers_of_slot hslot]
      split
      · exact Keeps.refl _
      · exact keeps_enqueue k channelId c data

theorem keeps_trySend (k : Kernel) (channelId : Nat) (data : List UInt8) :
    Keeps (k.ipcMains ((k.receivers channelId).take 1)) nobody k.tasks
      (k.trySend channelId data).2.tasks := by
  unfold trySend
  split
  · exact Keeps.refl _
  · split
    · exact Keeps.refl _
    · rename_i c hslot
      rw [receivers_of_slot hslot]
      exact keeps_enqueue k channelId
        { c with queue := c.queue.drop (c.queue.length + 1 - maxQueue) } data

theorem keeps_tryRecvNonblock (k : Kernel) (channelId bufLen : Nat) :
    Keeps (k.ipcMains ((k.senders channelId).take 1)) nobody k.tasks
      (k.tryRecvNonblock channelId bufLen).2.tasks := by
  unfold tryRecvNonblock
  split
  · exact Keeps.refl _
  · rename_i c hslot
    rw [senders_of_slot hslot]
    split
    · exact Keeps.refl _
    · exact keeps_dequeue k channelId c _

theorem keeps_abortSenders (k : Kernel) (channelId : Nat) :
    Keeps (k.ipcMains (k.senders channelId)) nobody k.tasks (k.abortSenders channelId).tasks := by
  unfold abortSenders
  split
  · exact Keeps.refl _
  · rename_i c hslot
    rw [senders_of_slot hslot]
    apply Keeps.foldl Kernel.tasks c.sendWaiters (k.setSlot channelId _)
    intro k' pid hpid hkeeps
    apply (keeps_wakeupIpcWaiter k'.tasks pid 0).mono
    · intro tid w h
      exact ⟨pid, hpid, (hkeeps.mainTid pid).symm.trans h.1, h.2⟩
    · exact fun _ _ h => h

theorem keeps_audioStatus {result : SendResult × Kernel} (h : Keeps A B k.tasks result.2.tasks) :
    Keeps A B k.tasks (audioStatus result).2.tasks := by
  unfold audioStatus
  split
  · exact h
  · exact h

theorem keeps_sendAudio (k : Kernel) (command : UInt8) (data : List UInt8) :
    Keeps (k.ipcMains ((k.receivers k.audioChannel).take 1)) nobody k.tasks
      (k.sendAudio command data).2.tasks := by
  unfold sendAudio
  split
  · exact keeps_trySendReliable k _ _
  · exact Keeps.refl _

/-! Blocking calls. -/

/-- The processes a call takes off a waiting list, with the channel of the list. -/
def Call.pops (k : Kernel) : Call → List (Nat × Nat)
  | .ipcRecv channelId _ _ => ((k.senders channelId).take 1).map (channelId, ·)
  | .ioctl _ _ _ => ((k.receivers k.audioChannel).take 1).map (k.audioChannel, ·)
  | _ => []

/-- Main threads that are asleep on a channel and taken off some waiting list. -/
def poppedMains (k : Kernel) (pops : List (Nat × Nat)) : Sleepers := fun tid w =>
  ∃ channelId pid, (channelId, pid) ∈ pops ∧ k.tasks.ipcMainOf pid tid w

theorem poppedMains_of_ipcMains {tid : Nat} {w : WaitTarget}
    (h : k.ipcMains pids tid w) : k.poppedMains (pids.map (channelId, ·)) tid w := by
  obtain ⟨pid, hpid, hmain⟩ := h
  exact ⟨channelId, pid, List.mem_map_of_mem hpid, hmain⟩

/-- Whom a call with result `ret` puts to sleep: the calling thread, or the main thread of
the calling process, if it returns to the scheduler. -/
def Call.blocks (k : Kernel) (cpu ret : Nat) (call : Call) : Sleepers := fun tid w =>
  ret = blockToScheduler ∧ w = k.targetOf cpu call ∧
    if call.blocksThread then k.tasks.currentUserTid cpu = some tid
    else k.tasks.mainTid (k.callerPid cpu) = some tid

theorem keeps_blockCurrent (ts : Tasks) (cpu : Nat) (target : WaitTarget) :
    Keeps nobody (fun tid w => w = target ∧ ts.currentUserTid cpu = some tid) ts
      (ts.blockCurrent cpu target) := by
  unfold Tasks.blockCurrent
  split
  · rename_i tid hcurrent
    apply (keeps_block ts tid target).mono
    · exact fun _ _ h => h
    · intro j w h
      exact ⟨h.2, h.1 ▸ hcurrent⟩
  · exact Keeps.refl ts

theorem keeps_mainBlocked (k : Kernel) (pid : Nat) (target : WaitTarget) :
    Keeps nobody (fun tid w => w = target ∧ k.tasks.mainTid pid = some tid) k.tasks
      (k.mainBlocked pid target) := by
  have hshape := keeps_setSleeping (k.tasks.setWaitTarget pid target) pid
  have htarget := keeps_setWaitTarget k.tasks pid target
  refine ⟨?_, hshape.processes.trans htarget.processes, hshape.nextTid.trans htarget.nextTid,
    hshape.nextPid.trans htarget.nextPid, ?_⟩
  · rw [mainBlocked, setSleeping_setWaitTarget_threads]
    split
    · rename_i tid hmain
      exact ((keeps_block k.tasks tid target).mono (fun _ _ h => h)
        fun j w h => ⟨h.2, h.1 ▸ hmain⟩).threads
    · exact (Keeps.refl k.tasks).threads
  · intro cpu
    apply Or.inl
    unfold mainBlocked Tasks.setWaitTarget Tasks.setSleeping onMain
    split <;> split <;> exact ⟨rfl, rfl⟩

theorem keeps_blockMain (k : Kernel) (cpu : Nat) (target : WaitTarget) :
    Keeps nobody (fun tid w => w = target ∧ k.tasks.mainTid (k.callerPid cpu) = some tid) k.tasks
      (k.blockMain cpu target).tasks := by
  unfold blockMain
  split
  · rename_i pid hpid
    rw [callerPid_eq hpid]
    exact keeps_mainBlocked k pid target
  · exact Keeps.refl _

/-- A call that blocks the calling thread. -/
theorem keeps_blockThread (hcall : call.blocksThread = true) :
    Keeps A (call.blocks k cpu blockToScheduler) k.tasks
      (k.tasks.blockCurrent cpu (k.targetOf cpu call)) := by
  apply (keeps_blockCurrent k.tasks cpu _).mono
  · exact fun _ _ h => h.elim
  · intro tid w h
    refine ⟨rfl, h.1, ?_⟩
    rw [if_pos hcall]
    exact h.2

/-- A call that blocks by pid, if at all. -/
theorem keeps_blockProcess {cpu ret : Nat} (hcall : call.blocksThread = false)
    {target : WaitTarget} {b : Tasks} (htarget : target = k.targetOf cpu call)
    (h : Keeps nobody (fun tid w => ret = blockToScheduler ∧ w = target ∧
      k.tasks.mainTid (k.callerPid cpu) = some tid) k.tasks b) :
    Keeps A (call.blocks k cpu ret) k.tasks b := by
  apply h.mono
  · exact fun _ _ h => h.elim
  · intro tid w h
    refine ⟨h.1, h.2.1.trans htarget, ?_⟩
    rw [if_neg (by simp [hcall])]
    exact h.2.2

theorem keeps_sysWait {cpu pid : Nat} (h : k.sysWait cpu pid = r) :
    Keeps A ((Call.wait pid).blocks k cpu r.1) k.tasks r.2.tasks := by
  unfold sysWait at h
  split at h
  · subst h
    exact Keeps.refl _
  · subst h
    exact Keeps.refl _
  · subst h
    exact keeps_blockThread rfl

theorem keeps_sysSleep {cpu duration unit now : Nat} (h : k.sysSleep cpu duration unit now = r) :
    Keeps A ((Call.sleep duration unit now).blocks k cpu r.1) k.tasks r.2.tasks := by
  by_cases hret : r.1 = blockToScheduler
  · have htasks : r.2.tasks =
        k.tasks.blockCurrent cpu (k.targetOf cpu (.sleep duration unit now)) := by
      rw [← h] at hret ⊢
      rw [sysSleep_blocks hret]
      rfl
    rw [hret, htasks]
    exact keeps_blockThread rfl
  · unfold sysSleep at h
    split at h
    · subst h
      exact Keeps.refl _
    · split at h
      · subst h
        exact absurd rfl hret
      · split at h
        · subst h
          exact Keeps.refl _
        · subst h
          exact absurd rfl hret

theorem keeps_sysThreadJoin {cpu tid : Nat} (h : k.sysThreadJoin cpu tid = r) :
    Keeps A ((Call.threadJoin tid).blocks k cpu r.1) k.tasks r.2.tasks := by
  unfold sysThreadJoin Tasks.joinCurrent at h
  by_cases hlive : k.tasks.threads.live tid = true
  · rw [if_pos hlive] at h
    subst h
    exact keeps_blockThread rfl
  · rw [if_neg hlive] at h
    subst h
    exact Keeps.refl _

theorem keeps_sysIrqWait {cpu irq : Nat} (h : k.sysIrqWait cpu irq = r) :
    Keeps A ((Call.irqWait irq).blocks k cpu r.1) k.tasks r.2.tasks := by
  unfold sysIrqWait at h
  dsimp only at h
  split at h
  · subst h
    exact Keeps.refl _
  · split at h
    · subst h
      exact Keeps.refl _
    · subst h
      exact keeps_blockThread rfl

theorem keeps_readConsole (h : k.readConsole cpu = r) :
    Keeps nobody (fun tid w => r.1 = blockToScheduler ∧ w = .keyboard ∧
      k.tasks.mainTid (k.callerPid cpu) = some tid) k.tasks r.2.tasks := by
  have hkey : ∀ k' ch, (if k.kbdLockedOut cpu = true then (none, k) else k.getRaw) = (ch, k') →
      k'.tasks = k.tasks := by
    intro k' ch hch
    split at hch
    · cases hch
      rfl
    · rw [← getRaw_tasks k, hch]
  unfold readConsole at h
  split at h
  · rename_i k' hch
    subst h
    rw [hkey k' _ hch]
    exact Keeps.refl _
  · rename_i k' hch
    subst h
    have hblock := keeps_blockMain k' cpu .keyboard
    rw [callerPid, hkey k' _ hch] at hblock
    exact hblock.mono (fun _ _ h => h) fun _ _ h => ⟨rfl, h⟩

theorem keeps_readPipeEnd {cpu pipeId bufPtr bufLen : Nat}
    (h : k.readPipeEnd cpu pipeId bufPtr bufLen = r) :
    Keeps nobody (fun tid w => r.1 = blockToScheduler ∧ w = .pipeRead pipeId bufPtr bufLen ∧
      k.tasks.mainTid (k.callerPid cpu) = some tid) k.tasks r.2.tasks := by
  unfold readPipeEnd at h
  split at h
  · subst h
    exact Keeps.refl _
  · split at h
    · subst h
      exact Keeps.refl _
    · subst h
      exact (keeps_blockMain k cpu _).mono (fun _ _ h => h) fun _ _ h => ⟨rfl, h⟩

theorem readFile_tasks (k : Kernel) (pid fd node generation offset count : Nat) :
    (k.readFile pid fd node generation offset count).2.tasks = k.tasks := by
  unfold readFile
  split
  · rfl
  · split
    · rfl
    · rfl

theorem keeps_sysRead {cpu fd bufPtr bufLen available : Nat}
    (h : k.sysRead cpu fd bufPtr bufLen available = r) :
    Keeps nobody ((Call.read fd bufPtr bufLen available).blocks k cpu r.1) k.tasks r.2.tasks := by
  unfold sysRead at h
  split at h
  · subst h
    exact Keeps.refl _
  · split at h
    · subst h
      exact Keeps.refl _
    · split at h
      · rename_i hfd
        exact keeps_blockProcess rfl (by simp only [targetOf, hfd]) (keeps_readConsole h)
      · rename_i pipeId hfd
        exact keeps_blockProcess rfl (by simp only [targetOf, hfd]) (keeps_readPipeEnd h)
      · subst h
        rw [readFile_tasks]
        exact Keeps.refl _
      · subst h
        exact Keeps.refl _
      · subst h
        exact Keeps.refl _

/-- Putting the calling process to sleep on a channel it was registered at. -/
theorem keeps_sleepOnChannel (k : Kernel) (cpu channelId : Nat) (c : Option Channel) :
    Keeps nobody (fun tid w => w = .ipc channelId ∧
      k.tasks.mainTid (k.callerPid cpu) = some tid) k.tasks
      ((k.setSlot channelId c).sleepOnChannel (k.callerPid cpu) channelId).tasks :=
  keeps_mainBlocked k (k.callerPid cpu) (.ipc channelId)

theorem keeps_sysIpcRecv {cpu channelId bufPtr bufLen : Nat}
    (h : k.sysIpcRecv cpu channelId bufPtr bufLen = r) :
    Keeps (k.ipcMains ((k.senders channelId).take 1))
      ((Call.ipcRecv channelId bufPtr bufLen).blocks k cpu r.1) k.tasks r.2.tasks := by
  unfold sysIpcRecv at h
  split at h
  · subst h
    exact Keeps.refl _
  · split at h
    · subst h
      exact Keeps.refl _
    · unfold tryRecv at h
      cases hslot : k.slot channelId with
      | none =>
        rw [hslot] at h
        subst h
        exact Keeps.refl _
      | some c =>
        rw [hslot] at h
        rw [senders_of_slot hslot]
        cases hqueue : c.queue with
        | nil =>
          simp only [hqueue] at h
          by_cases hpid : k.callerPid cpu ≠ 0
          · rw [if_pos hpid] at h
            subst h
            apply keeps_blockProcess rfl rfl
            exact (keeps_sleepOnChannel k cpu channelId _).mono (fun _ _ h => h) fun _ _ h => ⟨rfl, h⟩
          · rw [if_neg hpid] at h
            subst h
            exact Keeps.refl _
        | cons message rest =>
          simp only [hqueue] at h
          subst h
          exact (keeps_dequeue k channelId c rest).weaken fun _ _ h => h

theorem keeps_waitSendSpace {cpu channelId : Nat} {full : Bool} {k' : Kernel}
    (h : k.waitSendSpace channelId (k.callerPid cpu) = (full, k')) :
    (full = false ∧ k' = k) ∨ (full = true ∧ Keeps nobody (fun tid w =>
      w = .ipc channelId ∧ k.tasks.mainTid (k.callerPid cpu) = some tid) k.tasks k'.tasks) := by
  unfold waitSendSpace at h
  split at h
  · cases h
    exact .inl ⟨rfl, rfl⟩
  · split at h
    · cases h
      exact .inl ⟨rfl, rfl⟩
    · split at h
      · cases h
        exact .inr ⟨rfl, keeps_sleepOnChannel k cpu channelId _⟩
      · cases h
        exact .inr ⟨rfl, Keeps.refl _⟩

theorem keeps_sysIoctl {cpu fd cmd arg : Nat} (h : k.sysIoctl cpu fd cmd arg = r) :
    Keeps (k.ipcMains ((k.receivers k.audioChannel).take 1))
      ((Call.ioctl fd cmd arg).blocks k cpu r.1) k.tasks r.2.tasks := by
  unfold sysIoctl at h
  split at h
  · unfold audioIoctl at h
    split at h
    · subst h
      exact (keeps_audioStatus (keeps_sendAudio k _ _)).weaken fun _ _ h => h
    · subst h
      exact (keeps_audioStatus (keeps_sendAudio k _ _)).weaken fun _ _ h => h
    · subst h
      exact (keeps_audioStatus (keeps_sendAudio k _ _)).weaken fun _ _ h => h
    · split at h
      · split at h
        · rename_i k' hwait
          subst h
          obtain ⟨hfull, -⟩ | ⟨-, hkeeps⟩ := keeps_waitSendSpace hwait
          · cases hfull
          · apply keeps_blockProcess rfl rfl
            exact hkeeps.mono (fun _ _ h => h) fun _ _ h => ⟨rfl, h⟩
        · rename_i k' hwait
          subst h
          obtain ⟨-, rfl⟩ | ⟨hfull, -⟩ := keeps_waitSendSpace hwait
          · exact Keeps.refl _
          · cases hfull
      · subst h
        exact Keeps.refl _
    · subst h
      exact Keeps.refl _
  · subst h
    exact Keeps.refl _

theorem keeps_syscall (k : Kernel) (cpu : Nat) (call : Call) :
    Keeps (k.poppedMains (call.pops k)) (call.blocks k cpu (k.syscall cpu call).1) k.tasks
      (k.syscall cpu call).2.tasks := by
  cases call with
  | read fd bufPtr bufLen available =>
    exact (keeps_sysRead rfl).mono (fun _ _ h => h.elim) fun _ _ h => h
  | ipcRecv channelId bufPtr bufLen =>
    exact (keeps_sysIpcRecv rfl).mono (fun _ _ => poppedMains_of_ipcMains) fun _ _ h => h
  | sleep duration unit now => exact keeps_sysSleep rfl
  | wait pid => exact keeps_sysWait rfl
  | threadJoin tid => exact keeps_sysThreadJoin rfl
  | irqWait irq => exact keeps_sysIrqWait rfl
  | ioctl fd cmd arg =>
    exact (keeps_sysIoctl rfl).mono (fun _ _ => poppedMains_of_ipcMains) fun _ _ h => h

/-! The end of a process. -/

/-- What decides who loses the audio device. -/
def audioTables (k : Kernel) : List (Option Channel) × Nat × DriverIrq :=
  (k.channels, k.audioChannel, k.driverIrq)

theorem closeEntry_eq (k : Kernel) (entry : FdEntry) :
    ∃ tasks pipes, k.closeEntry entry = { k with tasks, pipes } := by
  have hpipe : ∀ id f, ∃ pipes, k.updatePipe id f = { k with pipes } := by
    intro id f
    unfold updatePipe
    split
    · exact ⟨_, rfl⟩
    · exact ⟨_, rfl⟩
  unfold closeEntry
  split
  · rename_i id
    obtain ⟨pipes, h⟩ : ∃ pipes, k.closeWrite id = { k with pipes } := hpipe _ _
    rw [h]
    exact ⟨_, _, rfl⟩
  · obtain ⟨pipes, h⟩ := hpipe _ _
    exact ⟨_, pipes, h⟩
  · exact ⟨_, _, rfl⟩

theorem closeAll_eq (k : Kernel) (pid : Nat) :
    ∃ tasks pipes tables, k.closeAll pid = { k with tasks, pipes, tables } := by
  have hfold : ∀ (entries : List FdEntry) (k : Kernel),
      ∃ tasks pipes, entries.foldl closeEntry k = { k with tasks, pipes } := by
    intro entries
    induction entries with
    | nil => exact fun _ => ⟨_, _, rfl⟩
    | cons entry entries ih =>
      intro k
      obtain ⟨tasks, pipes, h⟩ := k.closeEntry_eq entry
      obtain ⟨tasks', pipes', h'⟩ := ih (k.closeEntry entry)
      refine ⟨tasks', pipes', ?_⟩
      rw [List.foldl_cons, h', h]
  unfold closeAll
  split
  · rename_i entries _
    obtain ⟨tasks, pipes, h⟩ := hfold entries k
    rw [h]
    exact ⟨_, _, _, rfl⟩
  · exact ⟨_, _, _, rfl⟩

theorem closeAll_audioTables (k : Kernel) (pid : Nat) :
    (k.closeAll pid).audioTables = k.audioTables := by
  obtain ⟨tasks, pipes, tables, h⟩ := k.closeAll_eq pid
  rw [h]
  rfl

/-- The senders taken off the audio channel when its driver goes. -/
def audioPops (k : Kernel) (pid : Nat) : List (Nat × Nat) :=
  if k.driverIrq.owner = pid ∧ k.driverIrq.audio = true then
    (k.senders k.audioChannel).map (k.audioChannel, ·)
  else []

theorem keeps_releaseIrqForPid (k : Kernel) (pid : Nat) :
    Keeps (k.poppedMains (k.audioPops pid)) nobody k.tasks (k.releaseIrqForPid pid).tasks := by
  unfold releaseIrqForPid
  split
  · rename_i howner
    dsimp only
    split
    · rename_i haudio
      rw [audioPops, if_pos ⟨howner, haudio⟩]
      exact (keeps_abortSenders { k with audioOnline := false } k.audioChannel).mono
        (fun _ _ => poppedMains_of_ipcMains) fun _ _ h => h
    · exact Keeps.refl _
  · exact Keeps.refl _

theorem releaseIrqForPid_eq (k : Kernel) (pid : Nat) :
    ∃ tasks channels audioOnline driverIrq,
      k.releaseIrqForPid pid = { k with tasks, channels, audioOnline, driverIrq } := by
  have hwake : ∀ (pids : List Nat) (k : Kernel), ∃ tasks,
      pids.foldl (fun k pid => k.wakeupIpcWaiter pid 0) k = { k with tasks } := by
    intro pids
    induction pids with
    | nil => exact fun _ => ⟨_, rfl⟩
    | cons pid pids ih =>
      intro k
      obtain ⟨tasks, h⟩ := ih (k.wakeupIpcWaiter pid 0)
      exact ⟨tasks, h⟩
  unfold releaseIrqForPid driverStopped abortSenders
  split
  · dsimp only
    split
    · split
      · exact ⟨_, _, _, _, rfl⟩
      · rename_i c _
        obtain ⟨tasks, h⟩ := hwake c.sendWaiters _
        rw [h]
        exact ⟨_, _, _, _, rfl⟩
    · exact ⟨_, _, _, _, rfl⟩
  · exact ⟨_, _, _, _, rfl⟩

theorem freeHeapForPid_tasks (k : Kernel) (pid : Nat) : (k.freeHeapForPid pid).tasks = k.tasks := by
  unfold freeHeapForPid
  dsimp only
  split
  · rfl
  · rfl

theorem freePciMmioForPid_tasks (k : Kernel) (pid : Nat) :
    (k.freePciMmioForPid pid).tasks = k.tasks := rfl

theorem freeDmaForPid_tasks (k : Kernel) (pid : Nat) : (k.freeDmaForPid pid).tasks = k.tasks := rfl

theorem freeImageForPid_tasks (k : Kernel) (pid : Nat) :
    (k.freeImageForPid pid).tasks = k.tasks := rfl

theorem keeps_freeAddressSpace (k : Kernel) (cpu pid : Nat) :
    Keeps A B k.tasks (k.freeAddressSpace cpu pid).tasks := by
  unfold freeAddressSpace
  split
  · rename_i cr3 _
    have hcleanup : Keeps A B k.tasks (k.cleanupPid pid cr3).tasks := by
      unfold cleanupPid
      dsimp only
      split
      · exact Keeps.refl _
      · apply keeps_updateProcess
        intro p
        rfl
    exact hcleanup
  · exact Keeps.refl _

/-- Whom the release of what a process holds wakes. -/
def resourceWaiters (k : Kernel) (pid : Nat) : Sleepers := fun tid w =>
  k.readersBehindPid pid tid w ∨ k.poppedMains (k.audioPops pid) tid w

theorem audioPops_congr {k k' : Kernel} (h : k'.audioTables = k.audioTables) (pid : Nat) :
    k'.audioPops pid = k.audioPops pid := by
  simp only [audioTables, Prod.mk.injEq] at h
  simp only [audioPops, senders, slot, h]

theorem releaseFramebuffer_eq (k : Kernel) (pid : Nat) :
    ∃ fbOwner keyboard, k.releaseFramebuffer pid = { k with fbOwner, keyboard } := by
  unfold releaseFramebuffer
  split
  · exact ⟨_, _, rfl⟩
  · exact ⟨_, _, rfl⟩

/-- The framebuffer, the descriptors and the interrupt line are given back. -/
def detach (k : Kernel) (cpu pid : Nat) : Kernel :=
  (((k.releaseFramebuffer pid).onTasks (·.clearCurrentUser cpu pid)).closeAll pid).releaseIrqForPid
    pid

theorem freeResources_detach (k : Kernel) (cpu pid : Nat) :
    k.freeResources cpu pid = (((((k.detach cpu pid).freeDmaForPid pid).freePciMmioForPid
      pid).freeHeapForPid pid).freeAddressSpace cpu pid).freeImageForPid pid := rfl

/-- Nothing of this is memory. -/
theorem detach_eq (k : Kernel) (cpu pid : Nat) :
    ∃ tasks pipes tables channels audioOnline keyboard fbOwner driverIrq, k.detach cpu pid =
      { k with tasks, pipes, tables, channels, audioOnline, keyboard, fbOwner, driverIrq } := by
  obtain ⟨fbOwner, keyboard, hreleased⟩ := k.releaseFramebuffer_eq pid
  unfold detach
  rw [hreleased]
  obtain ⟨tasks, pipes, tables, hclosed⟩ :=
    ({ k with fbOwner, keyboard }.onTasks (·.clearCurrentUser cpu pid)).closeAll_eq pid
  rw [hclosed]
  obtain ⟨tasks', channels, audioOnline, driverIrq, hirq⟩ := releaseIrqForPid_eq
    { { k with fbOwner, keyboard }.onTasks (·.clearCurrentUser cpu pid) with tasks, pipes, tables }
    pid
  exact ⟨_, _, _, _, _, _, _, _, hirq⟩

theorem keeps_detach (k : Kernel) (cpu pid : Nat) :
    Keeps (k.resourceWaiters pid) nobody k.tasks (k.detach cpu pid).tasks := by
  let held := (k.releaseFramebuffer pid).onTasks (·.clearCurrentUser cpu pid)
  have hheld : Keeps (k.resourceWaiters pid) nobody k.tasks held.tasks ∧
      held.tables = k.tables ∧ held.audioTables = k.audioTables := by
    obtain ⟨fbOwner, keyboard, h⟩ := k.releaseFramebuffer_eq pid
    simp only [held, h]
    exact ⟨keeps_clearCurrentUser _ _ _, rfl, rfl⟩
  obtain ⟨huser, htables, haudio⟩ := hheld
  have hclosed : Keeps (k.resourceWaiters pid) nobody k.tasks (held.closeAll pid).tasks := by
    apply huser.trans
    apply (keeps_closeAll held pid).mono
    · intro tid w h
      apply Or.inl
      simpa only [readersBehindPid, getFd, table, htables] using h
    · exact fun _ _ h => h
  apply hclosed.trans
  apply (keeps_releaseIrqForPid (held.closeAll pid) pid).mono
  · rintro tid w ⟨channelId, q, hpop, hmain, hipc⟩
    rw [audioPops_congr ((closeAll_audioTables held pid).trans haudio)] at hpop
    exact .inr ⟨channelId, q, hpop, (hclosed.mainTid q).symm.trans hmain, hipc⟩
  · exact fun _ _ h => h

theorem keeps_freeResources (k : Kernel) (cpu pid : Nat) :
    Keeps (k.resourceWaiters pid) nobody k.tasks (k.freeResources cpu pid).tasks := by
  have haddress := keeps_freeAddressSpace (A := k.resourceWaiters pid) (B := nobody)
    ((((k.detach cpu pid).freeDmaForPid pid).freePciMmioForPid pid).freeHeapForPid pid) cpu pid
  rw [freeHeapForPid_tasks, freePciMmioForPid_tasks, freeDmaForPid_tasks] at haddress
  rw [freeResources_detach, freeImageForPid_tasks]
  exact (keeps_detach k cpu pid).trans haddress

/-- Whom `exit_current` wakes when it tears a process down. -/
def teardownWaiters (k : Kernel) (cpu : Nat) : Sleepers := fun tid w =>
  w = .tid (k.tasks.currentTid cpu) ∨ (k.tasks.currentPid cpu ≠ 0 ∧
    (k.tasks.childrenOf (k.tasks.currentPid cpu) tid w ∨
      k.resourceWaiters (k.tasks.currentPid cpu) tid w ∨ w = .pid (k.tasks.currentPid cpu)))

/-- The thread that tears its process down, and those the process lists. -/
def tornDown (k : Kernel) (cpu tid : Nat) : Prop :=
  k.tasks.currentUserTid cpu = some tid ∨ (k.tasks.currentPid cpu ≠ 0 ∧
    ∃ p, k.tasks.process (k.tasks.currentPid cpu) = some p ∧ tid ∈ p.threads)

/-- The tables when the process is about to be removed. -/
def released (k : Kernel) (cpu : Nat) : Kernel :=
  let pid := k.tasks.currentPid cpu
  (k.onTasks (·.killChildren pid)).freeResources cpu pid

theorem keeps_released (k : Kernel) (cpu : Nat) (hpid : k.tasks.currentPid cpu ≠ 0) :
    Keeps (k.teardownWaiters cpu) nobody k.tasks (k.released cpu).tasks := by
  have hchildren := keeps_killChildren k.tasks (k.tasks.currentPid cpu)
  have hkilled : Keeps (k.teardownWaiters cpu) nobody k.tasks
      (k.tasks.killChildren (k.tasks.currentPid cpu)) :=
    hchildren.mono (fun _ _ h => .inr ⟨hpid, .inl h⟩) fun _ _ h => h
  apply hkilled.trans
  apply (keeps_freeResources (k.onTasks (·.killChildren (k.tasks.currentPid cpu))) cpu _).mono
  · intro tid w h
    apply Or.inr
    refine ⟨hpid, .inr (.inl ?_)⟩
    obtain h | ⟨channelId, q, hpop, hmain, hipc⟩ := h
    · exact .inl h
    · exact .inr ⟨channelId, q, hpop, (hchildren.mainTid q).symm.trans hmain, hipc⟩
  · exact fun _ _ h => h

theorem keeps_wakeupPidWaiters (ts : Tasks) (pid : Nat) :
    Keeps (sleepersOn (.pid pid)) nobody ts (wakeupPidWaiters ts pid) :=
  keeps_wakeAll_on ts.mem 1 (.pid pid) ts

/-- The tables before the thread that tears its process down is marked. -/
def withoutProcess (k : Kernel) (cpu : Nat) : Tasks :=
  let pid := k.tasks.currentPid cpu
  if pid = 0 then k.tasks.updateProcess 0 fun p => { p with state := .running }
  else
    (wakeupPidWaiters ((k.released cpu).tasks.removeProcess pid) pid).deferFreeKernelStack cpu
      (k.tasks.kernelStackBase (k.tasks.currentTid cpu))

@[simp]
theorem onTasks_tasks (k : Kernel) (f : Tasks → Tasks) : (k.onTasks f).tasks = f k.tasks := rfl

theorem teardown_tasks (k : Kernel) (cpu : Nat) :
    (k.teardown cpu).tasks =
      let ts := (k.withoutProcess cpu).clearCurrentPid cpu
      let tid := k.tasks.currentTid cpu
      if tid = 0 then ts
      else { ts with
        threads := (ts.threads.setState tid .exited).wakeupThreadWaiters ts.mem tid } := by
  unfold teardown withoutProcess released
  dsimp only
  by_cases hpid : k.tasks.currentPid cpu = 0
  · simp only [hpid, if_true]
    split <;> simp only [onTasks_tasks]
  · simp only [hpid, if_false]
    split <;> simp only [onTasks_tasks]

theorem ends_removed (k : Kernel) (cpu : Nat) (hpid : k.tasks.currentPid cpu ≠ 0) :
    Ends A (k.tornDown cpu) (k.released cpu).tasks
      ((k.released cpu).tasks.removeProcess (k.tasks.currentPid cpu)) := by
  apply ends_removeProcess
  intro p' hp' tid htid
  have hshape := (keeps_released k cpu hpid).process (k.tasks.currentPid cpu)
  rw [hp'] at hshape
  obtain ⟨p, hp, hsame⟩ := Option.map_eq_some_iff.mp hshape.symm
  have hthreads : p.threads = p'.threads := congrArg (·.2.2) hsame
  exact .inr ⟨hpid, p, hp, hthreads ▸ htid⟩

theorem ends_withoutProcess (hd : k.tasks.Distinct) (cpu : Nat) :
    Ends (k.teardownWaiters cpu) (k.tornDown cpu) k.tasks (k.withoutProcess cpu) := by
  unfold withoutProcess
  dsimp only
  split
  · exact (Keeps.refl k.tasks).ends.processes _
  · rename_i hpid
    have hwoken : Keeps (k.teardownWaiters cpu) nobody _ _ :=
      (keeps_wakeupPidWaiters ((k.released cpu).tasks.removeProcess (k.tasks.currentPid cpu))
        (k.tasks.currentPid cpu)).mono (fun _ _ h => .inr ⟨hpid, .inr (.inr h)⟩) fun _ _ h => h
    have hremoved := (keeps_released k cpu hpid).ends.trans (ends_removed k cpu hpid) hd.tids
    exact (hremoved.trans hwoken.ends hd.tids).deferFreeKernelStack _ _

theorem ends_marked (k : Kernel) (cpu : Nat)
    (hnodup : ((k.withoutProcess cpu).threads.map (·.tid)).Nodup) :
    Ends (sleepersOn (.tid (k.tasks.currentTid cpu)))
      (fun tid => k.tasks.currentUserTid cpu = some tid) (k.withoutProcess cpu)
      (k.teardown cpu).tasks := by
  have hcleared : Ends (sleepersOn (.tid (k.tasks.currentTid cpu)))
      (fun tid => k.tasks.currentUserTid cpu = some tid)
      (k.withoutProcess cpu) ((k.withoutProcess cpu).clearCurrentPid cpu) :=
    (keeps_clearCurrentPid _ cpu).ends
  rw [teardown_tasks]
  dsimp only
  split
  · exact hcleared
  · rename_i htid
    have hgone := currentUserTid_of_currentTid htid
    exact hcleared.trans (ends_exitThread (hcleared.tids.nodup hnodup) hgone) hnodup

theorem ends_teardown (hd : k.tasks.Distinct) (cpu : Nat) :
    Ends (k.teardownWaiters cpu) (k.tornDown cpu) k.tasks (k.teardown cpu).tasks := by
  have hremoved := ends_withoutProcess hd cpu
  have hmarked := ends_marked k cpu (hremoved.tids.nodup hd.tids)
  exact hremoved.trans (hmarked.mono (fun _ _ h => .inl h) fun _ h => .inl h) hd.tids

theorem withoutProcess_processes (k : Kernel) (cpu : Nat) :
    (k.teardown cpu).tasks.processes = (k.withoutProcess cpu).processes := by
  rw [teardown_tasks]
  dsimp only
  split
  · rfl
  · rfl

/-- Teardown removes exactly the current process. -/
theorem teardown_shapes (hd : k.tasks.Distinct) (cpu : Nat) :
    ((k.teardown cpu).tasks.processes.map Process.shape).Perm
      ((k.tasks.processes.map Process.shape).filter fun shape =>
        shape.1 ≠ k.tasks.currentPid cpu ∨ k.tasks.currentPid cpu = 0) := by
  rw [withoutProcess_processes, withoutProcess]
  split
  · rename_i hpid
    have hmark : Keeps nobody nobody k.tasks
        (k.tasks.updateProcess 0 fun p => { p with state := .running }) := by
      apply keeps_updateProcess
      intro p
      rfl
    rw [hmark.processes]
    simp [hpid]
  · rename_i hpid
    have hreleased := keeps_released k cpu hpid
    have hperm := removeProcess_shapes (hd.keeps hreleased).pids (k.tasks.currentPid cpu)
    rw [hreleased.processes] at hperm
    simp only [hpid, or_false]
    generalize (k.released cpu).tasks.removeProcess (k.tasks.currentPid cpu) = ts at hperm ⊢
    exact hperm

/-- Nobody goes on waiting for a process that was torn down. -/
theorem teardown_wakes_waiters (hd : k.tasks.Distinct)
    (hpid : k.tasks.currentPid cpu ≠ 0) (ht : t ∈ (k.teardown cpu).tasks.threads)
    (hsleeping : t.state = .sleeping) : t.waitTarget ≠ .pid (k.tasks.currentPid cpu) := by
  have hmarked := ends_marked k cpu ((ends_withoutProcess hd cpu).tids.nodup hd.tids)
  obtain hdead | ⟨t₀, ht₀, hmoves⟩ := hmarked.origin t ht
  · simp [Thread.dead, hsleeping] at hdead
  · obtain ⟨hsleeping₀, htarget⟩ := hmoves.stays hsleeping
    rw [htarget]
    intro hwaits
    rw [withoutProcess] at ht₀
    simp only [hpid, if_false] at ht₀
    generalize (k.released cpu).tasks.removeProcess (k.tasks.currentPid cpu) = ts at ht₀
    obtain ⟨u, -, rfl⟩ := List.mem_map.mp ht₀
    split at hsleeping₀
    · cases hsleeping₀
    · rename_i hother
      rw [if_neg hother] at hwaits
      exact hother (by simp [Thread.waitsOn, hsleeping₀, hwaits])

end KazuOS.Kernel
