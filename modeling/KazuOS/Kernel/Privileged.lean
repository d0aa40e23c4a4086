import KazuOS.Kernel.Effects
import KazuOS.Kernel.System
import KazuOS.Task.Killing

/-! Processes with driver privilege and kills. Every section of the kernel keeps the
privilege of a process; SIGTERM alone marks one without looking at it. -/
namespace KazuOS.Kernel

open KazuOS.Memory KazuOS.Task KazuOS.Task.Tasks

variable {k : Kernel}

theorem gentle_closeEntry (k : Kernel) (entry : FdEntry) :
    Gentle k.tasks (k.closeEntry entry).tasks := by
  unfold closeEntry
  split
  · rename_i id
    have hclosed : (k.closeWrite id).tasks = k.tasks := updatePipe_tasks k id _
    have hnotified : Gentle (k.closeWrite id).tasks ((k.closeWrite id).notifyPipeReaders id).tasks :=
      gentle_threads _ _
    rwa [hclosed] at hnotified
  · rw [closeRead, updatePipe_tasks]
    exact .refl _
  · exact .refl _

theorem gentle_freeFd (k : Kernel) (pid fd : Nat) : Gentle k.tasks (k.freeFd pid fd).2.tasks := by
  unfold freeFd
  split
  · exact .refl _
  · split
    · exact gentle_closeEntry k _
    · exact .refl _

theorem gentle_closeAll (k : Kernel) (pid : Nat) : Gentle k.tasks (k.closeAll pid).tasks := by
  unfold closeAll
  split
  · exact Gentle.foldl Kernel.tasks gentle_closeEntry _ k
  · exact .refl _

theorem gentle_wakeupIpcWaiter (k : Kernel) (pid retval : Nat) :
    Gentle k.tasks (k.wakeupIpcWaiter pid retval).tasks :=
  gentle_onMain k.tasks pid fun threads tid => threads.wakeupIpcWaiter k.tasks.mem tid retval

theorem gentle_enqueue (k : Kernel) (channelId : Nat) (c : Channel) (data : List UInt8) :
    Gentle k.tasks (k.enqueue channelId c data).tasks := by
  unfold enqueue
  split
  · exact .refl _
  · exact gentle_wakeupIpcWaiter (k.setSlot channelId _) _ 0

theorem gentle_dequeue (k : Kernel) (channelId : Nat) (c : Channel) (rest : List (List UInt8)) :
    Gentle k.tasks (k.dequeue channelId c rest).tasks := by
  unfold dequeue
  split
  · exact .refl _
  · exact gentle_wakeupIpcWaiter (k.setSlot channelId _) _ 0

theorem gentle_trySendReliable (k : Kernel) (channelId : Nat) (data : List UInt8) :
    Gentle k.tasks (k.trySendReliable channelId data).2.tasks := by
  unfold trySendReliable
  split
  · exact .refl _
  · split
    · exact .refl _
    · split
      · exact .refl _
      · exact gentle_enqueue k channelId _ data

theorem gentle_trySend (k : Kernel) (channelId : Nat) (data : List UInt8) :
    Gentle k.tasks (k.trySend channelId data).2.tasks := by
  unfold trySend
  split
  · exact .refl _
  · split
    · exact .refl _
    · exact gentle_enqueue k channelId _ data

theorem gentle_tryRecvNonblock (k : Kernel) (channelId bufLen : Nat) :
    Gentle k.tasks (k.tryRecvNonblock channelId bufLen).2.tasks := by
  unfold tryRecvNonblock
  split
  · exact .refl _
  · split
    · exact .refl _
    · exact gentle_dequeue k channelId _ _

theorem gentle_abortSenders (k : Kernel) (channelId : Nat) :
    Gentle k.tasks (k.abortSenders channelId).tasks := by
  unfold abortSenders
  split
  · exact .refl _
  · rename_i c _
    exact Gentle.foldl Kernel.tasks (fun k pid => gentle_wakeupIpcWaiter k pid 0) c.sendWaiters
      (k.setSlot channelId _)

/-- Blocking a process marks nothing. -/
theorem gentle_blocked (ts : Tasks) (pid : Nat) (target : WaitTarget) :
    Gentle ts ((ts.setWaitTarget pid target).setSleeping pid) :=
  (gentle_setWaitTarget ts pid target).trans (gentle_setSleeping _ pid)

theorem gentle_blockCurrent (ts : Tasks) (cpu : Nat) (target : WaitTarget) :
    Gentle ts (ts.blockCurrent cpu target) := by
  unfold Tasks.blockCurrent
  split
  · exact gentle_threads ts _
  · exact .refl ts

theorem gentle_blockMain (k : Kernel) (cpu : Nat) (target : WaitTarget) :
    Gentle k.tasks (k.blockMain cpu target).tasks := by
  unfold blockMain
  split
  · exact gentle_blocked k.tasks _ target
  · exact .refl _

/-! The calls that can block. -/

theorem gentle_sysSleep (k : Kernel) (cpu duration unit now : Nat) :
    Gentle k.tasks (k.sysSleep cpu duration unit now).2.tasks := by
  unfold sysSleep
  split
  · exact .refl _
  · split
    · exact gentle_blockCurrent k.tasks cpu _
    · split
      · exact .refl _
      · exact gentle_blockCurrent k.tasks cpu _

theorem gentle_sysWait (k : Kernel) (cpu pid : Nat) :
    Gentle k.tasks (k.sysWait cpu pid).2.tasks := by
  unfold sysWait
  split
  · exact .refl _
  · exact .refl _
  · exact gentle_blockCurrent k.tasks cpu _

theorem gentle_sysThreadJoin (k : Kernel) (cpu tid : Nat) :
    Gentle k.tasks (k.sysThreadJoin cpu tid).2.tasks := by
  unfold sysThreadJoin Tasks.joinCurrent
  by_cases hlive : k.tasks.threads.live tid = true
  · rw [if_pos hlive]
    exact gentle_blockCurrent k.tasks cpu _
  · rw [if_neg hlive]
    exact .refl _

theorem gentle_sysIrqWait (k : Kernel) (cpu arg : Nat) :
    Gentle k.tasks (k.sysIrqWait cpu arg).2.tasks := by
  unfold sysIrqWait
  dsimp only
  split
  · exact .refl _
  · split
    · exact .refl _
    · exact gentle_blockCurrent k.tasks cpu _

theorem gentle_readConsole (k : Kernel) (cpu : Nat) :
    Gentle k.tasks (k.readConsole cpu).2.tasks := by
  have htasks : (if k.kbdLockedOut cpu then (none, k) else k.getRaw).2.tasks = k.tasks := by
    split
    · rfl
    · exact getRaw_tasks k
  unfold readConsole
  split
  · rename_i h
    rw [h] at htasks
    rw [← htasks]
    exact .refl _
  · rename_i k' h
    rw [h] at htasks
    rw [← htasks]
    exact gentle_blockMain k' cpu .keyboard

theorem gentle_readPipeEnd (k : Kernel) (cpu pipeId bufPtr bufLen : Nat) :
    Gentle k.tasks (k.readPipeEnd cpu pipeId bufPtr bufLen).2.tasks := by
  unfold readPipeEnd
  split
  · exact .refl _
  · split
    · exact .refl _
    · exact gentle_blockMain k cpu _

theorem gentle_sysRead (k : Kernel) (cpu fd bufPtr bufLen available : Nat) :
    Gentle k.tasks (k.sysRead cpu fd bufPtr bufLen available).2.tasks := by
  unfold sysRead
  split
  · exact .refl _
  · split
    · exact .refl _
    · split
      · exact gentle_readConsole k cpu
      · exact gentle_readPipeEnd k cpu _ bufPtr bufLen
      · rw [readFile_tasks]
        exact .refl _
      · exact .refl _
      · exact .refl _

theorem gentle_sysIpcRecv (k : Kernel) (cpu channelId bufPtr bufLen : Nat) :
    Gentle k.tasks (k.sysIpcRecv cpu channelId bufPtr bufLen).2.tasks := by
  have hrecv : Gentle k.tasks (k.tryRecv channelId bufLen (k.callerPid cpu)).2.tasks := by
    unfold tryRecv
    split
    · exact .refl _
    · split
      · split
        · exact gentle_blocked k.tasks _ _
        · exact .refl _
      · exact gentle_dequeue k channelId _ _
  unfold sysIpcRecv
  split
  · exact .refl _
  · split
    · exact .refl _
    · split
      all_goals
        rename_i h
        rw [h] at hrecv
        exact hrecv

theorem gentle_sysIoctl (k : Kernel) (cpu fd cmd arg : Nat) :
    Gentle k.tasks (k.sysIoctl cpu fd cmd arg).2.tasks := by
  have hstatus : ∀ command data, Gentle k.tasks (audioStatus (k.sendAudio command data)).2.tasks := by
    intro command data
    have hsend : Gentle k.tasks (k.sendAudio command data).2.tasks := by
      unfold sendAudio
      split
      · exact gentle_trySendReliable k _ _
      · exact .refl _
    unfold audioStatus
    split
    · rename_i h
      rw [h] at hsend
      exact hsend
    · rename_i h
      rw [h] at hsend
      exact hsend
  have hspace : Gentle k.tasks (k.waitSendSpace k.audioChannel (k.callerPid cpu)).2.tasks := by
    unfold waitSendSpace
    split
    · exact .refl _
    · split
      · exact .refl _
      · split
        · exact gentle_blocked k.tasks _ _
        · exact .refl _
  unfold sysIoctl
  split
  · unfold audioIoctl
    split
    · exact hstatus _ _
    · exact hstatus _ _
    · exact hstatus _ _
    · split
      · split
        all_goals
          rename_i h
          rw [h] at hspace
          exact hspace
      · exact .refl _
    · exact .refl _
  · exact .refl _

theorem gentle_syscall (k : Kernel) (cpu : Nat) (call : Call) :
    Gentle k.tasks (k.syscall cpu call).2.tasks := by
  cases call with
  | read fd bufPtr bufLen available => exact gentle_sysRead k cpu fd bufPtr bufLen available
  | ipcRecv channelId bufPtr bufLen => exact gentle_sysIpcRecv k cpu channelId bufPtr bufLen
  | sleep duration unit now => exact gentle_sysSleep k cpu duration unit now
  | wait pid => exact gentle_sysWait k cpu pid
  | threadJoin tid => exact gentle_sysThreadJoin k cpu tid
  | irqWait irq => exact gentle_sysIrqWait k cpu irq
  | ioctl fd cmd arg => exact gentle_sysIoctl k cpu fd cmd arg

/-! The end of a process. -/

theorem gentle_releaseIrqForPid (k : Kernel) (pid : Nat) :
    Gentle k.tasks (k.releaseIrqForPid pid).tasks := by
  unfold releaseIrqForPid
  split
  · dsimp only
    split
    · exact gentle_abortSenders { k with audioOnline := false } k.audioChannel
    · exact .refl _
  · exact .refl _

theorem gentle_freeAddressSpace (k : Kernel) (cpu pid : Nat) :
    Gentle k.tasks (k.freeAddressSpace cpu pid).tasks := by
  unfold freeAddressSpace
  split
  · rename_i cr3 _
    have hcleanup : Gentle k.tasks (k.cleanupPid pid cr3).tasks := by
      unfold cleanupPid
      dsimp only
      split
      · exact .refl _
      · apply gentle_updateProcess
        intro p
        rfl
    exact hcleanup
  · exact .refl _

/-- Once the CPU has left the process, the rest of its end is gentle. -/
theorem gentle_freeResources (k : Kernel) (cpu pid : Nat) :
    Gentle (k.tasks.clearCurrentUser cpu pid) (k.freeResources cpu pid).tasks := by
  let held := (k.releaseFramebuffer pid).onTasks (·.clearCurrentUser cpu pid)
  have hheld : held.tasks = k.tasks.clearCurrentUser cpu pid := by
    obtain ⟨fbOwner, keyboard, h⟩ := k.releaseFramebuffer_eq pid
    simp only [held, h, onTasks_tasks]
  have hdetach : Gentle held.tasks (k.detach cpu pid).tasks :=
    (gentle_closeAll held pid).trans (gentle_releaseIrqForPid _ pid)
  have haddress := gentle_freeAddressSpace
    ((((k.detach cpu pid).freeDmaForPid pid).freePciMmioForPid pid).freeHeapForPid pid) cpu pid
  rw [freeHeapForPid_tasks, freePciMmioForPid_tasks, freeDmaForPid_tasks] at haddress
  rw [freeResources_detach, freeImageForPid_tasks, ← hheld]
  exact hdetach.trans haddress

theorem rights_freeResources (k : Kernel) (cpu pid : Nat) :
    (k.freeResources cpu pid).tasks.processes.map Process.rights =
      k.tasks.processes.map Process.rights := by
  rw [(gentle_freeResources k cpu pid).rights, Tasks.clearCurrentUser]
  split
  · rfl
  · rfl

theorem rights_released (k : Kernel) (cpu : Nat) :
    (k.released cpu).tasks.processes.map Process.rights =
      (k.tasks.killChildren (k.tasks.currentPid cpu)).processes.map Process.rights := by
  unfold released
  rw [rights_freeResources, onTasks_tasks]

theorem spares_teardown (k : Kernel) (cpu : Nat) : Spares k.tasks (k.teardown cpu).tasks := by
  apply Spares.trans (b := k.withoutProcess cpu) _
    (.of_processes (withoutProcess_processes k cpu))
  unfold withoutProcess
  dsimp only
  split
  · exact spares_updateProcess (fun _ => rfl) (fun _ => rfl) fun _ _ _ => id
  · have hreleased : Spares k.tasks (k.released cpu).tasks :=
      (spares_killChildren k.tasks _).trans (.of_rights (rights_released k cpu))
    have hremoved := spares_removeProcess (k.released cpu).tasks (k.tasks.currentPid cpu)
    generalize (k.released cpu).tasks = ts at hreleased hremoved ⊢
    exact hreleased.trans hremoved

/-! Every section. -/

/-- Sections without kills, new parents, starts, exits and dispatches. -/
def Action.gentle : Action → Bool
  | .async (.kill _) | .async (.sigint _) | .async (.sigterm _) | .async (.setParent _ _) => false
  | .async .sigtermAll | .async .sigkillAll | .async (.spawnProcess _ _ _ _ _ _ _) => false
  | .exitThread | .exitSelf | .teardown | .leave | .enter | .switch _ _ _ => false
  | _ => true

theorem gentle_async (k : Kernel) {a : Async} (h : (Action.async a).gentle = true) :
    Gentle k.tasks (a.apply k).tasks := by
  cases a with
  | key byte | keyFor pid byte | irq number | audio | notifyPipe pipeId =>
    exact gentle_threads k.tasks _
  | closeFd pid fd => exact gentle_freeFd k pid fd
  | send channelId data => exact gentle_trySend k channelId data
  | sendReliable channelId data => exact gentle_trySendReliable k channelId data
  | recvNonblock channelId bufLen => exact gentle_tryRecvNonblock k channelId bufLen
  | abortSenders channelId => exact gentle_abortSenders k channelId
  | driverExit pid => exact gentle_sendDriverExit k.tasks pid
  | signalCatch pid catchInt catchTerm =>
    apply gentle_updateProcess
    intro p
    rfl
  | launch pid => exact gentle_setReady k.tasks pid
  | _ => cases h

variable {action : Action} {s : System} {p : Plan}

theorem gentle_apply (k : Kernel) (cpu : Nat) (h : action.gentle = true) :
    Gentle k.tasks (action.apply k cpu).tasks := by
  cases action with
  | nothing => exact .refl _
  | async a => exact gentle_async k h
  | serve call => exact gentle_syscall k cpu call
  | waitBlock pid => exact gentle_blockCurrent k.tasks cpu _
  | consoleTarget => exact gentle_setWaitTarget k.tasks _ _
  | consoleSleep => exact gentle_setSleeping k.tasks _
  | spawnThread stack entry arg stackTop =>
    exact gentle_spawnUserThread k.tasks cpu stack entry arg stackTop
  | commit rsp =>
    simp only [Action.apply, onTasks_tasks, commitBlock]
    split
    · exact gentle_threads k.tasks _
    · exact .refl _
  | timers now | ticks => exact gentle_threads k.tasks _
  | preempt currentTid savedRsp ring3 =>
    simp only [Action.apply, onTasks_tasks, Tasks.preempt]
    split
    · exact .refl _
    · exact gentle_threads k.tasks _
  | other k' => exact ⟨rfl, rfl, rfl⟩
  | _ => cases h

/-- Sections that mark a process without a look at its privilege, or create one. -/
def Action.singlesOut : Action → Bool
  | .async (.sigterm _) | .async .sigtermAll | .async .sigkillAll => true
  | .async (.spawnProcess _ _ _ _ _ _ _) | .exitSelf => true
  | _ => false

theorem spares_apply (k : Kernel) (cpu : Nat) (h : action.singlesOut = false) :
    Spares k.tasks (action.apply k cpu).tasks := by
  cases hgentle : action.gentle with
  | true => exact .of_rights (gentle_apply k cpu hgentle).rights
  | false =>
    cases action with
    | async a =>
      cases a with
      | kill pid => exact spares_killPid k.tasks pid
      | sigint pid => exact spares_sendSigint k.tasks pid
      | sigterm pid => cases h
      | sigtermAll => cases h
      | sigkillAll => cases h
      | spawnProcess stack entry userStackTop cr3 privilege argc argv => cases h
      | setParent pid parent =>
        exact spares_updateProcess (fun _ => rfl) (fun _ => rfl) fun _ _ _ => id
      | _ => cases hgentle
    | exitThread => exact .of_rights (rights_exitCurrentThread k.tasks cpu)
    | exitSelf => cases h
    | teardown => exact spares_teardown k cpu
    | leave => exact .refl _
    | enter => exact .of_rights (rights_enterNextProcess k.tasks cpu)
    | switch currentTid ring3 hasReturnStack =>
      exact .of_rights (rights_timerSwitch k.tasks cpu currentTid ring3 hasReturnStack)
    | _ => cases hgentle

/-- No section changes a privilege. -/
theorem ranks_apply (hd : k.tasks.Distinct) (cpu : Nat) (action : Action) :
    Ranks k.tasks (action.apply k cpu).tasks ∨
      ∃ t p, SpawnsProcess k.tasks (action.apply k cpu).tasks t p := by
  cases hsingle : action.singlesOut with
  | false => exact .inl (spares_apply k cpu hsingle).ranks
  | true =>
    cases action with
    | async a =>
      cases a with
      | sigterm pid => exact .inl (ranks_sendSigterm k.tasks pid)
      | sigtermAll => exact .inl (ranks_shutdownAll Process.terminate_rank k.tasks)
      | sigkillAll =>
        apply Or.inl
        apply ranks_shutdownAll
        exact fun _ => ⟨rfl, rfl⟩
      | spawnProcess stack entry userStackTop cr3 privilege argc argv =>
        obtain h | h := spawnUserProcess_cases hd stack entry userStackTop cr3 privilege argc argv
        · exact .inl (Spares.of_processes (congrArg Tasks.processes h)).ranks
        · exact .inr h
      | _ => cases hsingle
    | exitSelf =>
      apply Or.inl
      simp only [Action.apply, exitSelf]
      split
      · have hmark : Ranks k.tasks (k.tasks.setKillPending (k.tasks.currentPid cpu)) := by
          apply ranks_updateProcess
          exact fun _ => ⟨rfl, rfl⟩
        exact hmark.trans (Spares.of_rights (rights_exitCurrentThread _ cpu)).ranks
      · exact (Spares.refl _).ranks
    | _ => cases hsingle

/-- Sections that users cause: the machine does not shut down, SYS_SIGTERM refuses pid 0,
and it is not a process with driver privilege that gives up one of its threads. -/
def byUsers (s : System) (p : Plan) : Bool :=
  let ts := s.kernel.tasks
  match p.action with
  | .async .sigtermAll | .async .sigkillAll => false
  | .async (.sigterm pid) => pid ≠ 0
  | .exitSelf => !(ts.privilegeLevel (ts.currentPid p.cpu)).isDriver || !(s.kernel.exitSelf p.cpu).1
  | _ => true

/-- SIGTERM is sent to no process with driver privilege that does not catch it. -/
def sparesDrivers (s : System) (p : Plan) : Bool :=
  match p.action with
  | .async (.sigterm pid) =>
      match s.kernel.tasks.process pid with
      | some q => !q.privilege.isDriver || q.sigtermCatch
      | none => true
  | _ => true

theorem exitSelf_spared (haction : p.action = .exitSelf) (husers : byUsers s p = true)
    (h : s.kernel.tasks.Spared) : (s.kernel.exitSelf p.cpu).2.tasks.Spared := by
  unfold exitSelf
  dsimp only
  split
  · rename_i hleaves
    have huser : (s.kernel.tasks.privilegeLevel (s.kernel.tasks.currentPid p.cpu)).isDriver =
        false := by
      simpa [byUsers, haction, exitSelf, hleaves] using husers
    exact ((spares_setKillPending huser).trans (.of_rights (rights_exitCurrentThread _ p.cpu))).spared h
  · exact h

theorem spared_apply (husers : byUsers s p = true) (hterm : sparesDrivers s p = true)
    (h : s.kernel.tasks.Spared) : (p.action.apply s.kernel p.cpu).tasks.Spared := by
  cases hsingle : p.action.singlesOut with
  | false => exact (spares_apply s.kernel p.cpu hsingle).spared h
  | true =>
    cases haction : p.action with
    | async a =>
      rw [haction] at hsingle
      cases a with
      | sigterm pid =>
        have hcatches : ∀ q, s.kernel.tasks.process pid = some q → q.privilege.isDriver = true →
            q.sigtermCatch = true := by
          intro q hq hdriver
          simpa [sparesDrivers, haction, hq, hdriver] using hterm
        exact (spares_sendSigterm hcatches).spared h
      | sigtermAll | sigkillAll => simp [byUsers, haction] at husers
      | spawnProcess stack entry userStackTop cr3 privilege argc argv =>
        exact spared_spawnUserProcess h stack entry userStackTop cr3 privilege argc argv
      | _ => cases hsingle
    | exitSelf => exact exitSelf_spared haction husers h
    | _ =>
      rw [haction] at hsingle
      cases hsingle

/-- Users mark no process with driver privilege, as long as SIGTERM meets only such
drivers that catch it. -/
theorem drivers_never_marked {k : Kernel} {cpuCount : Nat} {mem : Task.Memory}
    {es : List Event} {s : System}
    (run : Lib.Run (fun s e t => s.stepIf (fun s p => byUsers s p && sparesDrivers s p) e = some t)
      (.boot k cpuCount mem) es s)
    {p : Process} (hp : p ∈ s.kernel.tasks.processes) (hdriver : p.privilege.isDriver = true) :
    p.killPending = false := by
  have hspared : s.kernel.tasks.Spared := by
    apply run.preserves (I := fun s => s.kernel.tasks.Spared)
    · intro s e t hspared hstep
      obtain ⟨hstep, htest⟩ := System.stepIf_eq_some hstep
      obtain ⟨plan, hplan, hkernel, -⟩ := System.step_eq_some hstep
      have htests := htest plan hplan
      rw [Bool.and_eq_true] at htests
      rw [hkernel]
      exact spared_apply htests.1 htests.2 hspared
    · intro p hp _
      rw [List.mem_singleton.mp hp]
      rfl
  exact hspared p hp hdriver

/-- A driver, process 1, and a user process, 2. -/
def driverAndUser : List Event :=
  [.async (.spawnProcess (some 4096) 8192 12288 4096 .driver 0 0),
    .async (.spawnProcess (some 69632) 8192 12288 8192 .user 0 0), .async (.launch 1),
    .async (.launch 2), .enter 0, .enter 1]

/-- Kills and interrupts do not reach the driver. -/
theorem drivers_never_marked_one :
    ∃ (s : System) (p : Process), p ∈ s.kernel.tasks.processes ∧ p.pid = 1 ∧
      p.privilege = .driver ∧ p.killPending = false := by
  have hrun : ∃ s p, (driverAndUser ++ [Event.async (.kill 1), Event.async (.sigint 1),
        Event.async (.signalCatch 1 false true), Event.async (.sigterm 1)]).foldlM
          (System.stepIf fun s p => byUsers s p && sparesDrivers s p)
          (System.boot twoThreads 2 fun _ => 0) = some s ∧ s.kernel.tasks.process 1 = some p ∧
      p.pid = 1 ∧ p.privilege = .driver := ⟨_, _, rfl, rfl, rfl, rfl⟩
  obtain ⟨s, p, hrun, hp, hpid, hdriver⟩ := hrun
  have hmem := List.mem_of_find?_eq_some hp
  exact ⟨s, p, hmem, hpid, hdriver,
    drivers_never_marked (Lib.Run.of_foldlM hrun) hmem (by rw [hdriver]; rfl)⟩

/-- A SIGTERM from the user process marks the driver. -/
theorem sigterm_marks_driver :
    ∃ s p, Lib.Run (fun s e t => s.stepIf byUsers e = some t)
        (System.boot twoThreads 2 fun _ => 0) (driverAndUser ++ [.async (.sigterm 1)]) s ∧
      p ∈ s.kernel.tasks.processes ∧ p.privilege = .driver ∧ p.killPending = true :=
  ⟨_, _, Lib.Run.of_foldlM rfl, List.mem_of_find?_eq_some (p := (·.pid = 1)) rfl, rfl, rfl⟩

end KazuOS.Kernel
