import KazuOS.Kernel.Effects
import KazuOS.Kernel.System

/-! What each critical section can do to the tables: whom it wakes by design, whom it
wakes astray, whom it puts to sleep, and who starts or ends in it. -/
namespace KazuOS.Kernel

open KazuOS.Memory KazuOS.Task KazuOS.Task.Tasks

variable {A B : Sleepers} {k : Kernel}

/-- A main thread taken off the waiting list of the channel it sleeps on. -/
def channelWake (k : Kernel) (pops : List (Nat × Nat)) : Sleepers := fun tid w =>
  ∃ channelId pid, (channelId, pid) ∈ pops ∧ k.tasks.mainTid pid = some tid ∧ w = .ipc channelId

/-- A main thread taken off the waiting list of a channel while it sleeps on another. -/
def channelStray (k : Kernel) (pops : List (Nat × Nat)) : Sleepers := fun tid w =>
  ∃ channelId pid other, (channelId, pid) ∈ pops ∧ k.tasks.mainTid pid = some tid ∧
    w = .ipc other ∧ other ≠ channelId

theorem channelWake_or_stray {pops : List (Nat × Nat)} {tid : Nat} {w : WaitTarget}
    (h : k.poppedMains pops tid w) : k.channelWake pops tid w ∨ k.channelStray pops tid w := by
  obtain ⟨channelId, pid, hpop, hmain, hipc⟩ := h
  cases w with
  | ipc other =>
    by_cases hother : other = channelId
    · exact .inl ⟨channelId, pid, hpop, hmain, by rw [hother]⟩
    · exact .inr ⟨channelId, pid, other, hpop, hmain, rfl, hother⟩
  | _ => cases hipc

def Async.pops (k : Kernel) : Async → List (Nat × Nat)
  | .send channelId _ | .sendReliable channelId _ =>
      ((k.receivers channelId).take 1).map (channelId, ·)
  | .recvNonblock channelId _ => ((k.senders channelId).take 1).map (channelId, ·)
  | .abortSenders channelId => (k.senders channelId).map (channelId, ·)
  | _ => []

/-- The sleepers a waker, a signal or a kill is meant for. -/
def Async.wakes (k : Kernel) : Async → Sleepers
  | .key _ | .keyFor _ _ => sleepersOn .keyboard
  | .irq number => sleepersOn (.irq number)
  | .audio => sleepersOn .audio
  | .notifyPipe pipeId => pipeReaders pipeId
  | .closeFd pid fd => fun tid w => ∃ entry, k.getFd pid fd = some entry ∧ readersBehind entry tid w
  | .kill pid | .sigint pid | .sigterm pid | .driverExit pid => k.tasks.mainOf pid
  | .sigtermAll | .sigkillAll => k.tasks.userMains
  | a => k.channelWake (a.pops k)

namespace Action

/-- The sleepers a section is meant to wake: those whose target it serves and those a
signal or kill is addressed to. -/
def wakes (k : Kernel) (cpu : Nat) : Action → Sleepers
  | .async a => a.wakes k
  | .serve call => k.channelWake (call.pops k)
  | .exitThread | .exitSelf => sleepersOn (.tid (k.tasks.currentTid cpu))
  | .teardown => fun tid w =>
      let pid := k.tasks.currentPid cpu
      w = .tid (k.tasks.currentTid cpu) ∨ (pid ≠ 0 ∧ (k.tasks.childrenOf pid tid w ∨
        k.readersBehindPid pid tid w ∨ k.channelWake (k.audioPops pid) tid w ∨ w = .pid pid))
  | .timers now => fun _ w => Threads.timerExpired now w = true
  | .ticks => sleepersOn .tick
  | _ => nobody

/-- The other sleepers a section can make ready: the thread the timer interrupted, the
main thread `exec` starts, and main threads on the waiting list of a channel they do not
sleep on. -/
def strays (k : Kernel) (cpu : Nat) : Action → Sleepers
  | .async (.launch pid) => k.tasks.mainOf pid
  | .async a => k.channelStray (a.pops k)
  | .serve call => k.channelStray (call.pops k)
  | .teardown => fun tid w => k.tasks.currentPid cpu ≠ 0 ∧
      k.channelStray (k.audioPops (k.tasks.currentPid cpu)) tid w
  | .preempt currentTid _ _ => fun tid _ => tid = currentTid
  | _ => nobody

/-- The threads a section puts to sleep or gives another target. -/
def blocks (k : Kernel) (cpu : Nat) : Action → Sleepers
  | .serve call => call.blocks k cpu (k.syscall cpu call).1
  | .waitBlock pid => fun tid w => w = .pid pid ∧ k.tasks.currentUserTid cpu = some tid
  | .consoleTarget => fun tid w => k.tasks.mainTid (k.callerPid cpu) = some tid ∧ w = .keyboard
  | .consoleSleep => fun tid w => k.tasks.mainTid (k.callerPid cpu) = some tid ∧
      (k.tasks.threads.lookup tid).map (·.waitTarget) = some w
  | _ => nobody

/-- The sections that create and end nobody. -/
def quiet : Action → Bool
  | .async (.spawnProcess ..) | .spawnThread .. | .exitThread | .exitSelf | .teardown => false
  | _ => true

/-- Woken by design or astray. -/
def wakesAny (k : Kernel) (cpu : Nat) (action : Action) : Sleepers := fun tid w =>
  action.wakes k cpu tid w ∨ action.strays k cpu tid w

end Action

theorem keeps_async (k : Kernel) (cpu : Nat) (a : Async) (hquiet : (Action.async a).quiet = true) :
    Keeps ((Action.async a).wakesAny k cpu) nobody k.tasks (a.apply k).tasks := by
  cases a with
  | key byte | keyFor pid byte | irq number =>
    exact (keeps_wakeFirst_on _ _ _ _ k.tasks).weaken fun _ _ => .inl
  | audio => exact (keeps_wakeAll_on _ _ _ k.tasks).weaken fun _ _ => .inl
  | notifyPipe pipeId => exact (keeps_notifyPipeReaders k pipeId).weaken fun _ _ => .inl
  | closeFd pid fd => exact (keeps_freeFd k pid fd).weaken fun _ _ => .inl
  | send channelId data =>
    exact (keeps_trySend k channelId data).weaken fun _ _ h =>
      channelWake_or_stray (poppedMains_of_ipcMains h)
  | sendReliable channelId data =>
    exact (keeps_trySendReliable k channelId data).weaken fun _ _ h =>
      channelWake_or_stray (poppedMains_of_ipcMains h)
  | recvNonblock channelId bufLen =>
    exact (keeps_tryRecvNonblock k channelId bufLen).weaken fun _ _ h =>
      channelWake_or_stray (poppedMains_of_ipcMains h)
  | abortSenders channelId =>
    exact (keeps_abortSenders k channelId).weaken fun _ _ h =>
      channelWake_or_stray (poppedMains_of_ipcMains h)
  | kill pid => exact (keeps_killPid k.tasks pid).weaken fun _ _ => .inl
  | sigint pid => exact (keeps_sendSigint k.tasks pid).weaken fun _ _ => .inl
  | sigterm pid => exact (keeps_sendSigterm k.tasks pid).weaken fun _ _ => .inl
  | driverExit pid => exact (keeps_sendDriverExit k.tasks pid).weaken fun _ _ => .inl
  | sigtermAll => exact (keeps_shutdownAll terminate_shape k.tasks).weaken fun _ _ => .inl
  | sigkillAll =>
    have hmark : ∀ p : Process, Process.shape { p with killPending := true } = p.shape :=
      fun _ => rfl
    exact (keeps_shutdownAll hmark k.tasks).weaken fun _ _ => .inl
  | signalCatch pid catchInt catchTerm | setParent pid parent =>
    apply keeps_updateProcess
    intro p
    rfl
  | spawnProcess stack entry userStackTop cr3 privilege argc argv => cases hquiet
  | launch pid =>
    apply (keeps_readyMain _ k.tasks pid).weaken fun _ _ => .inr
    intro p
    obtain ⟨state, h⟩ := p.setReady_eq
    rw [h]
    rfl

theorem keeps_apply (hd : k.tasks.Distinct) (cpu : Nat) (action : Action)
    (hquiet : action.quiet = true) :
    Keeps (action.wakesAny k cpu) (action.blocks k cpu) k.tasks (action.apply k cpu).tasks := by
  cases action with
  | nothing => exact Keeps.refl _
  | async a => exact keeps_async k cpu a hquiet
  | serve call =>
    exact (keeps_syscall k cpu call).mono (fun _ _ => channelWake_or_stray) fun _ _ h => h
  | waitBlock pid =>
    exact (keeps_blockCurrent k.tasks cpu (.pid pid)).mono (fun _ _ h => h.elim) fun _ _ h => h
  | consoleTarget =>
    exact (keeps_setWaitTarget k.tasks _ _).mono (fun _ _ h => h.elim) fun _ _ h => h
  | consoleSleep => exact (keeps_setSleeping k.tasks _).mono (fun _ _ h => h.elim) fun _ _ h => h
  | spawnThread stack entry arg stackTop | exitThread | exitSelf | teardown => cases hquiet
  | commit rsp => exact keeps_commitBlock k.tasks cpu rsp
  | leave => exact keeps_leaveCpu k.tasks cpu
  | enter => exact keeps_enterNextProcess hd cpu
  | timers now => exact (keeps_wakeAll _ _ k.tasks).weaken fun _ _ => .inl
  | ticks => exact (keeps_wakeAll_on _ _ _ k.tasks).weaken fun _ _ => .inl
  | preempt currentTid savedRsp ring3 =>
    exact (keeps_preempt k.tasks currentTid savedRsp ring3).weaken fun _ _ => .inr
  | switch currentTid ring3 hasReturnStack =>
    exact keeps_timerSwitch hd cpu currentTid ring3 hasReturnStack
  | other k' =>
    have hrefl : Keeps ((Action.other k').wakesAny k cpu) nobody k.tasks k.tasks := Keeps.refl _
    exact ⟨hrefl.threads, rfl, rfl, rfl, hrefl.current⟩

/-! Sections that create or end someone. -/

theorem exitSelf_cases (k : Kernel) (cpu : Nat) :
    (k.exitSelf cpu = (false, k)) ∨
      (k.tasks.currentPid cpu ≠ 0 ∧ 1 < k.tasks.liveThreadCount (k.tasks.currentPid cpu) ∧
        k.exitSelf cpu = (true, k.onTasks fun ts =>
          (ts.setKillPending (k.tasks.currentPid cpu)).exitCurrentThread cpu)) := by
  unfold exitSelf
  dsimp only
  split
  · rename_i h
    exact .inr ⟨h.1, h.2, rfl⟩
  · exact .inl rfl

theorem keeps_setKillPending (ts : Tasks) (pid : Nat) : Keeps A B ts (ts.setKillPending pid) := by
  apply keeps_updateProcess
  intro p
  rfl

theorem ends_exitSelf (hd : k.tasks.Distinct) (cpu : Nat) :
    Ends (sleepersOn (.tid (k.tasks.currentTid cpu)))
      (fun tid => k.tasks.currentUserTid cpu = some tid) k.tasks (k.exitSelf cpu).2.tasks := by
  obtain h | ⟨-, -, h⟩ := exitSelf_cases k cpu
  · rw [h]
    exact (Keeps.refl _).ends
  · rw [h]
    have hmark := keeps_setKillPending (A := sleepersOn (.tid (k.tasks.currentTid cpu)))
      (B := nobody) k.tasks (k.tasks.currentPid cpu)
    have hexit := ends_exitCurrentThread (hd.keeps hmark).tids cpu
    exact hmark.ends.trans hexit hd.tids

theorem teardownWaiters_wakes {cpu tid : Nat} {w : WaitTarget} (h : k.teardownWaiters cpu tid w) :
    Action.teardown.wakesAny k cpu tid w := by
  obtain h | ⟨hpid, h | (h | h) | h⟩ := h
  · exact .inl (.inl h)
  · exact .inl (.inr ⟨hpid, .inl h⟩)
  · exact .inl (.inr ⟨hpid, .inr (.inl h)⟩)
  · obtain h | h := channelWake_or_stray h
    · exact .inl (.inr ⟨hpid, .inr (.inr (.inl h))⟩)
    · exact .inr ⟨hpid, h⟩
  · exact .inl (.inr ⟨hpid, .inr (.inr (.inr h))⟩)

/-- What a section does to the tables. -/
inductive Change (k : Kernel) (cpu : Nat) (action : Action) (b : Tasks) : Prop where
  | keeps (h : Keeps (action.wakesAny k cpu) (action.blocks k cpu) k.tasks b)
  | spawnsProcess {t : Thread} {p : Process} (h : SpawnsProcess k.tasks b t p)
  | spawnsThread {t : Thread} (h : SpawnsThread k.tasks b t)
  | leaves (h : Ends (action.wakesAny k cpu) (fun tid => k.tasks.currentUserTid cpu = some tid)
        k.tasks b)
      (shapes : b.processes.map Process.shape =
        Lib.modifyFirst (·.1 = k.tasks.currentPid cpu) (unlist (k.tasks.currentTid cpu))
          (k.tasks.processes.map Process.shape))
      (cause : action = .exitThread ∨ (k.tasks.currentPid cpu ≠ 0 ∧
        1 < k.tasks.liveThreadCount (k.tasks.currentPid cpu)))
  | ends (h : Ends (action.wakesAny k cpu) (k.tornDown cpu) k.tasks b)
      (shapes : (b.processes.map Process.shape).Perm
        ((k.tasks.processes.map Process.shape).filter fun shape =>
          shape.1 ≠ k.tasks.currentPid cpu ∨ k.tasks.currentPid cpu = 0))
      (cause : action = .teardown)

theorem apply_change (hd : k.tasks.Distinct) (cpu : Nat) (action : Action) :
    Change k cpu action (action.apply k cpu).tasks := by
  cases hquiet : action.quiet with
  | true => exact .keeps (keeps_apply hd cpu action hquiet)
  | false =>
    cases action with
    | async a =>
      cases a with
      | spawnProcess stack entry userStackTop cr3 privilege argc argv =>
        obtain h | ⟨t, p, h⟩ := spawnUserProcess_cases hd stack entry userStackTop cr3 privilege
          argc argv
        · apply Change.keeps
          simp only [Action.apply, Async.apply, onTasks_tasks, h]
          exact Keeps.refl _
        · exact .spawnsProcess h
      | _ => cases hquiet
    | spawnThread stack entry arg stackTop =>
      obtain h | ⟨t, h⟩ := spawnUserThread_cases hd cpu stack entry arg stackTop
      · apply Change.keeps
        simp only [Action.apply, onTasks_tasks, h]
        exact Keeps.refl _
      · exact .spawnsThread h
    | exitThread =>
      apply Change.leaves
      · exact (ends_exitCurrentThread hd.tids cpu).mono (fun _ _ => .inl) fun _ h => h
      · exact exitCurrentThread_shapes k.tasks cpu
      · exact .inl rfl
    | exitSelf =>
      obtain h | ⟨hpid, hcount, h⟩ := exitSelf_cases k cpu
      · apply Change.keeps
        simp only [Action.apply, h]
        exact Keeps.refl _
      · apply Change.leaves
        · exact (ends_exitSelf hd cpu).mono (fun _ _ => .inl) fun _ h => h
        · simp only [Action.apply, h, onTasks_tasks]
          rw [exitCurrentThread_shapes]
          have hmark := keeps_setKillPending (A := nobody) (B := nobody) k.tasks
            (k.tasks.currentPid cpu)
          rw [hmark.processes]
          rfl
        · exact .inr ⟨hpid, hcount⟩
    | teardown =>
      apply Change.ends
      · exact (ends_teardown hd cpu).mono (fun _ _ => teardownWaiters_wakes) fun _ h => h
      · exact teardown_shapes hd cpu
      · rfl
    | _ => cases hquiet

variable {a b : Tasks} {action : Action} {t : Thread} {cpu : Nat}

theorem Spawns.origin {t t' : Thread} (h : Spawns a b t) (ht' : t' ∈ b.threads) :
    t' ∈ a.threads ∨ (t'.tid = a.nextTid ∧ t'.waitTarget = .none) := by
  rw [h.threads, List.mem_append, List.mem_singleton] at ht'
  obtain hmem | rfl := ht'
  · exact .inl hmem
  · exact .inr ⟨h.tid, h.target⟩

/-- Where the threads after a section come from. -/
theorem Change.origin {b : Tasks} (h : Change k cpu action b) {t' : Thread} (ht' : t' ∈ b.threads) :
    t'.dead = true ∨
      (∃ t ∈ k.tasks.threads, Thread.Moves (action.wakesAny k cpu) (action.blocks k cpu) t t') ∨
      (t'.tid = k.tasks.nextTid ∧ t'.waitTarget = .none) := by
  have hends : ∀ {gone : Nat → Prop}, Ends (action.wakesAny k cpu) gone k.tasks b →
      t'.dead = true ∨
        ∃ t ∈ k.tasks.threads, Thread.Moves (action.wakesAny k cpu) (action.blocks k cpu) t t' := by
    intro gone h
    obtain hdead | ⟨t, ht, hmoves⟩ := h.origin t' ht'
    · exact .inl hdead
    · exact .inr ⟨t, ht, hmoves.mono (fun _ _ h => h) fun _ _ => False.elim⟩
  cases h with
  | keeps h => exact .inr (.inl (Lib.forall₂_mem_right h.threads ht'))
  | spawnsProcess h | spawnsThread h =>
    exact .inr ((Spawns.origin h.toSpawns ht').imp_left fun hmem => ⟨t', hmem, Thread.Moves.refl t'⟩)
  | leaves h _ _ | ends h _ _ => exact (hends h).imp_right .inl

theorem Spawns.freshTids (h : Spawns a b t) (hd : a.Distinct) :
    Fresh (b.threads.map (·.tid)) b.nextTid := by
  rw [h.threads, h.nextTid, List.map_append, List.map_singleton, h.tid]
  exact hd.freshTids.concat

theorem SpawnsProcess.distinct {p : Process} (h : SpawnsProcess a b t p)
    (hd : a.Distinct) : b.Distinct := by
  constructor
  · exact Spawns.freshTids h.toSpawns hd
  · rw [h.processes, h.nextPid, List.map_append, List.map_singleton, h.pid]
    exact hd.freshPids.concat
  · exact h.nextTid ▸ Nat.succ_pos _
  · exact h.nextPid ▸ Nat.succ_pos _

theorem SpawnsThread.pids (h : SpawnsThread a b t) :
    b.processes.map (·.pid) = a.processes.map (·.pid) := by
  rw [h.processes]
  apply Lib.map_key_modifyFirst
  intro p
  rfl

theorem Change.nextPid_le {b : Tasks} (h : Change k cpu action b) :
    k.tasks.nextPid ≤ b.nextPid := by
  cases h with
  | keeps h | spawnsThread h | leaves h _ _ | ends h _ _ => exact Nat.le_of_eq h.nextPid.symm
  | spawnsProcess h =>
    rw [h.nextPid]
    exact Nat.le_succ _

/-- Ids stay distinct. -/
theorem Change.distinct {b : Tasks} (h : Change k cpu action b)
    (hd : k.tasks.Distinct) : b.Distinct := by
  have hends : ∀ {gone : Nat → Prop}, Ends (action.wakesAny k cpu) gone k.tasks b →
      (b.processes.map (·.pid)).Subperm (k.tasks.processes.map (·.pid)) → b.Distinct := by
    intro gone h hpids
    constructor
    · rw [h.nextTid]
      exact hd.freshTids.subperm h.tids.subperm
    · rw [h.nextPid]
      exact hd.freshPids.subperm hpids
    · exact h.nextTid ▸ hd.tidPositive
    · exact h.nextPid ▸ hd.pidPositive
  cases h with
  | keeps h => exact hd.keeps h
  | spawnsProcess h => exact SpawnsProcess.distinct h hd
  | @spawnsThread t h =>
    constructor
    · exact Spawns.freshTids h.toSpawns hd
    · rw [SpawnsThread.pids h, h.nextPid]
      exact hd.freshPids
    · exact h.nextTid ▸ Nat.succ_pos _
    · exact h.nextPid ▸ hd.pidPositive
  | leaves h shapes _ =>
    apply hends h
    rw [pids_eq, pids_eq, shapes, Lib.map_key_modifyFirst]
    exact fun _ => rfl
  | ends h shapes _ =>
    apply hends h
    rw [pids_eq, pids_eq]
    exact (shapes.map _).subperm.trans (List.filter_sublist.map _).subperm

end KazuOS.Kernel
