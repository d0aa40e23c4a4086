import KazuOS.Kernel.Wakeups

/-! SYS_WAIT against process exits. Looking the process up and going to sleep are two
critical sections, so a thread can go to sleep on a process that has gone in between. -/
namespace KazuOS.Kernel

open KazuOS.Memory KazuOS.Task KazuOS.Task.Tasks

def hasProcess (ts : Tasks) (pid : Nat) : Bool := (ts.process pid).isSome

variable {k : Kernel} {pid : Nat}

theorem hasProcess_iff {ts : Tasks} :
    hasProcess ts pid = true ↔ pid ∈ ts.processes.map (·.pid) := by
  simp [hasProcess, process, List.find?_isSome]

/-- The section that goes to sleep on a process finds it present: that of SYS_WAIT, and the
second one of a console read should the main thread's target have become a process. -/
def waitsForPresent (s : System) (p : Plan) : Bool :=
  let ts := s.kernel.tasks
  match p.action with
  | .waitBlock pid => hasProcess ts pid
  | .consoleSleep =>
      match ((ts.mainTid (s.kernel.callerPid p.cpu)).bind ts.threads.lookup).map Thread.waitTarget with
      | some (.pid pid) => hasProcess ts pid
      | _ => true
  | _ => true

structure Waited (s : System) : Prop where
  distinct : s.kernel.tasks.Distinct
  present : ∀ t ∈ s.kernel.tasks.threads, ∀ pid, t.state = .sleeping → t.waitTarget = .pid pid →
    hasProcess s.kernel.tasks pid = true

/-- Only the teardown of a process takes it out of the table. -/
theorem Change.hasProcess {cpu : Nat} {action : Action} {b : Tasks}
    (h : Change k cpu action b) (hpid : hasProcess k.tasks pid = true) :
    hasProcess b pid = true ∨
      (action = .teardown ∧ k.tasks.currentPid cpu ≠ 0 ∧ pid = k.tasks.currentPid cpu) := by
  rw [hasProcess_iff] at hpid ⊢
  cases h with
  | keeps h =>
    rw [pids_eq, h.processes, ← pids_eq]
    exact .inl hpid
  | spawnsProcess h =>
    rw [h.processes, List.map_append]
    exact .inl (List.mem_append_left _ hpid)
  | spawnsThread h =>
    rw [SpawnsThread.pids h]
    exact .inl hpid
  | leaves h shapes _ =>
    apply Or.inl
    rw [pids_eq, shapes, Lib.map_key_modifyFirst]
    · rwa [← pids_eq]
    · exact fun _ => rfl
  | ends h shapes cause =>
    by_cases hgone : k.tasks.currentPid cpu ≠ 0 ∧ pid = k.tasks.currentPid cpu
    · exact .inr ⟨cause, hgone⟩
    · apply Or.inl
      rw [pids_eq] at hpid ⊢
      obtain ⟨shape, hshape, rfl⟩ := List.mem_map.mp hpid
      apply List.mem_map_of_mem
      apply shapes.mem_iff.mpr
      apply List.mem_filter.mpr
      refine ⟨hshape, ?_⟩
      rw [decide_eq_true_eq]
      by_cases hkernel : k.tasks.currentPid cpu = 0
      · exact .inr hkernel
      · exact .inl fun heq => hgone ⟨hkernel, heq⟩

/-- A call blocks on a process only if it has just found it. -/
theorem targetOf_pid {cpu pid : Nat} {call : Call}
    (hret : (k.syscall cpu call).1 = blockToScheduler) (htarget : .pid pid = k.targetOf cpu call) :
    hasProcess k.tasks pid = true := by
  cases call with
  | wait target =>
    cases htarget
    simp only [syscall, sysWait] at hret
    cases hinfo : k.tasks.info pid with
    | none =>
      rw [hinfo] at hret
      exact absurd hret (ne_blockToScheduler (by decide : 1 ≤ maxTransfer))
    | some state =>
      obtain ⟨p, hp, -⟩ := Option.map_eq_some_iff.mp hinfo
      have hfound := List.find?_some hp
      simp only [Bool.and_eq_true, decide_eq_true_eq] at hfound
      rw [hasProcess_iff, ← hfound.1]
      exact List.mem_map_of_mem (List.mem_of_find?_eq_some hp)
  | read fd bufPtr bufLen available | sleep duration unit now =>
    simp only [targetOf] at htarget
    split at htarget <;> cases htarget
  | ipcRecv channelId bufPtr bufLen | threadJoin tid | irqWait irq | ioctl fd cmd arg =>
    cases htarget

theorem blocks_pid {s : System} {p : Plan} (htest : waitsForPresent s p = true) {tid pid : Nat}
    (h : p.action.blocks s.kernel p.cpu tid (.pid pid)) : hasProcess s.kernel.tasks pid = true := by
  unfold waitsForPresent at htest
  cases haction : p.action with
  | serve call =>
    rw [haction] at h
    exact targetOf_pid h.1 h.2.1
  | waitBlock target =>
    rw [haction] at h htest
    cases h.1
    exact htest
  | consoleTarget =>
    rw [haction] at h
    cases h.2
  | consoleSleep =>
    rw [haction] at h htest
    simp only [h.1, Option.bind_some, h.2] at htest
    exact htest
  | _ =>
    rw [haction] at h
    exact h.elim

theorem step_waited {s t : System} {e : Event} (h : s.stepIf waitsForPresent e = some t)
    (hs : Waited s) : Waited t := by
  obtain ⟨hstep, htest⟩ := System.stepIf_eq_some h
  refine ⟨step_distinct hstep hs.distinct, ?_⟩
  obtain ⟨p, hplan, hkernel, -⟩ := System.step_eq_some hstep
  rw [hkernel]
  have hchange := apply_change hs.distinct p.cpu p.action
  intro thread hthread pid hsleeping htarget
  have hbefore : hasProcess s.kernel.tasks pid = true := by
    obtain hdead | ⟨before, hmem, hmoves⟩ | ⟨-, hnone⟩ := hchange.origin hthread
    · simp [Thread.dead, hsleeping] at hdead
    · obtain ⟨hsleeping', htarget'⟩ | hblocks := hmoves.asleep hsleeping
      · exact hs.present before hmem pid hsleeping' (htarget'.symm.trans htarget)
      · rw [htarget] at hblocks
        exact blocks_pid (htest p hplan) hblocks
    · cases hnone.symm.trans htarget
  obtain hafter | ⟨hteardown, hkernelPid, rfl⟩ := hchange.hasProcess hbefore
  · exact hafter
  · rw [hteardown] at hthread
    exact absurd htarget (teardown_wakes_waiters hs.distinct hkernelPid hthread hsleeping)

theorem boot_waited (k : Kernel) (cpuCount : Nat) (mem : Memory) :
    Waited (System.boot k cpuCount mem) := by
  refine ⟨boot_distinct k cpuCount mem, ?_⟩
  intro t ht
  cases ht

/-- In a run whose sections never go to sleep on a process that has gone, nobody ever
sleeps on a process that has gone. -/
theorem waited_process_present {k : Kernel} {cpuCount : Nat} {mem : Memory} {es : List Event}
    {s : System} (run : Lib.Run (fun s e t => s.stepIf waitsForPresent e = some t)
      (System.boot k cpuCount mem) es s) {t : Thread} {pid : Nat}
    (ht : t ∈ s.kernel.tasks.threads) (hsleeping : t.state = .sleeping)
    (htarget : t.waitTarget = .pid pid) : hasProcess s.kernel.tasks pid = true := by
  have hs := run.preserves (fun _ _ _ hs h => step_waited h hs) (boot_waited k cpuCount mem)
  exact hs.present t ht pid hsleeping htarget

/-- Process 1 on CPU 0 asks for process 2 on CPU 1. -/
def callsWait : List Event :=
  [.async (.spawnProcess (some 4096) 8192 12288 4096 .user 0 0),
    .async (.spawnProcess (some 69632) 8192 12288 8192 .user 0 0), .async (.launch 1),
    .async (.launch 2), .enter 0, .enter 1, .syscall 0 (.blocking (.wait 2)), .advance 0 0,
    .advance 0 0]

/-- Process 1 waits for process 2. -/
theorem waited_process_present_two :
    ∃ (s : System) (t : Thread), t ∈ s.kernel.tasks.threads ∧ t.state = .sleeping ∧
      t.waitTarget = .pid 2 ∧ hasProcess s.kernel.tasks 2 = true := by
  have hrun : ∃ s t, (callsWait ++ [Event.advance 0 0]).foldlM (System.stepIf waitsForPresent)
      (System.boot twoThreads 2 fun _ => 0) = some s ∧ s.kernel.tasks.threads.head? = some t ∧
      t.state = .sleeping ∧ t.waitTarget = .pid 2 := ⟨_, _, rfl, rfl, rfl, rfl⟩
  obtain ⟨s, t, hrun, ht, hsleeping, htarget⟩ := hrun
  have hmem := List.mem_of_head? ht
  exact ⟨s, t, hmem, hsleeping, htarget,
    waited_process_present (Lib.Run.of_foldlM hrun) hmem hsleeping htarget⟩

/-- Process 2 exits after process 1 has found it and before process 1 sleeps. -/
theorem exit_between_check_and_sleep :
    ∃ s t, Lib.Run (fun s e t => s.step e = some t) (System.boot twoThreads 2 fun _ => 0)
        (callsWait ++ [.syscall 1 .exit, .advance 1 0, .advance 1 0, .advance 1 0, .advance 1 0,
          .advance 0 0]) s ∧
      t ∈ s.kernel.tasks.threads ∧ t.state = .sleeping ∧ t.waitTarget = .pid 2 ∧
      hasProcess s.kernel.tasks 2 = false :=
  ⟨_, _, Lib.Run.of_foldlM rfl, List.mem_of_head? rfl, rfl, rfl, rfl⟩

end KazuOS.Kernel
