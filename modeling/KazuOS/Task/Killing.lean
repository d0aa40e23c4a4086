import KazuOS.Task.Lifecycle

/-! Kills and signals. A kill marks the process and wakes one of its threads, and the
mark is meant to spare every process with driver privilege. -/
namespace KazuOS.Task

/-- What holds of every entry after the first match is updated. -/
theorem Threads.forall_update {P : Thread → Prop} {f : Thread → Thread}
    (hf : ∀ t : Thread, P (f t)) (tid : Nat) (threads : Threads) :
    (∀ t ∈ threads.update tid f, P t) ↔ ∀ t ∈ threads.eraseP (·.tid = tid), P t := by
  unfold Threads.update
  induction threads with
  | nil => simp [Lib.modifyFirst]
  | cons t rest ih =>
    rw [Lib.modifyFirst, List.eraseP_cons]
    by_cases ht : t.tid = tid
    · simp [ht, hf]
    · simp [ht, ih]

namespace Thread

/-- Ready or running, unless the thread has ended. -/
def Awake (t : Thread) : Prop := t.dead = false → t.state = .ready ∨ t.state = .running

theorem awake_iff (t : Thread) : t.Awake ↔ t.state ≠ .sleeping := by
  unfold Awake dead
  cases t.state <;> simp

theorem setReady_awake (t : Thread) : t.setReady.Awake := by
  rw [awake_iff]
  unfold setReady
  split
  · simp
  · simp
  · simp
  · rename_i h
    exact h

end Thread

/-- What kills, privileges and parents are about. -/
def Process.rights (p : Process) : Nat × PrivilegeLevel × Bool × Nat :=
  (p.pid, p.privilege, p.killPending, p.parent)

theorem Process.terminate_rank (p : Process) :
    p.terminate.pid = p.pid ∧ p.terminate.privilege = p.privilege := by
  unfold terminate
  split
  · exact ⟨rfl, rfl⟩
  · exact ⟨rfl, rfl⟩

namespace Tasks

variable {a b c ts : Tasks}

theorem onMain_threads (ts : Tasks) (pid : Nat) (f : Threads → Nat → Threads) :
    (ts.onMain pid f).threads = (ts.mainTid pid).elim ts.threads (f ts.threads) := by
  unfold onMain
  split
  · rename_i h
    rw [h]
    rfl
  · rename_i h
    rw [h]
    rfl

variable {f : Process → Process} {pid : Nat}

variable {p : Process} {σ ι : Type*}

theorem killPid_threads (hpid : pid ≠ 0) (hp : ts.process pid = some p)
    (huser : p.privilege.isDriver = false) :
    (ts.killPid pid).threads = p.mainTid.elim ts.threads ts.threads.setReady := by
  have hmain : (ts.setKillPending pid).mainTid pid = p.mainTid := by
    unfold setKillPending
    rw [mainTid_updateProcess]
    · rw [mainTid, hp]
      rfl
    · exact fun _ => rfl
    · exact fun _ => rfl
  simp only [killPid, hpid, hp, huser, if_false]
  rw [if_neg Bool.false_ne_true, onMain_threads, hmain]
  rfl

/-- The threads a kill does not reach: all but the one the process was created with. -/
def unreached (ts : Tasks) (p : Process) : Threads :=
  ts.threads.eraseP fun t => p.mainTid = some t.tid

/-- A kill leaves no thread of the process asleep exactly if none but the main thread
sleeps. -/
theorem killPid_awakens_iff {pid : Nat} {p : Process} (hpid : pid ≠ 0)
    (hp : ts.process pid = some p) (huser : p.privilege.isDriver = false) :
    (∀ t ∈ (ts.killPid pid).threads, t.pid = pid → t.dead = false →
      t.state = .ready ∨ t.state = .running) ↔
      ∀ t ∈ ts.unreached p, t.pid = pid → t.state ≠ .sleeping := by
  rw [killPid_threads hpid hp huser, unreached]
  have hawake : ∀ t : Thread, (t.pid = pid → t.dead = false →
      t.state = .ready ∨ t.state = .running) ↔ (t.pid = pid → t.state ≠ .sleeping) :=
    fun t => imp_congr_right fun _ => t.awake_iff
  simp only [hawake]
  cases hmain : p.mainTid with
  | none => simp
  | some tid =>
    simp only [Option.elim_some, Option.some.injEq]
    have hreached := Threads.forall_update (P := fun t => t.pid = pid → t.state ≠ .sleeping)
      (f := Thread.setReady) (fun t _ => (Thread.awake_iff _).mp t.setReady_awake) tid ts.threads
    simpa only [Threads.setReady, eq_comm (a := tid)] using hreached

/-- A process with its main thread on CPU 0 and a second thread on CPU 1. -/
def twoThreaded : Tasks :=
  let ts := ((init 2 fun _ => 0).spawnUserProcess (some 0x10000) 0 0 0 .user 0 0).2
  let ts := (ts.setReady 1).setCurrentUserTid 0 (some 1)
  (ts.spawnUserThread 0 (some 0x20000) 0 0 0).2

theorem killPid_awakens_iff_twoThreaded :
    (twoThreaded.killPid 1).isKillPending 1 = true ∧
      ∀ t ∈ (twoThreaded.killPid 1).threads, t.pid = 1 → t.dead = false →
        t.state = .ready ∨ t.state = .running :=
  ⟨by decide, (killPid_awakens_iff (by decide) (p := { kernelProcess with
    pid := 1, state := .ready, privilege := .user, mainTid := some 1, threads := [1, 2] })
    (by decide) rfl).mpr (by decide)⟩

/-- A second thread that sleeps stays asleep. -/
theorem killPid_leaves_worker_asleep :
    (twoThreaded.block 2 .tick).privilegeLevel 1 = .user ∧
      ((twoThreaded.block 2 .tick).killPid 1).isKillPending 1 = true ∧
      ¬∀ t ∈ ((twoThreaded.block 2 .tick).killPid 1).threads, t.pid = 1 → t.dead = false →
        t.state = .ready ∨ t.state = .running := by
  decide

/-! What most sections leave alone. -/

/-- The process and the thread a CPU is in. -/
def occupant (ts : Tasks) (cpu : Nat) : Option Nat × Option Nat :=
  (ts.currentUserPid cpu, ts.currentUserTid cpu)

/-- The stacks on their way back to the kernel heap and those that are there. -/
def stash (ts : Tasks) : (Nat → Nat) × List Nat := (ts.pendingStackFree, ts.freedStacks)

/-- Nobody is marked or gets another parent, every CPU stays in its thread, and no stack is
given back. -/
structure Gentle (a b : Tasks) : Prop where
  rights : b.processes.map Process.rights = a.processes.map Process.rights
  occupant : b.occupant = a.occupant
  stash : b.stash = a.stash

theorem Gentle.refl (ts : Tasks) : Gentle ts ts := ⟨rfl, rfl, rfl⟩

theorem Gentle.trans (h : Gentle a b) (h' : Gentle b c) : Gentle a c :=
  ⟨h'.rights.trans h.rights, h'.occupant.trans h.occupant, h'.stash.trans h.stash⟩

theorem Gentle.foldl (tasks : σ → Tasks) {f : σ → ι → σ}
    (h : ∀ s i, Gentle (tasks s) (tasks (f s i))) (l : List ι) (s : σ) :
    Gentle (tasks s) (tasks (l.foldl f s)) :=
  Lib.foldl_related Gentle.refl (fun _ _ _ => Gentle.trans) tasks h l s

theorem gentle_threads (ts : Tasks) (threads : Threads) : Gentle ts { ts with threads } :=
  ⟨rfl, rfl, rfl⟩

theorem gentle_updateProcess (hf : ∀ p, (f p).rights = p.rights)
    (ts : Tasks) (pid : Nat) : Gentle ts (ts.updateProcess pid f) :=
  ⟨Lib.map_key_modifyFirst Process.rights hf _, rfl, rfl⟩

theorem gentle_onMain (ts : Tasks) (pid : Nat) (f : Threads → Nat → Threads) :
    Gentle ts (ts.onMain pid f) := by
  unfold onMain
  split
  · exact gentle_threads ts _
  · exact .refl ts

theorem gentle_setWaitTarget (ts : Tasks) (pid : Nat) (target : WaitTarget) :
    Gentle ts (ts.setWaitTarget pid target) := by
  unfold setWaitTarget
  exact gentle_onMain ts pid _

theorem gentle_setReady (ts : Tasks) (pid : Nat) : Gentle ts (ts.setReady pid) := by
  refine (gentle_updateProcess (fun p => ?_) ts pid).trans (gentle_onMain _ pid _)
  obtain ⟨state, h⟩ := p.setReady_eq
  rw [h]
  rfl

theorem gentle_setSleeping (ts : Tasks) (pid : Nat) : Gentle ts (ts.setSleeping pid) := by
  refine (gentle_updateProcess (fun p => ?_) ts pid).trans (gentle_onMain _ pid _)
  obtain ⟨state, h⟩ := p.setSleeping_eq
  rw [h]
  rfl

theorem gentle_raiseSigint (ts : Tasks) (p : Process) : Gentle ts (ts.raiseSigint p) := by
  have hmark : Gentle ts (ts.updateProcess p.pid fun p => { p with sigintPending := true }) := by
    apply gentle_updateProcess
    intro p
    rfl
  unfold raiseSigint
  dsimp only
  split
  · unfold interruptSleep
    split
    · exact hmark.trans (gentle_threads _ _)
    · exact hmark
  · exact hmark

theorem gentle_sendDriverExit (ts : Tasks) (pid : Nat) : Gentle ts (ts.sendDriverExit pid) := by
  unfold sendDriverExit
  split
  · exact .refl ts
  · exact gentle_raiseSigint ts _

theorem gentle_spawnUserThread (ts : Tasks) (cpu : Nat) (stack : Option Nat)
    (entry arg stackTop : Nat) : Gentle ts (ts.spawnUserThread cpu stack entry arg stackTop).2 := by
  have hcreate : ∀ cr3 level, Gentle ts (ts.createUserThread stack (ts.currentPid cpu) entry
      stackTop cr3 level arg 0).2 := by
    intro cr3 level
    have hkernel : Gentle ts (ts.createKernelThread stack (ts.currentPid cpu) entry 0 level).2 := by
      cases stack with
      | none => exact .refl ts
      | some base => exact ⟨rfl, rfl, rfl⟩
    unfold createUserThread
    split
    · rename_i created
      rw [created] at hkernel
      exact hkernel
    · rename_i created
      rw [created] at hkernel
      exact hkernel.trans (gentle_threads _ _)
  unfold spawnUserThread
  dsimp only
  split
  · exact .refl ts
  · split
    · exact .refl ts
    · rename_i cr3 _
      have hcreated := hcreate cr3 (ts.privilegeLevel (ts.currentPid cpu))
      split
      · rename_i created
        rw [created] at hcreated
        exact hcreated
      · rename_i created
        rw [created] at hcreated
        refine (hcreated.trans (gentle_updateProcess ?_ _ _)).trans (gentle_threads _ _)
        exact fun _ => rfl

/-! Who may be marked. -/

/-- Processes keep pid and privilege, and none with driver privilege is newly marked. -/
def Spares (a b : Tasks) : Prop :=
  ∀ p' ∈ b.processes, ∃ p ∈ a.processes, p'.pid = p.pid ∧ p'.privilege = p.privilege ∧
    (p.privilege.isDriver = true → p'.killPending = true → p.killPending = true)

theorem Spares.of_processes (h : b.processes = a.processes) : Spares a b := by
  intro p hp
  exact ⟨p, h ▸ hp, rfl, rfl, fun _ => id⟩

theorem Spares.of_rights (h : b.processes.map Process.rights = a.processes.map Process.rights) :
    Spares a b := by
  intro p' hp'
  have hin : p'.rights ∈ a.processes.map Process.rights := h ▸ List.mem_map_of_mem hp'
  obtain ⟨p, hp, hsame⟩ := List.mem_map.mp hin
  simp only [Process.rights, Prod.mk.injEq] at hsame
  obtain ⟨hpid, hprivilege, hmark, -⟩ := hsame
  exact ⟨p, hp, hpid.symm, hprivilege.symm, fun _ h => hmark ▸ h⟩

theorem Spares.refl (ts : Tasks) : Spares ts ts := .of_processes rfl

theorem Spares.trans (h : Spares a b) (h' : Spares b c) : Spares a c := by
  intro p'' hp''
  obtain ⟨p', hp', hpid', hprivilege', hmark'⟩ := h' p'' hp''
  obtain ⟨p, hp, hpid, hprivilege, hmark⟩ := h p' hp'
  refine ⟨p, hp, hpid'.trans hpid, hprivilege'.trans hprivilege, ?_⟩
  intro hdriver hmarked
  exact hmark hdriver (hmark' (hprivilege ▸ hdriver) hmarked)

theorem Spares.foldl (tasks : σ → Tasks) {f : σ → ι → σ}
    (h : ∀ s i, Spares (tasks s) (tasks (f s i))) (l : List ι) (s : σ) :
    Spares (tasks s) (tasks (l.foldl f s)) :=
  Lib.foldl_related Spares.refl (fun _ _ _ => Spares.trans) tasks h l s

theorem spares_updateProcess
    (hpid : ∀ p, (f p).pid = p.pid) (hprivilege : ∀ p, (f p).privilege = p.privilege)
    (hmark : ∀ p, ts.process pid = some p → p.privilege.isDriver = true →
      (f p).killPending = true → p.killPending = true) :
    Spares ts (ts.updateProcess pid f) := by
  intro p' hp'
  have hrel := Lib.forall₂_modifyFirst (R := fun p p' : Process =>
      p'.pid = p.pid ∧ p'.privilege = p.privilege ∧
        (p.privilege.isDriver = true → p'.killPending = true → p.killPending = true))
    (fun _ => ⟨rfl, rfl, fun _ => id⟩) ts.processes
    fun p hp => ⟨hpid p, hprivilege p, hmark p hp⟩
  exact Lib.forall₂_mem_right hrel hp'

theorem onMain_processes (ts : Tasks) (pid : Nat) (f : Threads → Nat → Threads) :
    (ts.onMain pid f).processes = ts.processes := by
  unfold onMain
  split
  · rfl
  · rfl

theorem Spares.onMain (h : Spares a b) (pid : Nat) (f : Threads → Nat → Threads) :
    Spares a (b.onMain pid f) :=
  h.trans (.of_processes (onMain_processes b pid f))

theorem spares_killPid (ts : Tasks) (pid : Nat) : Spares ts (ts.killPid pid) := by
  unfold killPid
  split
  · exact .refl ts
  · split
    · exact .refl ts
    · rename_i p hp
      split
      · exact .refl ts
      · rename_i huser
        apply Spares.onMain
        apply spares_updateProcess
        · exact fun _ => rfl
        · exact fun _ => rfl
        · intro q hq hdriver
          rw [hp] at hq
          cases hq
          exact absurd hdriver huser

theorem spares_killChildren (ts : Tasks) (pid : Nat) : Spares ts (ts.killChildren pid) :=
  Spares.foldl id spares_killPid _ ts

theorem spares_sendSigint (ts : Tasks) (pid : Nat) : Spares ts (ts.sendSigint pid) := by
  unfold sendSigint
  split
  · exact .refl ts
  · split
    · exact .refl ts
    · split
      · exact Spares.of_rights (gentle_raiseSigint ts _).rights
      · exact spares_killPid ts pid

/-- SIGTERM makes no test of its own. -/
theorem spares_sendSigterm
    (h : ∀ p, ts.process pid = some p → p.privilege.isDriver = true → p.sigtermCatch = true) :
    Spares ts (ts.sendSigterm pid) := by
  apply Spares.onMain
  apply spares_updateProcess
  · exact fun p => p.terminate_rank.1
  · exact fun p => p.terminate_rank.2
  · intro p hp hdriver
    rw [Process.terminate, if_pos (h p hp hdriver)]
    exact id

theorem spares_setKillPending (h : (ts.privilegeLevel pid).isDriver = false) :
    Spares ts (ts.setKillPending pid) := by
  apply spares_updateProcess
  · exact fun _ => rfl
  · exact fun _ => rfl
  · intro p hp hdriver
    rw [privilegeLevel, hp] at h
    exact absurd hdriver (Bool.eq_false_iff.mp h)

theorem rights_exitCurrentThread (ts : Tasks) (cpu : Nat) :
    (ts.exitCurrentThread cpu).processes.map Process.rights =
      ts.processes.map Process.rights := by
  rw [exitCurrentThread_processes]
  refine (gentle_updateProcess ?_ ts _).rights
  intro p
  rfl

theorem mem_of_removeProcess (hp : p ∈ (ts.removeProcess pid).processes) : p ∈ ts.processes := by
  unfold removeProcess at hp
  split at hp
  · rename_i pos q hpos _
    obtain ⟨hnone, -, -⟩ | ⟨pos', q', hpos', -, hat⟩ :=
      Lib.findIdx?_find?_cases (·.pid = pid) ts.processes
    · rw [hnone] at hpos
      cases hpos
    · rw [hpos'] at hpos
      cases hpos
      exact (Lib.perm_swapRemove hat).mem_iff.mpr (List.mem_cons_of_mem _ hp)
  · exact hp

theorem spares_removeProcess (ts : Tasks) (pid : Nat) : Spares ts (ts.removeProcess pid) :=
  fun p hp => ⟨p, mem_of_removeProcess hp, rfl, rfl, fun _ => id⟩

theorem rights_launch (ts : Tasks) (cpu tid : Nat) :
    (ts.launch cpu tid).processes.map Process.rights = ts.processes.map Process.rights := by
  have hrunning : ∀ pid, Gentle (ts.setCurrentUserTid cpu (some tid))
      ((ts.setCurrentUserTid cpu (some tid)).updateProcess pid Process.setRunning) := by
    intro pid
    apply gentle_updateProcess
    intro p
    obtain ⟨state, h⟩ := p.setRunning_eq
    rw [h]
    rfl
  unfold launch setRunning
  dsimp only
  split
  · exact (hrunning _).rights
  · exact (hrunning _).rights

theorem rights_dispatch (ts : Tasks) (cpu tid : Nat) (choose : Thread → Resumption × Thread) :
    (ts.dispatch cpu tid choose).2.processes.map Process.rights =
      ts.processes.map Process.rights :=
  rights_launch { ts with threads := ts.threads.update tid fun t => (choose t).2 } cpu tid

theorem rights_enterNextProcess (ts : Tasks) (cpu : Nat) :
    (ts.enterNextProcess cpu).2.processes.map Process.rights =
      ts.processes.map Process.rights := by
  unfold enterNextProcess
  split
  · rfl
  · exact rights_dispatch ts cpu _ _

theorem rights_timerSwitch (ts : Tasks) (cpu currentTid : Nat) (ring3 hasReturnStack : Bool) :
    (ts.timerSwitch cpu currentTid ring3 hasReturnStack).2.processes.map Process.rights =
      ts.processes.map Process.rights := by
  unfold timerSwitch
  split
  · rfl
  · split
    · rfl
    · exact rights_dispatch ts cpu _ _

/-- Processes keep pid and privilege. -/
def Ranks (a b : Tasks) : Prop :=
  ∀ p' ∈ b.processes, ∃ p ∈ a.processes, p'.pid = p.pid ∧ p'.privilege = p.privilege

theorem Spares.ranks (h : Spares a b) : Ranks a b := by
  intro p' hp'
  obtain ⟨p, hp, hpid, hprivilege, -⟩ := h p' hp'
  exact ⟨p, hp, hpid, hprivilege⟩

theorem Ranks.trans (h : Ranks a b) (h' : Ranks b c) : Ranks a c := by
  intro p'' hp''
  obtain ⟨p', hp', hpid', hprivilege'⟩ := h' p'' hp''
  obtain ⟨p, hp, hpid, hprivilege⟩ := h p' hp'
  exact ⟨p, hp, hpid'.trans hpid, hprivilege'.trans hprivilege⟩

theorem ranks_updateProcess (hf : ∀ p, (f p).pid = p.pid ∧
    (f p).privilege = p.privilege) (ts : Tasks) (pid : Nat) : Ranks ts (ts.updateProcess pid f) := by
  intro p' hp'
  have hrel := Lib.forall₂_modifyFirst
    (R := fun p p' : Process => p'.pid = p.pid ∧ p'.privilege = p.privilege)
    (fun _ => ⟨rfl, rfl⟩) (p := (·.pid = pid)) ts.processes fun p _ => hf p
  exact Lib.forall₂_mem_right hrel hp'

theorem ranks_sendSigterm (ts : Tasks) (pid : Nat) : Ranks ts (ts.sendSigterm pid) :=
  (ranks_updateProcess Process.terminate_rank ts pid).trans
    (Spares.of_processes (onMain_processes _ _ _)).ranks

theorem ranks_shutdownAll {mark : Process → Process}
    (hmark : ∀ p, (mark p).pid = p.pid ∧ (mark p).privilege = p.privilege) (ts : Tasks) :
    Ranks ts (shutdownAll mark ts) := by
  intro p' hp'
  obtain ⟨p, hp, rfl⟩ := List.mem_map.mp hp'
  refine ⟨p, hp, ?_⟩
  split
  · exact ⟨rfl, rfl⟩
  · exact hmark p

/-- No process with driver privilege is marked. -/
def Spared (ts : Tasks) : Prop :=
  ∀ p ∈ ts.processes, p.privilege.isDriver = true → p.killPending = false

theorem Spares.spared (h : Spares a b) (ha : a.Spared) : b.Spared := by
  intro p' hp' hdriver
  obtain ⟨p, hp, -, hprivilege, hmark⟩ := h p' hp'
  rw [hprivilege] at hdriver
  apply Bool.eq_false_iff.mpr
  intro hmarked
  exact Bool.eq_false_iff.mp (ha p hp hdriver) (hmark hdriver hmarked)

theorem spared_spawnUserProcess (h : ts.Spared) (stack : Option Nat)
    (entry userStackTop cr3 : Nat) (privilege : PrivilegeLevel) (argc argv : Nat) :
    (ts.spawnUserProcess stack entry userStackTop cr3 privilege argc argv).2.Spared := by
  have hkernel : (ts.createKernelThread stack 0 entry 0 privilege).2.processes = ts.processes := by
    cases stack with
    | none => rfl
    | some base => rfl
  -- Whatever id it gets, a new process starts unmarked.
  have hcreated : ∀ (ts' : Tasks) tid, ts'.processes = ts.processes →
      (ts'.createProcess privilege tid).2.Spared := by
    intro ts' tid hsame p hp hdriver
    simp only [createProcess, hsame, List.mem_append, List.mem_singleton] at hp
    obtain hp | rfl := hp
    · exact h p hp hdriver
    · rfl
  unfold spawnUserProcess
  split
  · rename_i created
    rw [created] at hkernel
    exact (Spares.of_processes hkernel).spared h
  · rename_i tid ts' _ created
    rw [created] at hkernel
    have hspared := hcreated ts' tid hkernel
    split
    · rename_i listed
      rw [listed] at hspared
      exact hspared
    · rename_i listed
      rw [listed] at hspared
      exact hspared

end Tasks

end KazuOS.Task
