import KazuOS.Kernel.Privileged
import KazuOS.Kernel.Wakeups

/-! What the kernel never takes back: the id of a process, its privilege, and the mark that it has
to die. -/
namespace KazuOS.Kernel

open KazuOS.Task KazuOS.Task.Tasks

/-- The same process later on. -/
structure Continues (p p' : Process) : Prop where
  pid : p'.pid = p.pid
  privilege : p'.privilege = p.privilege
  marked : p.killPending = true → p'.killPending = true

theorem Continues.refl (p : Process) : Continues p p := ⟨rfl, rfl, id⟩

theorem Continues.trans {p p' p'' : Process} (h : Continues p p') (h' : Continues p' p'') :
    Continues p p'' :=
  ⟨h'.pid.trans h.pid, h'.privilege.trans h.privilege, h'.marked ∘ h.marked⟩

theorem continues_terminate (p : Process) : Continues p p.terminate := by
  refine ⟨p.terminate_rank.1, p.terminate_rank.2, fun h => ?_⟩
  unfold Process.terminate
  split
  · exact h
  · rfl

theorem continues_marked (p : Process) : Continues p { p with killPending := true } :=
  ⟨rfl, rfl, fun _ => rfl⟩

/-- Every process has been there before. -/
def Carried (a b : Tasks) : Prop := ∀ p' ∈ b.processes, ∃ p ∈ a.processes, Continues p p'

namespace Carried

theorem of_processes {a b : Tasks} (h : b.processes = a.processes) : Carried a b :=
  fun p hp => ⟨p, h ▸ hp, .refl p⟩

theorem trans {a b c : Tasks} (h : Carried a b) (h' : Carried b c) : Carried a c := by
  intro p'' hp''
  obtain ⟨p', hp', hlater⟩ := h' p'' hp''
  obtain ⟨p, hp, hsooner⟩ := h p' hp'
  exact ⟨p, hp, hsooner.trans hlater⟩

theorem of_rights {a b : Tasks}
    (h : b.processes.map Process.rights = a.processes.map Process.rights) : Carried a b := by
  intro p' hp'
  have hin : p'.rights ∈ a.processes.map Process.rights := h ▸ List.mem_map_of_mem hp'
  obtain ⟨p, hp, hsame⟩ := List.mem_map.mp hin
  simp only [Process.rights, Prod.mk.injEq] at hsame
  exact ⟨p, hp, hsame.1.symm, hsame.2.1.symm, fun hmark => hsame.2.2.1 ▸ hmark⟩

end Carried

theorem carried_updateProcess {f : Process → Process} (hf : ∀ p, Continues p (f p)) (ts : Tasks)
    (pid : Nat) : Carried ts (ts.updateProcess pid f) := by
  intro p' hp'
  have hrel := Lib.forall₂_modifyFirst (R := Continues) Continues.refl (p := (·.pid = pid))
    ts.processes fun p _ => hf p
  exact Lib.forall₂_mem_right hrel hp'

theorem carried_killPid (ts : Tasks) (pid : Nat) : Carried ts (ts.killPid pid) := by
  have hmark := carried_updateProcess continues_marked ts pid
  unfold killPid
  split
  · exact .of_processes rfl
  · split
    · exact .of_processes rfl
    · split
      · exact .of_processes rfl
      · exact hmark.trans (.of_processes (onMain_processes _ _ _))

theorem carried_shutdownAll {mark : Process → Process} (hmark : ∀ p, Continues p (mark p))
    (ts : Tasks) : Carried ts (shutdownAll mark ts) := by
  intro p' hp'
  obtain ⟨p, hp, rfl⟩ := List.mem_map.mp hp'
  refine ⟨p, hp, ?_⟩
  split
  · exact .refl p
  · exact hmark p

theorem carried_killChildren (ts : Tasks) (pid : Nat) : Carried ts (ts.killChildren pid) :=
  Lib.foldl_related (R := Carried) (fun _ => .of_processes rfl) (fun _ _ _ => Carried.trans) id
    carried_killPid _ ts

theorem carried_teardown (k : Kernel) (cpu : Nat) : Carried k.tasks (k.teardown cpu).tasks := by
  apply Carried.trans (b := k.withoutProcess cpu) _
    (.of_processes (withoutProcess_processes k cpu))
  unfold withoutProcess
  dsimp only
  split
  · apply carried_updateProcess
    exact fun p => ⟨rfl, rfl, id⟩
  · have hreleased : Carried k.tasks (k.released cpu).tasks :=
      (carried_killChildren k.tasks _).trans (.of_rights (rights_released k cpu))
    generalize (k.released cpu).tasks = ts at hreleased ⊢
    exact fun p hp => hreleased p (mem_of_removeProcess hp)

theorem carried_apply {k : Kernel} (hd : k.tasks.Distinct) (cpu : Nat) (action : Action) :
    Carried k.tasks (action.apply k cpu).tasks ∨
      ∃ t p, SpawnsProcess k.tasks (action.apply k cpu).tasks t p := by
  cases hgentle : action.gentle with
  | true => exact .inl (.of_rights (gentle_apply k cpu hgentle).rights)
  | false =>
    cases action with
    | async a =>
      cases a with
      | kill pid => exact .inl (carried_killPid k.tasks pid)
      | sigint pid =>
        apply Or.inl
        simp only [Action.apply, Async.apply, onTasks_tasks, sendSigint]
        split
        · exact .of_processes rfl
        · split
          · exact .of_processes rfl
          · split
            · exact .of_rights (gentle_raiseSigint k.tasks _).rights
            · exact carried_killPid k.tasks pid
      | sigterm pid =>
        exact .inl ((carried_updateProcess continues_terminate k.tasks pid).trans
          (.of_processes (onMain_processes _ _ _)))
      | sigtermAll => exact .inl (carried_shutdownAll continues_terminate k.tasks)
      | sigkillAll => exact .inl (carried_shutdownAll continues_marked k.tasks)
      | spawnProcess stack entry userStackTop cr3 privilege argc argv =>
        obtain h | h := spawnUserProcess_cases hd stack entry userStackTop cr3 privilege argc argv
        · exact .inl (.of_processes (congrArg Tasks.processes h))
        · exact .inr h
      | setParent pid parent =>
        apply Or.inl
        apply carried_updateProcess
        exact fun p => ⟨rfl, rfl, id⟩
      | _ => cases hgentle
    | exitThread => exact .inl (.of_rights (rights_exitCurrentThread k.tasks cpu))
    | exitSelf =>
      apply Or.inl
      simp only [Action.apply, exitSelf]
      split
      · exact (carried_updateProcess continues_marked k.tasks _).trans
          (.of_rights (rights_exitCurrentThread _ cpu))
      · exact .of_processes rfl
    | teardown => exact .inl (carried_teardown k cpu)
    | leave => exact .inl (.of_processes rfl)
    | enter => exact .inl (.of_rights (rights_enterNextProcess k.tasks cpu))
    | switch currentTid ring3 hasReturnStack =>
      exact .inl (.of_rights (rights_timerSwitch k.tasks cpu currentTid ring3 hasReturnStack))
    | _ => cases hgentle

/-- Something holds of whoever has an id. Ids are given once, so that nobody new gets this one. -/
structure Settled (pid : Nat) (P : Process → Prop) (s : System) : Prop where
  distinct : s.kernel.tasks.Distinct
  issued : pid < s.kernel.tasks.nextPid
  holds : ∀ p ∈ s.kernel.tasks.processes, p.pid = pid → P p

section Settled

variable {pid : Nat} {P : Process → Prop} {s t : System}

theorem Settled.step (hP : ∀ p p', P p → Continues p p' → P p') {e : Event} (h : Settled pid P s)
    (hstep : s.step e = some t) : Settled pid P t := by
  obtain ⟨plan, -, hkernel, -⟩ := System.step_eq_some hstep
  refine ⟨step_distinct hstep h.distinct, ?_, ?_⟩
  · rw [hkernel]
    exact h.issued.trans_le (apply_change h.distinct plan.cpu plan.action).nextPid_le
  · intro p' hp' hpid
    rw [hkernel] at hp'
    obtain hcarried | ⟨_, q, hspawns⟩ := carried_apply h.distinct plan.cpu plan.action
    · obtain ⟨q, hq, hnext⟩ := hcarried p' hp'
      exact hP q p' (h.holds q hq (hnext.pid.symm.trans hpid)) hnext
    · rw [hspawns.processes, List.mem_append, List.mem_singleton] at hp'
      obtain hp' | rfl := hp'
      · exact h.holds p' hp' hpid
      · exact absurd h.issued (by rw [← hpid, hspawns.pid]; exact Nat.lt_irrefl _)

theorem Settled.run (hP : ∀ p p', P p → Continues p p' → P p') {es : List Event}
    (run : Lib.Run (fun s e t => s.step e = some t) s es t) (h : Settled pid P s) : Settled pid P t :=
  run.preserves (fun _ _ _ h hstep => h.step hP hstep) h

end Settled

section Runs

variable {k : Kernel} {cpuCount : Nat} {mem : Task.Memory} {es es' : List Event} {s t : System}
  (run : Lib.Run (fun s e t => s.step e = some t) (.boot k cpuCount mem) es s)
  (later : Lib.Run (fun s e t => s.step e = some t) s es' t)
include run

theorem distinct_of_run : s.kernel.tasks.Distinct :=
  run.preserves (I := fun s => s.kernel.tasks.Distinct)
    (fun _ _ _ hd hstep => step_distinct hstep hd) (boot_distinct k cpuCount mem)

include later

/-- Over all runs of all CPUs, a process keeps its privilege, and once it is marked it stays so
until it is gone. -/
theorem process_fate {p p' : Process} (hp : p ∈ s.kernel.tasks.processes)
    (hp' : p' ∈ t.kernel.tasks.processes) (hsame : p'.pid = p.pid) :
    p'.privilege = p.privilege ∧ (p.killPending = true → p'.killPending = true) := by
  have hdistinct := distinct_of_run run
  have hstart : Settled p.pid (Continues p) s := by
    refine ⟨hdistinct, hdistinct.freshPids.below _ (List.mem_map_of_mem hp), fun q hq hpid => ?_⟩
    obtain rfl := List.inj_on_of_nodup_map hdistinct.pids hq hp hpid
    exact .refl q
  have hcontinues := (hstart.run (fun _ _ => Continues.trans) later).holds p' hp' hsame
  exact ⟨hcontinues.privilege, hcontinues.marked⟩

/-- The id of a process that is gone never names another. -/
theorem pid_never_reused {pid : Nat} (hissued : pid < s.kernel.tasks.nextPid)
    (hgone : ∀ p ∈ s.kernel.tasks.processes, p.pid ≠ pid) {p : Process}
    (hp : p ∈ t.kernel.tasks.processes) : p.pid ≠ pid := by
  have hstart : Settled pid (fun _ => False) s := ⟨distinct_of_run run, hissued, hgone⟩
  exact (hstart.run (fun _ _ h _ => h) later).holds p hp

end Runs

theorem process_fate_killed : ∃ (s t : System) (p p' : Process), p ∈ s.kernel.tasks.processes ∧
    p.killPending = true ∧ p' ∈ t.kernel.tasks.processes ∧ p'.killPending = true := by
  have hrun : ∃ s t p p', (driverAndUser ++ [Event.async (.kill 2)]).foldlM System.step
        (.boot twoThreads 2 fun _ => 0) = some s ∧
      [Event.async (.signalCatch 2 true true), .async .sigtermAll].foldlM System.step s = some t ∧
      s.kernel.tasks.process 2 = some p ∧ t.kernel.tasks.process 2 = some p' ∧
      p.killPending = true ∧ p'.pid = p.pid := ⟨_, _, _, _, rfl, rfl, rfl, rfl, rfl, rfl⟩
  obtain ⟨s, t, p, p', run, later, hp, hp', hmark, hsame⟩ := hrun
  have hp := List.mem_of_find?_eq_some hp
  have hp' := List.mem_of_find?_eq_some hp'
  have hfate := process_fate (.of_foldlM run) (.of_foldlM later) hp hp' hsame
  exact ⟨s, t, p, p', hp, hmark, hp', hfate.2 hmark⟩

/-- Process 1 exits, and the next process is another. -/
theorem pid_never_reused_exit : ∃ s t : System, 1 < s.kernel.tasks.nextPid ∧
    ∀ p ∈ t.kernel.tasks.processes, p.pid ≠ 1 := by
  have hrun : ∃ s t, [Event.async (.spawnProcess (some 4096) 8192 12288 4096 .user 0 0),
      .async (.launch 1), .enter 0, .syscall 0 .exit, .advance 0 0, .advance 0 0, .advance 0 0,
      .advance 0 0].foldlM System.step (.boot twoThreads 2 fun _ => 0) = some s ∧
      [Event.async (.spawnProcess (some 69632) 8192 12288 8192 .user 0 0)].foldlM System.step s =
        some t ∧ s.kernel.tasks.processes.map (·.pid) = [0] ∧ s.kernel.tasks.nextPid = 2 :=
    ⟨_, _, rfl, rfl, rfl, rfl⟩
  obtain ⟨s, t, run, later, hpids, hnext⟩ := hrun
  have hissued : 1 < s.kernel.tasks.nextPid := by omega
  refine ⟨s, t, hissued, fun _ => pid_never_reused (.of_foldlM run) (.of_foldlM later) hissued ?_⟩
  intro p hp
  have hin : p.pid ∈ s.kernel.tasks.processes.map (·.pid) := List.mem_map_of_mem hp
  rw [hpids, List.mem_singleton] at hin
  omega

end KazuOS.Kernel
