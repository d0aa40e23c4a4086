import KazuOS.Kernel.Privileged
import KazuOS.Kernel.Wakeups

/-! I/O ports. A driver asks for ports, and the bitmap of the CPU it runs on lets ring 3
use them; no context switch and no exit touches the bitmap again. -/
namespace KazuOS.Kernel

open KazuOS.Memory KazuOS.Task KazuOS.Task.Tasks

/-- CPUs with a task state segment. -/
def maxCpus : Nat := 16

/-- The I/O permission bitmap of each CPU's TSS. A set bit blocks the port. -/
abbrev Iopb := Nat → Nat → Bool

def Iopb.init : Iopb := fun _ _ => true

def iopbAllowPortForCpu (iopb : Iopb) (port cpu : Nat) : Iopb :=
  if maxCpus ≤ cpu then iopb
  else Function.update iopb cpu (Function.update (iopb cpu) port false)

/-- The loop of SYS_IOPORT_REQUEST; `port + i` is a sum of 16-bit numbers. -/
def iopbAllowPorts (iopb : Iopb) (cpu port count : Nat) : Iopb :=
  (List.range count).foldl
    (fun iopb i => iopbAllowPortForCpu iopb ((port + i) % 2 ^ 16) cpu) iopb

def sysIoportRequest (k : Kernel) (iopb : Iopb) (cpu arg0 arg1 : Nat) : Nat × Iopb :=
  if !(k.tasks.privilegeLevel (k.callerPid cpu)).isDriver then (failure, iopb)
  else (0, iopbAllowPorts iopb cpu (arg0 % 2 ^ 16) (arg1 % 2 ^ 16))

/-- A request that was granted. -/
structure PortRequest where
  pid : Nat
  cpu : Nat
  port : Nat
  count : Nat

def PortRequest.Covers (r : PortRequest) (q : Nat) : Prop := r.port ≤ q ∧ q < r.port + r.count

structure PortSystem where
  system : System
  iopb : Iopb
  /-- Every request granted so far. -/
  requests : List PortRequest

inductive PortEvent where
  | step (e : Event)
  | request (cpu arg0 arg1 : Nat)

namespace PortSystem

def currentUserPid (s : PortSystem) (cpu : Nat) : Option Nat :=
  s.system.kernel.tasks.currentUserPid cpu

/-- The call is made by ring 3 code outside a timer interrupt. -/
def request (s : PortSystem) (cpu arg0 arg1 : Nat) : Option PortSystem :=
  let k := s.system.kernel
  if (s.system.control.executes cpu).isSome && s.system.control.ring3 cpu then
    match k.sysIoportRequest s.iopb cpu arg0 arg1 with
    | (0, iopb) =>
        let granted := ⟨k.callerPid cpu, cpu, arg0 % 2 ^ 16, arg1 % 2 ^ 16⟩
        some { s with iopb, requests := granted :: s.requests }
    | (_, iopb) => some { s with iopb }
  else none

def step (s : PortSystem) : PortEvent → Option PortSystem
  | .step e => (s.system.step e).map fun system => { s with system }
  | .request cpu arg0 arg1 => s.request cpu arg0 arg1

def boot (k : Kernel) (cpuCount : Nat) (mem : Task.Memory) : PortSystem :=
  ⟨.boot k cpuCount mem, .init, []⟩

/-- A thread of the process runs in ring 3 on the CPU. -/
def Executes (s : PortSystem) (cpu pid : Nat) : Prop :=
  s.system.control.ring3 cpu = true ∧ s.currentUserPid cpu = some pid

/-- A process has itself asked for a port. -/
def Requested (s : PortSystem) (pid q : Nat) : Prop :=
  ∃ r ∈ s.requests, r.pid = pid ∧ r.Covers q

/-- A process has asked for every port that anyone asked for on a CPU. -/
def Admits (s : PortSystem) (cpu pid : Nat) : Prop :=
  ∀ r ∈ s.requests, r.cpu = cpu → ∀ q, r.Covers q → s.Requested pid q

end PortSystem

/-- The requested ports exist. -/
def PortEvent.inRange : PortEvent → Bool
  | .step _ => true
  | .request _ arg0 arg1 => arg0 % 2 ^ 16 + arg1 % 2 ^ 16 ≤ 2 ^ 16

/-- A step that asks for existing ports only, and puts on a CPU only a process that has
asked for all ports requested there. -/
structure CarefulPortStep (s : PortSystem) (e : PortEvent) (t : PortSystem) : Prop where
  step : s.step e = some t
  inRange : e.inRange = true
  admits : ∀ cpu pid, t.currentUserPid cpu = some pid → s.currentUserPid cpu ≠ some pid →
    s.Admits cpu pid

/-! What a request does. -/

theorem iopbAllowPorts_blocks {iopb : Iopb} {cpu port count c q : Nat}
    (h : iopbAllowPorts iopb cpu port count c q = false) :
    iopb c q = false ∨ (c = cpu ∧ ∃ i < count, q = (port + i) % 2 ^ 16) := by
  unfold iopbAllowPorts at h
  induction count with
  | zero => exact .inl h
  | succ count ih =>
    rw [List.range_succ, List.foldl_append, List.foldl_cons, List.foldl_nil] at h
    generalize (List.range count).foldl _ iopb = allowed at h ih
    have hearlier : allowed c q = false →
        iopb c q = false ∨ (c = cpu ∧ ∃ i < count + 1, q = (port + i) % 2 ^ 16) := by
      intro hallowed
      obtain h | ⟨hc, i, hi, hq⟩ := ih hallowed
      · exact .inl h
      · exact .inr ⟨hc, i, Nat.lt_succ_of_lt hi, hq⟩
    unfold iopbAllowPortForCpu at h
    split at h
    · exact hearlier h
    · by_cases hc : c = cpu
      · subst hc
        rw [Function.update_self] at h
        by_cases hq : q = (port + count) % 2 ^ 16
        · exact .inr ⟨rfl, count, Nat.lt_succ_self count, hq⟩
        · rw [Function.update_of_ne hq] at h
          exact hearlier h
      · rw [Function.update_of_ne hc] at h
        exact hearlier h

variable {s t : PortSystem}

variable {cpu arg0 arg1 : Nat} {e : PortEvent}

/-- A request by a process without the privilege changes nothing. -/
theorem request_cases (h : s.request cpu arg0 arg1 = some t) :
    t = s ∨ ((s.system.kernel.tasks.privilegeLevel (s.system.kernel.callerPid cpu)).isDriver = true ∧
      t = { s with
        iopb := iopbAllowPorts s.iopb cpu (arg0 % 2 ^ 16) (arg1 % 2 ^ 16)
        requests := ⟨s.system.kernel.callerPid cpu, cpu, arg0 % 2 ^ 16, arg1 % 2 ^ 16⟩ ::
          s.requests }) := by
  unfold PortSystem.request at h
  dsimp only at h
  split at h
  · cases hdriver : (s.system.kernel.tasks.privilegeLevel
        (s.system.kernel.callerPid cpu)).isDriver with
    | false =>
      simp only [sysIoportRequest, hdriver, Bool.not_false, if_true] at h
      cases h
      exact .inl rfl
    | true =>
      simp only [sysIoportRequest, hdriver, Bool.not_true, Bool.false_eq_true, if_false] at h
      cases h
      exact .inr ⟨rfl, rfl⟩
  · cases h

/-! The invariant. -/

structure Fenced (s : PortSystem) : Prop where
  distinct : s.system.kernel.tasks.Distinct
  allowed : ∀ cpu q, s.iopb cpu q = false → ∃ r ∈ s.requests, r.cpu = cpu ∧ r.Covers q
  inRange : ∀ r ∈ s.requests, r.port + r.count ≤ 2 ^ 16
  /-- Only drivers have asked, and their ids are not given to others. -/
  asked : ∀ r ∈ s.requests, r.pid < s.system.kernel.tasks.nextPid
  driver : ∀ r ∈ s.requests, ∀ p ∈ s.system.kernel.tasks.processes, p.pid = r.pid →
    p.privilege.isDriver = true
  admits : ∀ cpu pid, s.currentUserPid cpu = some pid → s.Admits cpu pid

theorem boot_fenced (k : Kernel) (cpuCount : Nat) (mem : Task.Memory) :
    Fenced (.boot k cpuCount mem) := by
  constructor
  · exact boot_distinct k cpuCount mem
  · intro cpu q h
    cases h
  · intro r hr
    cases hr
  · intro r hr
    cases hr
  · intro r hr
    cases hr
  · intro cpu pid h
    cases h

/-- An id from which a process with the privilege has asked. -/
theorem process_of_driver {ts : Tasks} {pid : Nat} (h : (ts.privilegeLevel pid).isDriver = true) :
    ∃ p ∈ ts.processes, p.pid = pid ∧ p.privilege.isDriver = true := by
  unfold privilegeLevel at h
  cases hp : ts.process pid with
  | none =>
    rw [hp] at h
    cases h
  | some p =>
    rw [hp] at h
    have hpid : p.pid = pid := by simpa using List.find?_some hp
    exact ⟨p, List.mem_of_find?_eq_some hp, hpid, h⟩

theorem Fenced.request (hs : Fenced s) (hrange : arg0 % 2 ^ 16 + arg1 % 2 ^ 16 ≤ 2 ^ 16)
    (h : s.request cpu arg0 arg1 = some t) : Fenced t := by
  obtain rfl | ⟨hdriver, rfl⟩ := request_cases h
  · exact hs
  · obtain ⟨p, hp, hpid, hprivilege⟩ := process_of_driver hdriver
    constructor
    · exact hs.distinct
    · intro c q hq
      obtain hq | ⟨rfl, i, hi, rfl⟩ := iopbAllowPorts_blocks hq
      · obtain ⟨r, hr, hcovers⟩ := hs.allowed c q hq
        exact ⟨r, List.mem_cons_of_mem _ hr, hcovers⟩
      · refine ⟨_, List.mem_cons_self, rfl, ?_⟩
        have hlt : arg0 % 2 ^ 16 + i < 2 ^ 16 :=
          Nat.lt_of_lt_of_le (Nat.add_lt_add_left hi _) hrange
        rw [Nat.mod_eq_of_lt hlt]
        exact ⟨Nat.le_add_right _ _, Nat.add_lt_add_left hi _⟩
    · intro r hr
      obtain rfl | hr := List.mem_cons.mp hr
      · exact hrange
      · exact hs.inRange r hr
    · intro r hr
      obtain rfl | hr := List.mem_cons.mp hr
      · exact hs.distinct.freshPids.below _ (hpid ▸ List.mem_map_of_mem hp)
      · exact hs.asked r hr
    · intro r hr p' hp' hsame
      obtain rfl | hr := List.mem_cons.mp hr
      · have heq : p' = p :=
          List.inj_on_of_nodup_map hs.distinct.pids hp' hp (hsame.trans hpid.symm)
        rw [heq]
        exact hprivilege
      · exact hs.driver r hr p' hp' hsame
    · intro c pid hcurrent r hr hcpu q hq
      obtain rfl | hr := List.mem_cons.mp hr
      · -- The process that asks is the one the CPU runs.
        refine ⟨_, List.mem_cons_self, ?_, hq⟩
        cases hcpu
        exact congrArg (Option.getD · 0) hcurrent
      · obtain ⟨r', hr', hown⟩ := hs.admits c pid hcurrent r hr hcpu q hq
        exact ⟨r', List.mem_cons_of_mem _ hr', hown⟩

theorem Fenced.step {e : Event} (hs : Fenced s) (h : CarefulPortStep s (.step e) t) : Fenced t := by
  obtain ⟨system, hstep, rfl⟩ := Option.map_eq_some_iff.mp h.step
  obtain ⟨plan, -, hkernel, -⟩ := System.step_eq_some hstep
  constructor
  · exact step_distinct hstep hs.distinct
  · exact hs.allowed
  · exact hs.inRange
  · intro r hr
    simp only [hkernel]
    exact Nat.lt_of_lt_of_le (hs.asked r hr)
      (apply_change hs.distinct plan.cpu plan.action).nextPid_le
  · intro r hr p' hp' hsame
    simp only [hkernel] at hp'
    obtain hranks | ⟨t, p, hspawns⟩ := ranks_apply hs.distinct plan.cpu plan.action
    · obtain ⟨p, hp, hpid, hprivilege⟩ := hranks p' hp'
      rw [hprivilege]
      exact hs.driver r hr p hp (hpid ▸ hsame)
    · rw [hspawns.processes] at hp'
      obtain hp' | hp' := List.mem_append.mp hp'
      · exact hs.driver r hr p' hp' hsame
      · cases List.mem_singleton.mp hp'
        rw [hspawns.pid] at hsame
        exact absurd (hs.asked r hr) (Nat.not_lt.mpr (Nat.le_of_eq hsame))
  · intro cpu pid hcurrent
    by_cases hbefore : s.currentUserPid cpu = some pid
    · exact hs.admits cpu pid hbefore
    · exact h.admits cpu pid hcurrent hbefore

theorem Fenced.careful (hs : Fenced s) (h : CarefulPortStep s e t) : Fenced t := by
  cases e with
  | step e => exact hs.step h
  | request cpu arg0 arg1 =>
    exact hs.request (by simpa [PortEvent.inRange] using h.inRange) h.step

/-- Ring 3 uses no port that its process, a driver, has not asked for. -/
theorem ports_of_requester {k : Kernel} {cpuCount : Nat} {mem : Task.Memory} {es : List PortEvent}
    {s : PortSystem} (run : Lib.Run CarefulPortStep (.boot k cpuCount mem) es s) {cpu q : Nat}
    {p : Process} (hp : p ∈ s.system.kernel.tasks.processes) (hexecutes : s.Executes cpu p.pid)
    (hq : s.iopb cpu q = false) :
    p.privilege.isDriver = true ∧ ∃ r ∈ s.requests, r.pid = p.pid ∧ r.Covers q ∧
      r.port + r.count ≤ 65536 := by
  have hs : Fenced s := run.preserves (fun _ _ _ hs h => hs.careful h) (boot_fenced k cpuCount mem)
  obtain ⟨r, hr, hcpu, hcovers⟩ := hs.allowed cpu q hq
  obtain ⟨own, hown, hpid, hcovers⟩ := hs.admits cpu p.pid hexecutes.2 r hr hcpu q hcovers
  exact ⟨hs.driver own hown p hp hpid.symm, own, hown, hpid, hcovers, hs.inRange own hown⟩

theorem CarefulPortStep.first (h : s.step e = some t)
    (hrange : e.inRange = true) (hnone : s.requests = []) : CarefulPortStep s e t := by
  refine ⟨h, hrange, ?_⟩
  intro cpu pid _ _ r hr
  rw [hnone] at hr
  cases hr

/-- The driver on CPU 0 asks for the keyboard's data port. -/
theorem ports_of_requester_keyboard :
    ∃ (s : PortSystem) (p : Process), s.Executes 0 p.pid ∧ s.iopb 0 0x60 = false ∧
      p.privilege.isDriver = true ∧ ∃ r ∈ s.requests, r.pid = p.pid ∧ r.Covers 0x60 ∧
        r.port + r.count ≤ 65536 := by
  have hrun : ∃ s p, Lib.Run CarefulPortStep (.boot twoThreads 1 fun _ => 0)
      [.step (.async (.spawnProcess (some 4096) 8192 12288 4096 .driver 0 0)),
        .step (.async (.launch 1)), .step (.enter 0), .request 0 0x60 1] s ∧
      s.system.kernel.tasks.process 1 = some p ∧ s.Executes 0 p.pid ∧
      s.iopb 0 0x60 = false :=
    ⟨_, _, .cons (.first rfl rfl rfl) <| .cons (.first rfl rfl rfl) <|
      .cons (.first rfl rfl rfl) <| .cons (.first rfl rfl rfl) <| .nil _,
      rfl, ⟨rfl, rfl⟩, rfl⟩
  obtain ⟨s, p, hrun, hp, hexecutes, hq⟩ := hrun
  exact ⟨s, p, hexecutes, hq,
    ports_of_requester hrun (List.mem_of_find?_eq_some hp) hexecutes hq⟩

/-- The timer gives the CPU to a user process, which keeps the driver's port. -/
theorem user_inherits_port :
    ∃ s p, Lib.Run (fun s e t => PortSystem.step s e = some t) (.boot twoThreads 1 fun _ => 0)
        [.step (.async (.spawnProcess (some 4096) 8192 12288 4096 .driver 0 0)),
          .step (.async (.spawnProcess (some 69632) 8192 12288 8192 .user 0 0)),
          .step (.async (.launch 1)), .step (.async (.launch 2)), .step (.enter 0),
          .request 0 0x60 1, .step (.tick 0), .step (.tickStep 0 0 8192 true),
          .step (.tickStep 0 0 8192 true), .step (.tickStep 0 0 8192 true),
          .step (.tickStep 0 0 8192 true), .step (.tickStep 0 0 8192 true)] s ∧
      p ∈ s.system.kernel.tasks.processes ∧ s.Executes 0 p.pid ∧ s.iopb 0 0x60 = false ∧
      p.privilege = .user :=
  ⟨_, _, Lib.Run.of_foldlM rfl, List.mem_of_find?_eq_some (p := (·.pid = 2)) rfl, ⟨rfl, rfl⟩, rfl,
    rfl⟩

end KazuOS.Kernel
