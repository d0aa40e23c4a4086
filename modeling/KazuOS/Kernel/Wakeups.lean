import KazuOS.Kernel.Sections

/-! Who wakes a thread that went to sleep by its own call. The timer can re-ready a thread
between the section that put it to sleep and the one that takes it off the CPU, so this
is a property of runs that keep clear of that window. -/
namespace KazuOS.Kernel

open KazuOS.Memory KazuOS.Task KazuOS.Task.Tasks

/-- A step that makes nobody ready astray who sleeps by its own call, and puts no such
thread to sleep again in another's name. -/
structure Careful (s : System) (p : Plan) : Prop where
  strays : ∀ tid w, s.slept tid = some w → ¬p.action.strays s.kernel p.cpu tid w
  blocks : ∀ tid w, p.action.blocks s.kernel p.cpu tid w →
    s.slept tid = none ∨ (p.blocks = true ∧ s.kernel.tasks.currentUserTid p.cpu = some tid)

def CarefulStep (s : System) (e : Event) (t : System) : Prop :=
  s.step e = some t ∧ ∀ p, s.plan e = some p → Careful s p

/-- Threads asleep by their own call sleep on the target they set. -/
structure Asleep (s : System) : Prop where
  distinct : s.kernel.tasks.Distinct
  slept : ∀ tid w, s.slept tid = some w →
    ∃ t, s.kernel.tasks.threads.lookup tid = some t ∧ t.state = .sleeping ∧ t.waitTarget = w

theorem boot_distinct (k : Kernel) (cpuCount : Nat) (mem : Memory) :
    (System.boot k cpuCount mem).kernel.tasks.Distinct := by
  refine ⟨⟨List.nodup_nil, ?_⟩, ⟨List.nodup_singleton 0, ?_⟩, Nat.one_pos, Nat.one_pos⟩
  · intro id hid
    cases hid
  · intro id hid
    cases List.mem_singleton.mp hid
    exact Nat.one_pos

theorem boot_asleep (k : Kernel) (cpuCount : Nat) (mem : Memory) :
    Asleep (System.boot k cpuCount mem) := by
  refine ⟨boot_distinct k cpuCount mem, ?_⟩
  intro tid w h
  cases h

variable {s t : System} {e : Event}

theorem step_distinct (h : s.step e = some t)
    (hd : s.kernel.tasks.Distinct) : t.kernel.tasks.Distinct := by
  obtain ⟨p, -, hkernel, -⟩ := System.step_eq_some h
  rw [hkernel]
  exact (apply_change hd p.cpu p.action).distinct hd

/-- The thread under an id after a section comes from the one under that id before. -/
theorem lookup_origin {k : Kernel} (hd : k.tasks.Distinct) {cpu : Nat} {action : Action} {tid : Nat}
    {t t' : Thread} (ht : k.tasks.threads.lookup tid = some t)
    (ht' : (action.apply k cpu).tasks.threads.lookup tid = some t') (hlive : t'.dead = false) :
    Thread.Moves (action.wakesAny k cpu) (action.blocks k cpu) t t' := by
  obtain ⟨hmem, rfl⟩ := mem_of_lookup ht
  obtain ⟨hmem', htid⟩ := mem_of_lookup ht'
  obtain hdead | ⟨t₀, ht₀, hmoves⟩ | ⟨hnew, -⟩ := (apply_change hd cpu action).origin hmem'
  · cases hlive.symm.trans hdead
  · have hsame : t₀.tid = t.tid := hmoves.tid.symm.trans htid
    have hlookup := hd.lookup ht₀
    rw [hsame, ht] at hlookup
    cases hlookup
    exact hmoves
  · have hbelow := hd.tidsBelow hmem
    rw [← htid, hnew] at hbelow
    exact absurd hbelow (Nat.lt_irrefl _)

theorem step_asleep (h : CarefulStep s e t) (hs : Asleep s) : Asleep t := by
  obtain ⟨hstep, hcareful⟩ := h
  refine ⟨step_distinct hstep hs.distinct, ?_⟩
  obtain ⟨p, hplan, hkernel, hslept⟩ := System.step_eq_some hstep
  have hcareful := hcareful p hplan
  intro tid w hw
  rw [hslept] at hw
  rw [hkernel]
  unfold System.sleepers at hw
  split at hw
  · rename_i t' ht'
    rw [ht']
    split at hw
    · cases hw
    · rename_i hsleeping
      rw [not_not] at hsleeping
      refine ⟨t', rfl, hsleeping, ?_⟩
      split at hw
      · exact Option.some.inj hw
      · rename_i hother
        obtain ⟨t₀, ht₀, hsleeping₀, rfl⟩ := hs.slept tid w hw
        have hlive : t'.dead = false := by simp [Thread.dead, hsleeping]
        have hmoves := lookup_origin hs.distinct ht₀ ht' hlive
        obtain ⟨-, htarget⟩ | hblocks := hmoves.asleep hsleeping
        · exact htarget
        · rw [(mem_of_lookup ht₀).2] at hblocks
          obtain hnone | hcaller := hcareful.blocks tid _ hblocks
          · cases hw.symm.trans hnone
          · exact absurd (by simp [hcaller]) hother
  · cases hw

/-- In a run that is careful throughout, a thread that went to sleep by its own call on a
target becomes ready only by a section meant to wake it: a wake for that target, or a
signal or kill addressed to it. -/
theorem sleeper_becomes_ready_for_its_target {k : Kernel} {cpuCount : Nat} {mem : Memory}
    {es : List Event} {s t : System} {e : Event} {p : Plan} {tid : Nat} {w : WaitTarget}
    {thread : Thread} (run : Lib.Run CarefulStep (System.boot k cpuCount mem) es s)
    (hstep : CarefulStep s e t) (hplan : s.plan e = some p) (hslept : s.slept tid = some w)
    (hthread : t.kernel.tasks.threads.lookup tid = some thread) (hready : thread.state = .ready) :
    (∃ before, s.kernel.tasks.threads.lookup tid = some before ∧ before.state = .sleeping ∧
      before.waitTarget = w) ∧ p.action.wakes s.kernel p.cpu tid w := by
  have hs := run.preserves (fun _ _ _ hs h => step_asleep h hs) (boot_asleep k cpuCount mem)
  obtain ⟨before, hbefore, hsleeping, rfl⟩ := hs.slept tid w hslept
  refine ⟨⟨before, hbefore, hsleeping, rfl⟩, ?_⟩
  obtain ⟨p', hplan', hkernel, -⟩ := System.step_eq_some hstep.1
  cases hplan.symm.trans hplan'
  rw [hkernel] at hthread
  have hlive : thread.dead = false := by simp [Thread.dead, hready]
  have hmoves := lookup_origin hs.distinct hbefore hthread hlive
  have hwakes := hmoves.awake hsleeping (by simp [hready])
  rw [(mem_of_lookup hbefore).2] at hwakes
  exact hwakes.resolve_right ((hstep.2 p hplan).strays tid _ hslept)

/-- While nobody sleeps by its own call, every step is careful. -/
theorem careful_of_awake {s : System} (h : ∀ tid, s.slept tid = none) (p : Plan) : Careful s p := by
  constructor
  · intro tid w hw
    cases (h tid).symm.trans hw
  · intro tid w _
    exact .inl (h tid)

/-- A section that neither wakes astray nor puts to sleep. -/
theorem careful_of_harmless {s : System} {p : Plan} (hstrays : p.action.strays s.kernel p.cpu = nobody)
    (hblocks : p.action.blocks s.kernel p.cpu = nobody) : Careful s p := by
  constructor
  · intro tid w _ h
    rw [hstrays] at h
    exact h
  · intro tid w h
    rw [hblocks] at h
    exact h.elim

/-- A run in which nobody goes to sleep is careful. -/
theorem run_awake {es : List Event}
    (run : Lib.Run (fun s e t => s.stepIf (fun _ p => !p.blocks) e = some t) s es t)
    (h : ∀ tid, s.slept tid = none) : Lib.Run CarefulStep s es t ∧ ∀ tid, t.slept tid = none := by
  induction run with
  | nil s => exact ⟨.nil s, h⟩
  | @cons s t u e es hstep _ ih =>
    obtain ⟨hstep, hblocks⟩ := System.stepIf_eq_some hstep
    obtain ⟨p, hplan, -, hslept⟩ := System.step_eq_some hstep
    have hcareful : CarefulStep s e t := ⟨hstep, fun p _ => careful_of_awake h p⟩
    have hawake : ∀ tid, t.slept tid = none := by
      intro tid
      have hflag : p.blocks = false := by simpa using hblocks p hplan
      rw [hslept, System.sleepers]
      simp only [hflag, h tid, Bool.false_and]
      split <;> simp
    exact ⟨.cons hcareful (ih hawake).1, (ih hawake).2⟩

/-- A process with one thread, which calls SYS_SLEEP. -/
def callsSleep (duration unit : Nat) : List Event :=
  [.async (.spawnProcess (some 4096) 8192 12288 4096 .user 0 0), .async (.launch 1), .enter 0,
    .syscall 0 (.blocking (.sleep duration unit 0)), .advance 0 0]

theorem carefulStep_of_harmless {p : Plan} (hstep : s.step e = some t)
    (hplan : s.plan e = some p) (hstrays : p.action.strays s.kernel p.cpu = nobody)
    (hblocks : p.action.blocks s.kernel p.cpu = nobody) : CarefulStep s e t := by
  refine ⟨hstep, ?_⟩
  intro p' hplan'
  cases hplan.symm.trans hplan'
  exact careful_of_harmless hstrays hblocks

/-- The thread goes to sleep until the next tick, and the tick wakes it. -/
theorem sleeper_becomes_ready_for_its_target_tick :
    ∃ es s, Lib.Run CarefulStep (System.boot twoThreads 1 fun _ => 0) es s ∧
      s.slept 1 = some .tick ∧ Action.ticks.wakes s.kernel 0 1 .tick := by
  have hrun : ∃ s₁ s₂ s₃ s₄ s₅ p₃ p₄ p₅ thread,
      (callsSleep 1 sleepUnitTick).foldlM (System.stepIf fun _ p => !p.blocks)
        (System.boot twoThreads 1 fun _ => 0) = some s₁ ∧
      s₁.step (.advance 0 0) = some s₂ ∧ s₂.step (.tick 0) = some s₃ ∧
      s₂.plan (.tick 0) = some p₃ ∧ p₃.action = .nothing ∧
      s₃.step (.tickStep 0 0 64 true) = some s₄ ∧ s₃.plan (.tickStep 0 0 64 true) = some p₄ ∧
      p₄.action = .timers 0 ∧
      s₄.step (.tickStep 0 0 64 true) = some s₅ ∧ s₄.plan (.tickStep 0 0 64 true) = some p₅ ∧
      p₅.action = .ticks ∧ p₅.cpu = 0 ∧ s₄.slept 1 = some .tick ∧
      s₅.kernel.tasks.threads.lookup 1 = some thread ∧ thread.state = .ready :=
    ⟨_, _, _, _, _, _, _, _, _, rfl, rfl, rfl, rfl, rfl, rfl, rfl, rfl, rfl, rfl, rfl, rfl, rfl, rfl,
      rfl⟩
  obtain ⟨s₁, s₂, s₃, s₄, s₅, p₃, p₄, p₅, thread, hrun, hstep₂, hstep₃, hplan₃, haction₃, hstep₄,
    hplan₄, haction₄, hstep₅, hplan₅, haction₅, hcpu₅, hslept, hthread, hready⟩ := hrun
  obtain ⟨run₁, hawake⟩ := run_awake (Lib.Run.of_foldlM hrun) fun _ => rfl
  have run₂ := run₁.snoc ⟨hstep₂, fun p _ => careful_of_awake hawake p⟩
  have run₃ := run₂.snoc (carefulStep_of_harmless hstep₃ hplan₃ (by rw [haction₃]; rfl)
    (by rw [haction₃]; rfl))
  have run₄ := run₃.snoc (carefulStep_of_harmless hstep₄ hplan₄ (by rw [haction₄]; rfl)
    (by rw [haction₄]; rfl))
  have hlast := carefulStep_of_harmless hstep₅ hplan₅ (by rw [haction₅]; rfl)
    (by rw [haction₅]; rfl)
  have hwakes := (sleeper_becomes_ready_for_its_target run₄ hlast hplan₅ hslept hthread hready).2
  rw [haction₅, hcpu₅] at hwakes
  exact ⟨_, s₄, run₄, hslept, hwakes⟩

/-- The main thread goes to sleep for a second and leaves its CPU; then a worker of its process
reads the console, which has no key. -/
def readDuringSleep : List Event :=
  [.async (.spawnProcess (some 4096) 8192 12288 4096 .user 0 0), .async (.launch 1), .enter 0,
    .syscall 0 (.threadSpawn (some 69632) 8192 0 12288), .advance 0 0, .advance 0 0, .advance 0 0,
    .enter 1, .syscall 0 (.blocking (.sleep 1000 0 0)), .advance 0 0, .advance 0 0, .advance 0 0,
    .advance 0 0, .syscall 1 (.blocking (.read 0 userMin 1 0)), .advance 1 0, .advance 1 0,
    .advance 1 0]

/-- A key makes the main thread ready before its second is over. -/
theorem key_readies_timed_sleeper :
    ∃ s t p thread, Lib.Run (fun s e t => s.step e = some t)
        (System.boot twoThreads 2 fun _ => 0) readDuringSleep s ∧
      s.slept 1 = some (.timer 3000000000) ∧ s.plan (.async (.key 97)) = some p ∧
      s.step (.async (.key 97)) = some t ∧ t.kernel.tasks.threads.lookup 1 = some thread ∧
      thread.state = .ready ∧ ¬p.action.wakes s.kernel p.cpu 1 (.timer 3000000000) :=
  ⟨_, _, _, _, Lib.Run.of_foldlM rfl, rfl, rfl, rfl, rfl, rfl, nofun⟩

end KazuOS.Kernel
