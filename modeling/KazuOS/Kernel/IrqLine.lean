import KazuOS.Kernel.ConsoleKeys

/-! The interrupt line of a driver that repeats SYS_IRQ_WAIT and SYS_IRQ_ACK. The handler
masks the line and then wakes whoever sleeps on it, the ack unmasks it, and nothing records
an interrupt that found nobody. -/
namespace KazuOS.Kernel

open KazuOS.Memory KazuOS.Task

/-- Where the driver is in its loop: about to wait, asleep, or woken and about to ack. -/
inductive DriverPhase where
  | ready
  | asleep
  | woken
  deriving DecidableEq

/-- Thread `tid` of process `pid` serves line `n`, and no other thread waits on it. -/
structure Driver (pid tid n : Nat) (phase : DriverPhase) (k : Kernel) (t : Thread) : Prop where
  line : n ≠ 0 ∧ n < 256
  privilege : (k.tasks.privilegeLevel pid).isDriver = true
  owner : k.ownsDriverIrq pid n = true
  record : k.tasks.threads.lookup tid = some t
  alone : sleepers k.tasks.threads (· = .irq n) = if phase = .asleep then [t] else []

def claimedDriverIrq (k : Kernel) : Nat := k.driverIrq.number

/-- The line's mask bit after an ack. The line was routed when it was claimed, so there is
an IOAPIC to unmask it in. -/
def sysIrqAck (k : Kernel) (cpu arg : Nat) (masked : Bool) : Nat × Bool :=
  if !k.ownsDriverIrq (k.callerPid cpu) (arg % 256) then (failure, masked) else (0, false)

inductive LineEvent where
  | wait (cpu : Nat)
  | ack (cpu : Nat)
  | interrupt
  | report
  | other

/-- A kernel with the driver's phase, the line's mask bit, whether the handler is between
its two sections, whether the last handler woke nobody, and how many interrupts were taken
and how many completed a wait. -/
structure Line where
  kernel : Kernel
  phase : DriverPhase
  masked : Bool
  inHandler : Bool
  unreported : Bool
  taken : Nat
  reported : Nat

/-- A claimed line is routed and unmasked. -/
def Line.claimed (k : Kernel) : Line := ⟨k, .ready, false, false, false, 0, 0⟩

inductive Line.Step (pid tid n : Nat) : Line → LineEvent → Line → Prop where
  | wait {s : Line} {cpu : Nat} {t : Thread} (ready : s.phase = .ready)
      (process : s.kernel.tasks.currentUserPid cpu = some pid)
      (thread : s.kernel.tasks.currentUserTid cpu = some tid)
      (record : s.kernel.tasks.threads.lookup tid = some t)
      (runs : t.state = .ready ∨ t.state = .running)
      (blocks : (s.kernel.sysIrqWait cpu n).1 = blockToScheduler) :
      Step pid tid n s (.wait cpu)
        { s with kernel := (s.kernel.sysIrqWait cpu n).2, phase := .asleep }
  | ack {s : Line} {cpu : Nat} (woken : s.phase = .woken)
      (process : s.kernel.tasks.currentUserPid cpu = some pid) :
      Step pid tid n s (.ack cpu)
        { s with masked := (s.kernel.sysIrqAck cpu n s.masked).2, phase := .ready }
  /-- `hda_irq_handler_inner` up to the mask. It is not entered again before its EOI. -/
  | interrupt {s : Line} (unmasked : s.masked = false) (outside : s.inHandler = false)
      (claimed : s.kernel.claimedDriverIrq = n) :
      Step pid tid n s .interrupt
        { s with masked := true, inHandler := true, unreported := false, taken := s.taken + 1 }
  /-- The handler's `wakeup_irq_waiter`. -/
  | reports {s : Line} (inside : s.inHandler = true)
      (woken : (s.kernel.tasks.threads.wakeupIrqWaiter s.kernel.tasks.mem n).1 = true) :
      Step pid tid n s .report
        { s with
          kernel := (Waker.irq n).apply s.kernel
          phase := .woken
          inHandler := false
          reported := s.reported + 1 }
  | reportsNobody {s : Line} (inside : s.inHandler = true)
      (nobody : (s.kernel.tasks.threads.wakeupIrqWaiter s.kernel.tasks.mem n).1 = false) :
      Step pid tid n s .report { s with inHandler := false, unreported := true }
  /-- Sections that leave the line and its driver alone. -/
  | other {s : Line} {k' : Kernel} {t' : Thread} (driver : Driver pid tid n s.phase k' t') :
      Step pid tid n s .other { s with kernel := k' }

/-- The handler comes to its wakeup while the driver sleeps in SYS_IRQ_WAIT. -/
def Line.Awaited (s : Line) : LineEvent → Prop
  | .report => s.phase = .asleep
  | _ => True

section Driver

variable {pid tid n : Nat} {phase : DriverPhase} {k : Kernel} {t : Thread}

variable {cpu : Nat}

theorem sysIrqWait_eq (h : Driver pid tid n phase k t)
    (process : k.tasks.currentUserPid cpu = some pid) :
    k.sysIrqWait cpu n = (blockToScheduler, k.blockCurrent cpu (.irq n)) := by
  have hline : n % 256 = n := Nat.mod_eq_of_lt h.line.2
  simp [sysIrqWait, callerPid, process, hline, h.privilege, h.owner]

theorem sysIrqAck_eq (h : Driver pid tid n phase k t)
    (process : k.tasks.currentUserPid cpu = some pid) (masked : Bool) :
    k.sysIrqAck cpu n masked = (0, false) := by
  have hline : n % 256 = n := Nat.mod_eq_of_lt h.line.2
  simp [sysIrqAck, callerPid, process, hline, h.owner]

theorem Driver.wait (h : Driver pid tid n .ready k t)
    (thread : k.tasks.currentUserTid cpu = some tid)
    (runs : t.state = .ready ∨ t.state = .running) :
    Driver pid tid n .asleep (k.blockCurrent cpu (.irq n))
      { t with waitTarget := .irq n, state := .sleeping } := by
  have hsleeping : { t with waitTarget := .irq n }.setSleeping =
      { t with waitTarget := .irq n, state := .sleeping } :=
    Thread.setSleeping_of_awake runs
  have htasks : (k.blockCurrent cpu (.irq n)).tasks = k.tasks.block tid (.irq n) := by
    simp only [blockCurrent, Tasks.blockCurrent, thread]
  have htarget : (k.tasks.threads.setWaitTarget tid (.irq n)).lookup tid =
      some { t with waitTarget := .irq n } := by
    rw [Threads.lookup_setWaitTarget, if_pos rfl, h.record]
    rfl
  constructor
  · exact h.line
  · rw [htasks]
    exact h.privilege
  · exact h.owner
  · rw [htasks, lookup_block, if_pos rfl, h.record, Option.map_some, hsleeping]
  · rw [htasks, Tasks.block, Threads.setSleeping, sleepers_update htarget, hsleeping]
    · simp [Thread.waitsOn]
    · rw [Threads.setWaitTarget, sleepers_update h.record]
      rw [not_waitsOn_of_runs runs]
      exact h.alone

theorem Driver.ack (h : Driver pid tid n .woken k t) : Driver pid tid n .ready k t where
  line := h.line
  privilege := h.privilege
  owner := h.owner
  record := h.record
  alone := h.alone

theorem Driver.wake (h : Driver pid tid n .asleep k t) :
    Driver pid tid n .woken ((Waker.irq n).apply k) (t.wake k.tasks.mem 0) := by
  constructor
  · exact h.line
  · exact h.privilege
  · exact h.owner
  · exact lookup_wakeFirst_of_sleepers h.record h.alone k.tasks.mem 0
  · exact sleepers_wakeFirst h.alone k.tasks.mem 0

/-- The handler finds the driver exactly while it sleeps. -/
theorem Driver.wakeupIrqWaiter_fst (h : Driver pid tid n phase k t) (mem : Memory) :
    (k.tasks.threads.wakeupIrqWaiter mem n).1 = decide (phase = .asleep) := by
  rw [Threads.wakeupIrqWaiter, wakeFirst_fst, h.alone]
  by_cases hphase : phase = .asleep
  · simp [hphase]
  · simp [hphase]

end Driver

/-! Runs in which every interrupt is awaited. -/

/-- Before a wait and during it only the handler has the line masked, and after it it is masked
until the ack. -/
structure Line.Sound (pid tid n : Nat) (s : Line) : Prop where
  driver : ∃ t, Driver pid tid n s.phase s.kernel t
  unwoken : s.phase ≠ .woken → s.masked = s.inHandler
  woken : s.phase = .woken → s.masked = true ∧ s.inHandler = false
  reported : s.unreported = false
  count : s.taken = s.reported + s.inHandler.toNat

variable {pid tid n : Nat} {s s' : Line}

theorem Line.sound_claimed {k : Kernel} {t : Thread}
    (h : Driver pid tid n .ready k t) : (Line.claimed k).Sound pid tid n where
  driver := ⟨t, h⟩
  unwoken := fun _ => rfl
  woken := nofun
  reported := rfl
  count := rfl

theorem Line.Step.sound {e : LineEvent} (step : Line.Step pid tid n s e s') (hawaited : s.Awaited e)
    (h : s.Sound pid tid n) : s'.Sound pid tid n := by
  obtain ⟨⟨t, hdriver⟩, hunwoken, hwoken, hreported, hcount⟩ := h
  cases step with
  | wait ready process thread record runs blocks =>
    cases hdriver.record.symm.trans record
    have hwait := sysIrqWait_eq hdriver process
    rw [ready] at hdriver
    refine ⟨⟨{ t with waitTarget := .irq n, state := .sleeping }, ?_⟩, ?_, nofun, hreported, hcount⟩
    · rw [hwait]
      exact hdriver.wait thread runs
    · exact fun _ => hunwoken (by simp [ready])
  | ack woken process =>
    have hack := sysIrqAck_eq hdriver process s.masked
    rw [woken] at hdriver
    refine ⟨⟨t, hdriver.ack⟩, ?_, nofun, hreported, hcount⟩
    intro _
    rw [hack, (hwoken woken).2]
  | interrupt unmasked outside claimed =>
    refine ⟨⟨t, hdriver⟩, fun _ => rfl, fun woken => ?_, rfl, ?_⟩
    · simp [(hwoken woken).1] at unmasked
    · simpa [outside] using hcount
  | reports inside woken =>
    have asleep : s.phase = .asleep := hawaited
    have hmasked := hunwoken (by simp [asleep])
    rw [asleep] at hdriver
    refine ⟨⟨_, hdriver.wake⟩, fun h => absurd rfl h, fun _ => ⟨hmasked.trans inside, rfl⟩,
      hreported, ?_⟩
    simpa [inside] using hcount
  | reportsNobody inside nobody =>
    have asleep : s.phase = .asleep := hawaited
    rw [hdriver.wakeupIrqWaiter_fst, asleep] at nobody
    simp at nobody
  | other driver => exact ⟨⟨_, driver⟩, hunwoken, hwoken, hreported, hcount⟩

/-- In every run in which the handler always finds the driver asleep in SYS_IRQ_WAIT, the driver
never sleeps behind an interrupt that was not reported to it, and every interrupt taken has
completed a wait, except for one whose handler still runs and is about to. -/
theorem awaited_interrupts_are_reported {pid tid n : Nat} {k : Kernel} {t : Thread}
    (hdriver : Driver pid tid n .ready k t) {es : List LineEvent} {s : Line}
    (run : Lib.Run (fun s e s' => Line.Step pid tid n s e s' ∧ s.Awaited e)
      (Line.claimed k) es s) :
    ¬(sleepers s.kernel.tasks.threads (· = .irq n) ≠ [] ∧ s.masked = true ∧
        s.unreported = true) ∧
      (sleepers s.kernel.tasks.threads (· = .irq n) ≠ [] → s.masked = s.inHandler) ∧
      s.taken = s.reported + s.inHandler.toNat := by
  have hsound : s.Sound pid tid n := by
    apply run.preserves
    · rintro s e s' h ⟨step, hawaited⟩
      exact step.sound hawaited h
    · exact Line.sound_claimed hdriver
  obtain ⟨t', hdriver'⟩ := hsound.driver
  refine ⟨?_, ?_, hsound.count⟩
  · rintro ⟨-, -, hunreported⟩
    simp [hsound.reported] at hunreported
  · intro hsleeps
    apply hsound.unwoken
    intro hphase
    simp [hdriver'.alone, hphase] at hsleeps

/-- The main thread of `twoThreads` as a driver that has claimed line 11. -/
def lineEleven : Kernel :=
  { twoThreads with
    tasks := twoThreads.tasks.updateProcess 1 fun p => { p with privilege := .driver }
    driverIrq := ⟨1, 11, 0, false⟩ }

theorem lineEleven_driver : ∃ t, Driver 1 1 11 .ready lineEleven t :=
  ⟨_, by decide, rfl, rfl, rfl, rfl⟩

/-- One round of the driver's loop. -/
theorem awaited_interrupts_are_reported_once :
    ∃ es s, Lib.Run (fun s e s' => Line.Step 1 1 11 s e s' ∧ s.Awaited e)
        (Line.claimed lineEleven) es s ∧ s.taken = 1 ∧ s.masked = false ∧
      (¬(sleepers s.kernel.tasks.threads (· = .irq 11) ≠ [] ∧ s.masked = true ∧
          s.unreported = true) ∧
        (sleepers s.kernel.tasks.threads (· = .irq 11) ≠ [] → s.masked = s.inHandler) ∧
        s.taken = s.reported + s.inHandler.toNat) := by
  obtain ⟨t, hdriver⟩ := lineEleven_driver
  have hrun : ∃ s, Lib.Run (fun s e s' => Line.Step 1 1 11 s e s' ∧ s.Awaited e)
      (Line.claimed lineEleven) [.wait 0, .interrupt, .report, .ack 0] s ∧ s.taken = 1 ∧
      s.masked = false :=
    ⟨_,
      .cons ⟨.wait rfl rfl rfl rfl (.inr rfl) rfl, trivial⟩ <|
      .cons ⟨.interrupt rfl rfl rfl, trivial⟩ <|
      .cons ⟨.reports rfl rfl, rfl⟩ <|
      .cons ⟨.ack rfl rfl, trivial⟩ <| .nil _, rfl, rfl⟩
  obtain ⟨s, run, htaken, hmasked⟩ := hrun
  exact ⟨_, s, run, htaken, hmasked, awaited_interrupts_are_reported hdriver run⟩

/-! An interrupt that nobody awaits. -/

/-- The driver sleeps behind an interrupt whose handler has ended. -/
structure Line.Stuck (pid tid n : Nat) (s : Line) : Prop where
  driver : ∃ t, Driver pid tid n .asleep s.kernel t
  asleep : s.phase = .asleep
  masked : s.masked = true
  outside : s.inHandler = false
  unreported : s.unreported = true

/-- No step of the line or its driver gets it out. -/
theorem Line.Step.stuck {e : LineEvent}
    (step : Line.Step pid tid n s e s') (h : s.Stuck pid tid n) : s'.Stuck pid tid n := by
  obtain ⟨hdriver, hasleep, hmasked, houtside, hunreported⟩ := h
  cases step with
  | wait ready => simp [hasleep] at ready
  | ack woken => simp [hasleep] at woken
  | interrupt unmasked => simp [hmasked] at unmasked
  | reports inside => simp [houtside] at inside
  | reportsNobody inside => simp [houtside] at inside
  | other driver =>
    rw [hasleep] at driver
    exact ⟨⟨_, driver⟩, hasleep, hmasked, houtside, hunreported⟩

theorem stuck_forever {es : List LineEvent} (run : Lib.Run (Line.Step pid tid n) s es s')
    (h : s.Stuck pid tid n) : s'.Stuck pid tid n :=
  run.preserves (fun _ _ _ h step => step.stuck h) h

theorem Line.Stuck.sleepers_ne_nil {s : Line} (h : s.Stuck pid tid n) :
    sleepers s.kernel.tasks.threads (· = .irq n) ≠ [] := by
  obtain ⟨t, hdriver⟩ := h.driver
  simp [hdriver.alone]

/-- An interrupt taken between the claim and the first wait is lost: the wait sleeps behind
the masked line, and no further run completes it. -/
theorem unawaited_interrupt_is_lost :
    ∃ s, Lib.Run (Line.Step 1 1 11) (Line.claimed lineEleven) [.interrupt, .report, .wait 0] s ∧
      ∀ es s', Lib.Run (Line.Step 1 1 11) s es s' →
        sleepers s'.kernel.tasks.threads (· = .irq 11) ≠ [] ∧ s'.masked = true ∧
          s'.unreported = true := by
  have hrun : ∃ s, Lib.Run (Line.Step 1 1 11) (Line.claimed lineEleven)
      [.interrupt, .report, .wait 0] s ∧ s.Stuck 1 1 11 :=
    ⟨_,
      .cons (.interrupt rfl rfl rfl) <|
      .cons (.reportsNobody rfl rfl) <|
      .cons (.wait rfl rfl rfl rfl (.inr rfl) rfl) <| .nil _,
      ⟨_, by decide, rfl, rfl, rfl, rfl⟩, rfl, rfl, rfl, rfl⟩
  obtain ⟨s, run, hstuck⟩ := hrun
  refine ⟨s, run, ?_⟩
  intro es s' later
  have hstuck' := stuck_forever later hstuck
  exact ⟨hstuck'.sleepers_ne_nil, hstuck'.masked, hstuck'.unreported⟩

end KazuOS.Kernel
