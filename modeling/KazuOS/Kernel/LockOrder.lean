import KazuOS.Kernel.Locks

/-! The order in which the kernel nests its locks. Key delivery takes the threads lock
under the keyboard lock; teardown goes the other way round when the process owns the
framebuffer, and is the only code that does. -/
namespace KazuOS.Locking

open KazuOS.Memory KazuOS.Task KazuOS.Lib KazuOS.Lib.Prog KazuOS.Lib.Machine

/-- The code paths that take one of the three locks. Functions that run in one section of
one lock, and take no other there, are given by what the section does. -/
inductive Entry where
  | poll (bytes : List UInt8)
  | injectKeys (keys : List UInt8)
  | fbAcquire (out : Bool)
  | fbRelease
  | exitCurrent
  | keyboardSection (f : Kernel → Kernel)
  | consoleSection
  | threadsSection (a : Kernel.Action)

def Entry.code (console : Option FbParams) (cpu : Nat) : Entry → Code Unit
  | .poll bytes => Locking.poll bytes
  | .injectKeys keys => Locking.injectKeys keys
  | .fbAcquire out => do
      let _ ← sysFbAcquire console cpu out
      pure ()
  | .fbRelease => sysFbRelease console cpu
  | .exitCurrent => Locking.exitCurrent console cpu
  | .keyboardSection f => withLock .keyboard do
      let _ ← modify f
      pure ()
  | .consoleSection => withLock .console (pure ())
  | .threadsSection a => withThreadsLock do
      let _ ← modify fun k => a.apply k cpu
      pure ()

/-- CPUs are numbered; any number of them may run kernel code. -/
abbrev Smp := Machine Nat Lock Effect Kernel

abbrev SmpEvent := MachineEvent Nat Entry

def Smp.next (console : Option FbParams) (m : Smp) (e : SmpEvent) : Option Smp :=
  Machine.step Lock.reentrant Effect.apply (Entry.code console) m e

/-- Two CPUs hold a lock each and spin for the one the other holds. -/
def Smp.Crossed (m : Smp) : Prop :=
  ∃ a b l l', a ≠ b ∧ m.holder l = some a ∧ m.holder l' = some b ∧
    m.Seeks Lock.reentrant a l' ∧ m.Seeks Lock.reentrant b l

/-- `release`, called under the threads lock, does not find the process to own the
framebuffer. -/
def notOwner (holds : Lock → Prop) : Effect → Kernel → Prop
  | .checkOwner pid, k => holds .threads → k.fbOwner ≠ some pid
  | .update _, _ => True

def rank : Lock → Nat
  | .keyboard => 0
  | .threads => 1
  | .console => 2

/-- The code nests by rank below the locks held and gives back all it takes. -/
def Nests (held : List Lock) (p : Code α) : Prop :=
  Orderly rank Lock.reentrant notOwner held held p

section Nests

variable {held : List Lock}

theorem nests_pure (value : α) : Nests held (pure value) := orderly_pure value

variable {p : Code α}

theorem Nests.bind {f : α → Code β} (hp : Nests held p)
    (hf : ∀ value, Nests held (f value)) : Nests held (p >>= f) :=
  Orderly.bind hp hf

theorem nests_modify (f : Kernel → Kernel) : Nests held (modify f) := orderly_perform _

theorem nests_look : Nests held look := nests_modify id

theorem nests_withLock (l : Lock) (hp : Nests [l] p) : Nests [] (withLock l p) := by
  apply orderly_withLock _ hp
  right
  intro l' hl'
  cases hl'

/-- Locks under which the threads lock can be taken. -/
def admitsThreads (held : List Lock) : Prop := .threads ∈ held ∨ ∀ l ∈ held, l = .keyboard

theorem admitsThreads_cons (held : List Lock) : admitsThreads (.threads :: held) :=
  .inl List.mem_cons_self

theorem nests_withThreadsLock (h : admitsThreads held)
    (hp : Nests (.threads :: held) p) : Nests held (withThreadsLock p) := by
  apply orderly_withLock _ hp
  rcases h with h | h
  · exact .inl ⟨rfl, h⟩
  · right
    intro l hl
    rw [h l hl]
    decide

theorem nests_onTasks (h : admitsThreads held) (f : Tasks → Tasks) : Nests held (onTasks f) :=
  nests_withThreadsLock h (nests_modify _)

/-- Read the tables under the threads lock. -/
theorem nests_consult (h : admitsThreads held) (f : Kernel → α) :
    Nests held (withThreadsLock do
      let k ← look
      pure (f k)) :=
  nests_withThreadsLock h (nests_look.bind fun _ => nests_pure _)

theorem nests_wakeWith (h : admitsThreads held) (wake : Task.Memory → Threads → Bool × Threads) :
    Nests held (wakeWith wake) :=
  nests_withThreadsLock h ((nests_modify _).bind fun _ => nests_pure _)

theorem nests_sigintTarget (h : admitsThreads held) (ch : UInt8) :
    Nests held (sigintTarget ch) := by
  unfold sigintTarget
  split
  · apply nests_look.bind
    intro k
    split
    · exact (nests_consult h _).bind fun _ => nests_pure _
    · exact nests_consult h _
  · exact nests_pure _

theorem nests_wakeReader (h : admitsThreads held) (ch : UInt8) : Nests held (wakeReader ch) := by
  apply nests_look.bind
  intro k
  split
  · exact nests_wakeWith h _
  · exact nests_wakeWith h _

theorem nests_pushByte (h : admitsThreads held) (ch : UInt8) : Nests held (pushByte ch) := by
  apply (nests_sigintTarget h ch).bind
  intro target
  split
  · exact (nests_onTasks h _).bind fun _ => nests_pure _
  · apply (nests_wakeReader h ch).bind
    intro woken
    split
    · exact nests_pure _
    · exact (nests_modify _).bind fun _ => nests_pure _

theorem nests_pushBytes (h : admitsThreads held) (bytes : List UInt8) :
    Nests held (pushBytes bytes) := by
  induction bytes with
  | nil => exact nests_pure _
  | cons ch rest ih => exact (nests_pushByte h ch).bind fun _ => ih

theorem nests_poll (bytes : List UInt8) : Nests [] (poll bytes) := by
  apply nests_withLock
  apply nests_pushBytes
  right
  intro l hl
  exact List.mem_singleton.mp hl

theorem nests_flush : Nests [] flush := nests_withLock _ (nests_modify _)

theorem nests_fbParams (console : Option FbParams) : Nests [] (fbParams console) :=
  nests_withLock _ (nests_pure _)

theorem nests_writeInfo (console : Option FbParams) (out : Bool) :
    Nests [] (writeInfo console out) := by
  unfold writeInfo
  split
  · exact (nests_fbParams console).bind fun _ => nests_pure _
  · exact nests_pure _

theorem nests_acquire (console : Option FbParams) (pid : Nat) (cr3 : BitVec 64) (out : Bool) :
    Nests [] (acquire console pid cr3 out) := by
  apply nests_look.bind
  intro k
  split
  · split
    · exact nests_writeInfo console out
    · exact nests_pure _
  · apply (nests_fbParams console).bind
    intro params
    split
    · exact nests_pure _
    · apply (nests_modify _).bind
      intro k
      split
      · exact nests_pure _
      · apply (nests_modify _).bind
        intro _
        exact nests_flush.bind fun _ => nests_writeInfo console out

/-- Under no lock the owner gives the framebuffer back through the other two locks. Under
the threads lock it must not be the owner's. -/
theorem nests_release (h : held = [] ∨ .threads ∈ held) (console : Option FbParams) (pid : Nat) :
    Nests held (release console pid) := by
  apply orderly_act
  intro k hok
  rcases h with rfl | h
  · split
    · apply (nests_modify _).bind
      intro _
      exact nests_flush.bind fun _ => (nests_fbParams console).bind fun _ => nests_pure _
    · exact nests_pure _
  · rw [if_neg (hok h)]
    exact nests_pure _

theorem admitsThreads_nil : admitsThreads [] := by
  right
  intro l hl
  cases hl

theorem nests_sysFbAcquire (console : Option FbParams) (cpu : Nat) (out : Bool) :
    Nests [] (sysFbAcquire console cpu out) := by
  apply nests_look.bind
  intro k
  split
  · exact nests_pure _
  · apply (nests_consult admitsThreads_nil _).bind
    intro context
    split
    · exact nests_pure _
    · exact nests_acquire console _ _ out

theorem nests_sysFbRelease (console : Option FbParams) (cpu : Nat) :
    Nests [] (sysFbRelease console cpu) := by
  apply nests_look.bind
  intro k
  split
  · exact nests_pure _
  · exact nests_release (.inl rfl) console _

theorem nests_exitSelf (cpu : Nat) : Nests [] (exitSelf cpu) := by
  have h := admitsThreads_cons []
  apply nests_withThreadsLock admitsThreads_nil
  apply nests_look.bind
  intro k
  dsimp only
  split
  · exact nests_pure _
  · apply (nests_consult h _).bind
    intro live
    split
    · exact (nests_onTasks h _).bind fun _ => (nests_onTasks h _).bind fun _ => nests_pure _
    · exact nests_pure _

theorem nests_dismantle (h : .threads ∈ held) (console : Option FbParams) (cpu pid tid : Nat) :
    Nests held (dismantle console cpu pid tid) := by
  unfold dismantle
  split
  · exact (nests_modify _).bind fun _ => nests_pure _
  · apply (nests_consult (.inl h) _).bind
    intro stackBase
    apply (nests_onTasks (.inl h) _).bind
    intro _
    apply (nests_release (.inr h) console pid).bind
    intro _
    apply (nests_modify _).bind
    intro _
    apply (nests_onTasks (.inl h) _).bind
    intro _
    apply (nests_onTasks (.inl h) _).bind
    intro _
    exact (nests_modify _).bind fun _ => nests_pure _

theorem nests_leave (h : .threads ∈ held) (cpu tid : Nat) : Nests held (leave cpu tid) := by
  apply (nests_modify _).bind
  intro _
  split
  · exact nests_pure _
  · exact (nests_onTasks (.inl h) _).bind fun _ => nests_pure _

theorem nests_exitCurrent (console : Option FbParams) (cpu : Nat) :
    Nests [] (exitCurrent console cpu) := by
  apply (nests_exitSelf cpu).bind
  intro selfOnly
  split
  · exact nests_pure _
  · have h : Lock.threads ∈ [Lock.threads] := List.mem_cons_self
    apply nests_withThreadsLock admitsThreads_nil
    apply nests_look.bind
    intro k
    exact (nests_dismantle h console cpu _ _).bind fun _ => nests_leave h cpu _

theorem nests_code (console : Option FbParams) (cpu : Nat) (e : Entry) :
    Nests [] (e.code console cpu) := by
  cases e with
  | poll bytes => exact nests_poll bytes
  | injectKeys keys => exact nests_poll keys
  | fbAcquire out => exact (nests_sysFbAcquire console cpu out).bind fun _ => nests_pure _
  | fbRelease => exact nests_sysFbRelease console cpu
  | exitCurrent => exact nests_exitCurrent console cpu
  | keyboardSection f =>
    exact nests_withLock _ ((nests_modify _).bind fun _ => nests_pure _)
  | consoleSection => exact nests_withLock _ (nests_pure _)
  | threadsSection a =>
    exact nests_withThreadsLock admitsThreads_nil ((nests_modify _).bind fun _ => nests_pure _)

end Nests

/-- A state that CPUs reach while no teardown finds its process to own the framebuffer. -/
def Reaches (console : Option FbParams) (m : Smp) : Prop :=
  ∃ (k : Kernel) (es : List SmpEvent),
    Run (fun m e m' => m.Allowed notOwner e ∧ Smp.next console m e = some m') (idle k) es m

/-- Some CPU reaches the second lock while it holds the first. -/
def NestedUnder (console : Option FbParams) (l l' : Lock) : Prop :=
  ∃ (m : Smp) (cpu : Nat), Reaches console m ∧ m.holder l = some cpu ∧
    m.Seeks Lock.reentrant cpu l'

variable {console : Option FbParams} {l l' : Lock}

theorem Reaches.rank_lt {m : Smp} (h : Reaches console m) {cpu : Nat}
    (hholds : m.holder l = some cpu) (hseeks : m.Seeks Lock.reentrant cpu l') :
    rank l < rank l' := by
  obtain ⟨k, es, run⟩ := h
  obtain ⟨held, hm⟩ := run_inOrder (nests_code console) run
  exact hm.rank_lt hholds hseeks

theorem rank_lt_of_nested
    (h : Relation.TransGen (NestedUnder console) l l') : rank l < rank l' := by
  have step : ∀ {l l'}, NestedUnder console l l' → rank l < rank l' := by
    intro l l' hnested
    obtain ⟨m, cpu, hm, hholds, hseeks⟩ := hnested
    exact hm.rank_lt hholds hseeks
  induction h with
  | single hnested => exact step hnested
  | tail _ hnested ih => exact ih.trans (step hnested)

/-- As long as no teardown finds its process to own the framebuffer, no two CPUs hold and
spin for each other's lock, and the nesting of the three locks has no cycle. -/
theorem locks_nest_acyclically (console : Option FbParams) :
    (∀ m, Reaches console m → ¬m.Crossed) ∧
      ∀ l, ¬Relation.TransGen (NestedUnder console) l l := by
  constructor
  · rintro m hm ⟨a, b, l, l', -, ha, hb, hseeksA, hseeksB⟩
    have hup := hm.rank_lt ha hseeksA
    have hdown := hm.rank_lt hb hseeksB
    omega
  · intro l hcycle
    exact absurd (rank_lt_of_nested hcycle) (Nat.lt_irrefl _)

/-- A key comes in on CPU 1 while CPU 0 is in a section of the threads lock. -/
theorem locks_nest_acyclically_waiting :
    ∃ m : Smp, Reaches none m ∧ m.holder .keyboard = some 1 ∧ m.holder .threads = some 0 ∧
      m.Seeks Lock.reentrant 1 .threads ∧ ¬m.Crossed := by
  have idleStep {m : Smp} {cpu : Nat} (h : (m.cpus cpu).code.action = none) :
      m.Allowed notOwner (.advance cpu : SmpEvent) := by
    intro a ha
    rw [h] at ha
    cases ha
  have updateStep {m : Smp} {cpu : Nat} {f : Kernel → Kernel}
      (h : (m.cpus cpu).code.action = some (.update f)) :
      m.Allowed notOwner (.advance cpu : SmpEvent) := by
    intro a ha
    rw [h] at ha
    cases ha
    trivial
  have run : ∃ m, Run (fun m e m' => m.Allowed notOwner e ∧ Smp.next none m e = some m')
      (idle Kernel.twoThreads)
      [.enter 1 (.poll [97]), .advance 1, .enter 0 (.threadsSection .ticks), .advance 0, .advance 1]
      m ∧ m.holder .keyboard = some 1 ∧ m.holder .threads = some 0 ∧
        (m.cpus 1).code.wants = some .threads :=
    ⟨_, .cons ⟨trivial, rfl⟩ (.cons ⟨idleStep rfl, rfl⟩ (.cons ⟨trivial, rfl⟩
      (.cons ⟨idleStep rfl, rfl⟩ (.cons ⟨updateStep rfl, rfl⟩ (.nil _))))), rfl, rfl, rfl⟩
  obtain ⟨m, run, hkeyboard, hthreads, hwants⟩ := run
  refine ⟨m, ⟨_, _, run⟩, hkeyboard, hthreads, ⟨hwants, ?_⟩,
    (locks_nest_acyclically none).1 m ⟨_, _, run⟩⟩
  rw [hthreads]
  simp

/-- CPU 0 runs the last thread of a process that acquires the framebuffer and exits; a key
comes in on CPU 1 before the framebuffer is released. -/
def keyDuringExit : List SmpEvent :=
  [.enter 1 (.threadsSection .exitThread)] ++ List.replicate 3 (.advance 1) ++
    [.enter 0 (.fbAcquire true)] ++ List.replicate 14 (.advance 0) ++
    [.enter 1 (.poll [97]), .advance 1, .enter 0 .exitCurrent] ++ List.replicate 16 (.advance 0) ++
    [.advance 1]

/-- Teardown of the framebuffer's owner spins for the keyboard lock under the threads lock,
key delivery for the threads lock under the keyboard lock. -/
theorem key_during_exit_crosses :
    ∃ (console : Option FbParams) (m : Smp),
      Run (fun m e m' => Smp.next console m e = some m') (idle Kernel.twoThreads) keyDuringExit m ∧
        m.Crossed := by
  have hrun : ∃ m, keyDuringExit.foldlM (Smp.next (some ⟨4096, 1, 1⟩)) (idle Kernel.twoThreads) =
      some m ∧ m.holder .threads = some 0 ∧ m.holder .keyboard = some 1 ∧
        (m.cpus 0).code.wants = some .keyboard ∧ (m.cpus 1).code.wants = some .threads :=
    ⟨_, rfl, rfl, rfl, rfl, rfl⟩
  obtain ⟨m, hrun, hthreads, hkeyboard, hwants0, hwants1⟩ := hrun
  refine ⟨_, m, Run.of_foldlM hrun, 0, 1, .threads, .keyboard, by decide, hthreads, hkeyboard,
    ⟨hwants0, ?_⟩, ⟨hwants1, ?_⟩⟩
  · rw [hkeyboard]
    simp
  · rw [hthreads]
    simp

end KazuOS.Locking
