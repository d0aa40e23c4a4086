import KazuOS.Kernel.BlockedCalls
import KazuOS.Kernel.Locks
import KazuOS.Lib.Ring

/-! Keys on their way to one console reader. A read looks into the ring and goes to sleep in
sections of its own; a key looks for a sleeper and is buffered in two more. The steps below
interleave these sections in any order the keyboard lock allows. -/
namespace KazuOS.Kernel

open KazuOS.Memory KazuOS.Task

/-- The bytes in the text ring, oldest first. -/
def ring (k : Kernel) : List UInt8 :=
  Lib.ringContents bufSize k.keyboard.buf k.keyboard.head k.keyboard.tail

/-- How far a console read has come: it found the ring empty, set its wait target, went to
sleep, and its CPU recorded the frame it returns through. -/
inductive Phase where
  | away
  | empty
  | targeted
  | asleep
  | committed
  deriving DecidableEq

def Phase.sleeps : Phase → Bool
  | .asleep | .committed => true
  | _ => false

/-- The only console reader is the main thread of process `pid`, in the given phase, and
nobody owns the framebuffer. -/
structure Reader (pid tid : Nat) (phase : Phase) (k : Kernel) (t : Thread) : Prop where
  main : k.tasks.mainTid pid = some tid
  unowned : k.fbOwner = none
  record : k.tasks.threads.lookup tid = some t
  awake : phase = .empty ∨ phase = .targeted → t.state = .ready ∨ t.state = .running
  target : phase = .targeted → t.waitTarget = .keyboard
  frame : phase = .committed → t.blockingRsp ≠ 0
  alone : sleepers k.tasks.threads (· = .keyboard) = if phase.sleeps then [t] else []

/-- A key that `push_byte` turns into a SIGINT is no input. -/
def isInput (k : Kernel) (byte : UInt8) : Bool := byte ≠ 3 || k.tasks.foregroundPid = none

/-- A wake reaches the caller only through a committed frame. -/
def framed (k : Kernel) (tid : Nat) : Bool :=
  match k.tasks.threads.lookup tid with
  | some t => t.blockingRsp ≠ 0
  | none => false

inductive KeyEvent where
  | take (cpu : Nat)
  | target
  | sleep
  | commit (cpu rsp : Nat)
  | key (byte : UInt8)
  | buffer
  | other

/-- A kernel with its reader's phase, the byte that found no sleeper and is not buffered yet,
and the bytes typed and received so far. -/
structure Typing where
  kernel : Kernel
  phase : Phase
  inHand : Option UInt8
  typed : List UInt8
  received : List UInt8

/-- What waits in the ring at the start has been typed. -/
def Typing.start (k : Kernel) : Typing := ⟨k, .away, none, k.ring, []⟩

inductive Typing.Step (pid tid : Nat) : Typing → KeyEvent → Typing → Prop where
  /-- `get_raw` and `push_byte` exclude each other by the keyboard lock. -/
  | take {s : Typing} {cpu : Nat} {byte : UInt8} (away : s.phase = .away)
      (unlocked : s.inHand = none) (found : s.kernel.nextKey cpu = some byte) :
      Step pid tid s (.take cpu)
        { s with kernel := s.kernel.getRaw.2, received := s.received ++ [byte] }
  | takeNone {s : Typing} {cpu : Nat} {t : Thread} (away : s.phase = .away)
      (unlocked : s.inHand = none) (record : s.kernel.tasks.threads.lookup tid = some t)
      (runs : t.state = .ready ∨ t.state = .running) (none : s.kernel.nextKey cpu = none) :
      Step pid tid s (.take cpu) { s with phase := .empty }
  | target {s : Typing} (empty : s.phase = .empty) :
      Step pid tid s .target
        { s with kernel := s.kernel.onTasks (·.setWaitTarget pid .keyboard), phase := .targeted }
  | sleep {s : Typing} (targeted : s.phase = .targeted) :
      Step pid tid s .sleep
        { s with kernel := s.kernel.onTasks (·.setSleeping pid), phase := .asleep }
  | commit {s : Typing} {cpu rsp : Nat} (asleep : s.phase = .asleep)
      (current : s.kernel.tasks.currentUserTid cpu = some tid) (frame : rsp ≠ 0) :
      Step pid tid s (.commit cpu rsp)
        { s with kernel := s.kernel.onTasks (·.commitBlock cpu rsp), phase := .committed }
  | wakes {s : Typing} {byte : UInt8} (unlocked : s.inHand = none)
      (input : s.kernel.isInput byte = true)
      (woken : (s.kernel.tasks.threads.wakeupKeyWaiters s.kernel.tasks.mem byte.toNat).1 = true) :
      Step pid tid s (.key byte)
        { kernel := (Waker.key byte.toNat).apply s.kernel
          phase := .away
          inHand := none
          typed := s.typed ++ [byte]
          received := if s.kernel.framed tid then s.received ++ [byte] else s.received }
  | misses {s : Typing} {byte : UInt8} (unlocked : s.inHand = none)
      (input : s.kernel.isInput byte = true)
      (none : (s.kernel.tasks.threads.wakeupKeyWaiters s.kernel.tasks.mem byte.toNat).1 = false) :
      Step pid tid s (.key byte) { s with inHand := some byte, typed := s.typed ++ [byte] }
  | buffer {s : Typing} {byte : UInt8} (inHand : s.inHand = some byte) :
      Step pid tid s .buffer { s with kernel := s.kernel.bufferByte byte, inHand := none }
  /-- Sections that leave the ring alone and keep the reader, and nobody else, reading. -/
  | other {s : Typing} {k' : Kernel} {t' : Thread} (keyboard : k'.keyboard = s.kernel.keyboard)
      (reader : Reader pid tid s.phase k' t') :
      Step pid tid s .other { s with kernel := k' }

/-- The ring has room for the byte about to be buffered. -/
def Typing.Fits (s : Typing) : KeyEvent → Prop
  | .buffer => (s.kernel.keyboard.head + 1) % bufSize ≠ s.kernel.keyboard.tail
  | _ => True

/-- No key comes while the reader is on its way from an empty ring to a committed frame. -/
def Typing.Timely (s : Typing) : KeyEvent → Prop
  | .key _ => s.phase = .away ∨ s.phase = .committed
  | _ => True

/-! The ring as a queue. -/

structure RingBounds (k : Kernel) : Prop where
  head : k.keyboard.head < bufSize
  tail : k.keyboard.tail < bufSize

theorem RingBounds.congr {k k' : Kernel} (h : k.RingBounds)
    (hkeyboard : k'.keyboard = k.keyboard) : k'.RingBounds := by
  constructor
  · rw [hkeyboard]
    exact h.head
  · rw [hkeyboard]
    exact h.tail

theorem ring_congr {k k' : Kernel} (hkeyboard : k'.keyboard = k.keyboard) : k'.ring = k.ring := by
  rw [ring, ring, hkeyboard]

variable {k : Kernel} {pid tid : Nat}

theorem ring_eq_nil_iff (h : k.RingBounds) : k.ring = [] ↔ k.keyboard.head = k.keyboard.tail :=
  Lib.ringContents_eq_nil_iff h.tail

theorem nextKey_of_unowned (h : k.fbOwner = none) (cpu : Nat) : k.nextKey cpu = k.getRaw.1 := by
  simp [nextKey, kbdLockedOut, h]

/-- `get_raw` takes the oldest byte. -/
theorem ring_getRaw (h : k.RingBounds) {byte : UInt8} (hfound : k.getRaw.1 = some byte) :
    k.ring = byte :: k.getRaw.2.ring ∧ k.getRaw.2.RingBounds := by
  unfold getRaw at hfound ⊢
  by_cases hempty : k.keyboard.head = k.keyboard.tail
  · simp [hempty] at hfound
  · simp only [hempty, if_false, Option.some.injEq] at hfound ⊢
    subst hfound
    exact ⟨Lib.ringContents_pop h.head h.tail hempty, h.head, Nat.mod_lt _ (by decide)⟩

theorem ring_of_getRaw_none (h : k.RingBounds) (hnone : k.getRaw.1 = none) : k.ring = [] := by
  rw [ring_eq_nil_iff h]
  by_contra hne
  simp [getRaw, hne] at hnone

/-- `buffer_byte` appends while there is room. -/
theorem ring_bufferByte (h : k.RingBounds)
    (hroom : (k.keyboard.head + 1) % bufSize ≠ k.keyboard.tail) (byte : UInt8) :
    (k.bufferByte byte).ring = k.ring ++ [byte] ∧ (k.bufferByte byte).RingBounds := by
  simp only [bufferByte, hroom, if_false]
  exact ⟨Lib.ringContents_push h.head h.tail hroom byte, Nat.mod_lt _ (by decide), h.tail⟩

theorem getRaw_fbOwner (k : Kernel) : k.getRaw.2.fbOwner = k.fbOwner := by
  simp only [getRaw]
  split
  · rfl
  · rfl

theorem bufferByte_tasks (k : Kernel) (byte : UInt8) :
    (k.bufferByte byte).tasks = k.tasks ∧ (k.bufferByte byte).fbOwner = k.fbOwner := by
  simp only [bufferByte]
  split
  · exact ⟨rfl, rfl⟩
  · exact ⟨rfl, rfl⟩

/-! The reader through the sections of its read. -/

section Reader

variable {pid tid : Nat} {k k' : Kernel} {t : Thread}

variable {phase : Phase}

/-- The ring is no concern of the thread table. -/
theorem Reader.congr (h : Reader pid tid phase k t)
    (htasks : k'.tasks = k.tasks) (howner : k'.fbOwner = k.fbOwner) :
    Reader pid tid phase k' t where
  main := htasks ▸ h.main
  unowned := howner.trans h.unowned
  record := htasks ▸ h.record
  awake := h.awake
  target := h.target
  frame := h.frame
  alone := htasks ▸ h.alone

theorem Reader.takeNone (h : Reader pid tid .away k t)
    (runs : t.state = .ready ∨ t.state = .running) : Reader pid tid .empty k t where
  main := h.main
  unowned := h.unowned
  record := h.record
  awake := fun _ => runs
  target := nofun
  frame := nofun
  alone := h.alone

theorem not_waitsOn_of_runs (runs : t.state = .ready ∨ t.state = .running)
    (accepts : WaitTarget → Bool) : t.waitsOn accepts = false := by
  obtain hstate | hstate := runs
  · simp [Thread.waitsOn, hstate]
  · simp [Thread.waitsOn, hstate]

theorem Reader.setTarget (h : Reader pid tid .empty k t) :
    Reader pid tid .targeted (k.onTasks (·.setWaitTarget pid .keyboard))
      { t with waitTarget := .keyboard } := by
  have runs := h.awake (.inl rfl)
  have hthreads : (k.onTasks (·.setWaitTarget pid .keyboard)).tasks.threads =
      k.tasks.threads.setWaitTarget tid .keyboard := by
    simp only [onTasks, Tasks.setWaitTarget, Tasks.onMain, h.main]
  constructor
  · simp only [onTasks, Tasks.setWaitTarget, Tasks.onMain, h.main]
    exact h.main
  · exact h.unowned
  · rw [hthreads, Threads.lookup_setWaitTarget, if_pos rfl, h.record]
    rfl
  · exact fun _ => runs
  · exact fun _ => rfl
  · simp
  · rw [hthreads, Threads.setWaitTarget, sleepers_update h.record]
    · exact if_neg (by simp [not_waitsOn_of_runs (t := { t with waitTarget := .keyboard }) runs])
    · rw [not_waitsOn_of_runs runs]
      exact h.alone

theorem Reader.setSleeping (h : Reader pid tid .targeted k t) :
    Reader pid tid .asleep (k.onTasks (·.setSleeping pid)) { t with state := .sleeping } := by
  have runs := h.awake (.inr rfl)
  have hthreads : (k.onTasks (·.setSleeping pid)).tasks.threads =
      k.tasks.threads.setSleeping tid := by
    simp only [onTasks, Tasks.setSleeping_threads, h.main]
  have hsleeping := Thread.setSleeping_of_awake runs
  constructor
  · exact (k.tasks.mainTid_setSleeping pid).trans h.main
  · exact h.unowned
  · rw [hthreads, Threads.lookup_setSleeping, if_pos rfl, h.record, Option.map_some, hsleeping]
  · simp
  · simp
  · simp
  · rw [hthreads, Threads.setSleeping, sleepers_update h.record, hsleeping]
    · simp [Thread.waitsOn, h.target rfl, Phase.sleeps]
    · rw [not_waitsOn_of_runs runs]
      exact h.alone

theorem Reader.commit (h : Reader pid tid .asleep k t) {cpu rsp : Nat}
    (current : k.tasks.currentUserTid cpu = some tid) (frame : rsp ≠ 0) :
    Reader pid tid .committed (k.onTasks (·.commitBlock cpu rsp)) { t with blockingRsp := rsp } := by
  have hwaits := waitsOn_of_sleepers h.alone
  constructor
  · simp only [onTasks, Tasks.commitBlock, current]
    exact h.main
  · exact h.unowned
  · exact lookup_commitBlock current h.record
  · simp
  · simp
  · exact fun _ => frame
  · simp only [onTasks, Tasks.commitBlock, current, Threads.setBlockingRsp]
    rw [sleepers_update h.record]
    · exact if_pos hwaits
    · rw [hwaits]
      exact h.alone

/-- A key ends the read it wakes. -/
theorem Reader.wake (h : Reader pid tid phase k t) (hsleeps : phase.sleeps = true) (byte : Nat) :
    Reader pid tid .away ((Waker.key byte).apply k) (t.wake k.tasks.mem byte) := by
  have halone : sleepers k.tasks.threads (· = .keyboard) = [t] := by
    rw [h.alone, hsleeps]
    rfl
  constructor
  · exact h.main
  · exact h.unowned
  · exact lookup_wakeFirst_of_sleepers h.record halone k.tasks.mem byte
  · simp
  · simp
  · simp
  · exact sleepers_wakeFirst halone k.tasks.mem byte

/-- The read returns the key that wakes it, whichever dispatcher resumes it. -/
theorem Reader.returns (h : Reader pid tid .committed k t) (mem : Memory) (byte : Nat)
    (route : Route) : Returns byte (route.choose mem (t.wake k.tasks.mem byte)).1 :=
  returns_woken_committed (t := t) (h.frame rfl) (.key byte) k.tasks.mem mem byte route

/-- A key finds the reader exactly while it sleeps. -/
theorem Reader.wakeupKeyWaiters_fst (h : Reader pid tid phase k t) (mem : Memory) (byte : Nat) :
    (k.tasks.threads.wakeupKeyWaiters mem byte).1 = phase.sleeps := by
  rw [Threads.wakeupKeyWaiters, wakeFirst_fst, h.alone]
  cases phase.sleeps with
  | true => rfl
  | false => rfl

end Reader

/-! Whole runs. -/

/-- What was typed is what was received, followed by what still waits; and nothing waits
while a read is on its way to sleep or asleep. -/
structure Typing.Sound (pid tid : Nat) (s : Typing) : Prop where
  reader : ∃ t, Reader pid tid s.phase s.kernel t
  bounds : s.kernel.RingBounds
  drained : s.phase ≠ .away → s.kernel.ring = [] ∧ s.inHand = none
  order : s.typed = s.received ++ s.kernel.ring ++ s.inHand.toList

theorem Typing.sound_start {t : Thread}
    (hreader : Reader pid tid .away k t) (hbounds : k.RingBounds) :
    (Typing.start k).Sound pid tid where
  reader := ⟨t, hreader⟩
  bounds := hbounds
  drained := fun h => absurd rfl h
  order := by simp [Typing.start]

/-- A timely key that finds the reader asleep finds its frame committed. -/
theorem Reader.framed_of_sleeps {phase : Phase} {t : Thread}
    (h : Reader pid tid phase k t) (hsleeps : phase.sleeps = true)
    (htimely : phase = .away ∨ phase = .committed) : k.framed tid = true := by
  obtain rfl | rfl := htimely
  · cases hsleeps
  · simp [framed, h.record, h.frame rfl]

theorem Typing.Step.sound {s s' : Typing} {e : KeyEvent} (step : Typing.Step pid tid s e s')
    (hfits : s.Fits e) (htimely : s.Timely e) (h : s.Sound pid tid) : s'.Sound pid tid := by
  obtain ⟨⟨t, hreader⟩, hbounds, hdrained, horder⟩ := h
  cases step with
  | take away unlocked found =>
    rw [nextKey_of_unowned hreader.unowned] at found
    obtain ⟨hring, hbounds'⟩ := ring_getRaw hbounds found
    refine ⟨⟨t, hreader.congr (getRaw_tasks _) (getRaw_fbOwner _)⟩, hbounds', ?_, ?_⟩
    · exact fun hphase => absurd away hphase
    · simp [horder, hring]
  | takeNone away unlocked record runs none =>
    rw [nextKey_of_unowned hreader.unowned] at none
    cases hreader.record.symm.trans record
    rw [away] at hreader
    exact ⟨⟨t, hreader.takeNone runs⟩, hbounds,
      fun _ => ⟨ring_of_getRaw_none hbounds none, unlocked⟩, horder⟩
  | target empty =>
    have hwaits := hdrained (by simp [empty])
    rw [empty] at hreader
    exact ⟨⟨_, hreader.setTarget⟩, hbounds.congr rfl, fun _ => hwaits, horder⟩
  | sleep targeted =>
    have hwaits := hdrained (by simp [targeted])
    rw [targeted] at hreader
    exact ⟨⟨_, hreader.setSleeping⟩, hbounds.congr rfl, fun _ => hwaits, horder⟩
  | commit asleep current frame =>
    have hwaits := hdrained (by simp [asleep])
    rw [asleep] at hreader
    exact ⟨⟨_, hreader.commit current frame⟩, hbounds.congr rfl, fun _ => hwaits, horder⟩
  | @wakes byte unlocked input woken =>
    rw [hreader.wakeupKeyWaiters_fst] at woken
    -- the key overtakes nothing, since the reader sleeps on an empty ring
    obtain ⟨hring, -⟩ := hdrained (by
      intro away
      simp [away, Phase.sleeps] at woken)
    refine ⟨⟨_, hreader.wake woken byte.toNat⟩, hbounds.congr rfl, fun h => absurd rfl h, ?_⟩
    have hring' : ((Waker.key byte.toNat).apply s.kernel).ring = [] := hring
    simp [hreader.framed_of_sleeps woken htimely, horder, hring, hring', unlocked]
  | misses unlocked input none =>
    rw [hreader.wakeupKeyWaiters_fst] at none
    have away : s.phase = .away := by
      obtain away | committed := htimely
      · exact away
      · simp [committed, Phase.sleeps] at none
    refine ⟨⟨t, hreader⟩, hbounds, fun hphase => absurd away hphase, ?_⟩
    simp [horder, unlocked]
  | @buffer byte inHand =>
    obtain ⟨hring, hbounds'⟩ := ring_bufferByte hbounds hfits byte
    obtain ⟨htasks, howner⟩ := s.kernel.bufferByte_tasks byte
    refine ⟨⟨t, hreader.congr htasks howner⟩, hbounds', ?_, ?_⟩
    · intro hphase
      simp [(hdrained hphase).2] at inHand
    · simp [horder, hring, inHand]
  | other keyboard reader =>
    exact ⟨⟨_, reader⟩, hbounds.congr keyboard,
      fun hphase => ⟨(ring_congr keyboard).trans (hdrained hphase).1, (hdrained hphase).2⟩,
      by rw [ring_congr keyboard, horder]⟩

/-- In every run without overflow in which no key comes while the reader is on its way from
an empty ring to a committed frame, the reader receives what is typed in order and without
loss, and nobody sleeps on the keyboard beside a filled ring. -/
theorem typed_keys_arrive_in_order {pid tid : Nat} {k : Kernel} {t : Thread}
    (hreader : Reader pid tid .away k t) (hbounds : k.RingBounds) {es : List KeyEvent}
    {s : Typing}
    (run : Lib.Run (fun s e s' => Typing.Step pid tid s e s' ∧ s.Fits e ∧ s.Timely e)
      (Typing.start k) es s) :
    s.typed = s.received ++ s.kernel.ring ++ s.inHand.toList ∧
      (sleepers s.kernel.tasks.threads (· = .keyboard) ≠ [] → s.kernel.ring = []) := by
  have hsound : s.Sound pid tid := by
    apply run.preserves
    · rintro s e s' h ⟨step, hfits, htimely⟩
      exact step.sound hfits htimely h
    · exact Typing.sound_start hreader hbounds
  obtain ⟨t', hreader'⟩ := hsound.reader
  refine ⟨hsound.order, ?_⟩
  intro hsleeps
  refine (hsound.drained ?_).1
  intro away
  simp [hreader'.alone, away, Phase.sleeps] at hsleeps

/-- The main thread of `twoThreads` is a reader. -/
theorem twoThreads_reader : ∃ t, Reader 1 1 .away twoThreads t :=
  ⟨_, rfl, rfl, rfl, nofun, nofun, nofun, rfl⟩

/-- One key wakes the reader, the next one waits for it in the ring. -/
theorem typed_keys_arrive_in_order_two :
    ∃ es s, Lib.Run (fun s e s' => Typing.Step 1 1 s e s' ∧ s.Fits e ∧ s.Timely e)
        (Typing.start twoThreads) es s ∧ s.typed = [97, 98] ∧ s.received = [97, 98] ∧
      s.typed = s.received ++ s.kernel.ring ++ s.inHand.toList ∧
      (sleepers s.kernel.tasks.threads (· = .keyboard) ≠ [] → s.kernel.ring = []) := by
  obtain ⟨t, hreader⟩ := twoThreads_reader
  have hrun : ∃ s, Lib.Run (fun s e s' => Typing.Step 1 1 s e s' ∧ s.Fits e ∧ s.Timely e)
      (Typing.start twoThreads)
      [.take 0, .target, .sleep, .commit 0 69480, .key 97, .key 98, .buffer, .take 0] s ∧
      s.typed = [97, 98] ∧ s.received = [97, 98] :=
    ⟨_,
      .cons ⟨.takeNone rfl rfl rfl (.inr rfl) rfl, trivial, trivial⟩ <|
      .cons ⟨.target rfl, trivial, trivial⟩ <|
      .cons ⟨.sleep rfl, trivial, trivial⟩ <|
      .cons ⟨.commit rfl rfl (by decide), trivial, trivial⟩ <|
      .cons ⟨.wakes rfl rfl rfl, trivial, .inr rfl⟩ <|
      .cons ⟨.misses rfl rfl rfl, trivial, .inl rfl⟩ <|
      .cons ⟨.buffer rfl, Nat.one_ne_zero, trivial⟩ <|
      .cons ⟨.take rfl rfl rfl, trivial, trivial⟩ <| .nil _, rfl, rfl⟩
  obtain ⟨s, run, htyped, hreceived⟩ := hrun
  exact ⟨_, s, run, htyped, hreceived, typed_keys_arrive_in_order hreader ⟨by decide, by decide⟩ run⟩

/-- A key that comes between the look into the ring and the sleep is stranded: the reader
sleeps beside it, and the next key overtakes it. -/
theorem stranded_key_is_overtaken :
    (∃ es s, Lib.Run (fun s e s' => Typing.Step 1 1 s e s' ∧ s.Fits e) (Typing.start twoThreads)
        es s ∧ sleepers s.kernel.tasks.threads (· = .keyboard) ≠ [] ∧ s.kernel.ring = [97]) ∧
      ∃ es s, Lib.Run (fun s e s' => Typing.Step 1 1 s e s' ∧ s.Fits e) (Typing.start twoThreads)
        es s ∧ s.typed = [97, 98] ∧ s.received = [98] ∧ s.kernel.ring = [97] := by
  have hstranded : ∃ s, Lib.Run (fun s e s' => Typing.Step 1 1 s e s' ∧ s.Fits e)
      (Typing.start twoThreads) [.take 0, .target, .key 97, .buffer, .sleep] s ∧
      sleepers s.kernel.tasks.threads (· = .keyboard) ≠ [] ∧ s.kernel.ring = [97] ∧
      ∃ s', Lib.Run (fun s e s' => Typing.Step 1 1 s e s' ∧ s.Fits e) s
        [.commit 0 69480, .key 98] s' ∧ s'.typed = [97, 98] ∧ s'.received = [98] ∧
        s'.kernel.ring = [97] :=
    ⟨_,
      .cons ⟨.takeNone rfl rfl rfl (.inr rfl) rfl, trivial⟩ <|
      .cons ⟨.target rfl, trivial⟩ <|
      .cons ⟨.misses rfl rfl rfl, trivial⟩ <|
      .cons ⟨.buffer rfl, Nat.one_ne_zero⟩ <|
      .cons ⟨.sleep rfl, trivial⟩ <| .nil _, nofun, rfl, _,
      .cons ⟨.commit rfl rfl (by decide), trivial⟩ <|
      .cons ⟨.wakes rfl rfl rfl, trivial⟩ <| .nil _, rfl, rfl, rfl⟩
  obtain ⟨s, run, hsleeps, hring, s', later, htyped, hreceived, hring'⟩ := hstranded
  exact ⟨⟨_, s, run, hsleeps, hring⟩, _, s', run.append later, htyped, hreceived, hring'⟩

end KazuOS.Kernel
