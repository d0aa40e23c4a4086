import KazuOS.Kernel.ConsoleKeys
import KazuOS.Kernel.Framebuffer
import KazuOS.Kernel.TryRead

/-! Who gets which key. While a process owns the framebuffer it has the keyboard; otherwise
anybody who reads the console has it. Bytes and key events wait in two rings, which are emptied
whenever the owner changes. -/
namespace KazuOS.Kernel

open KazuOS.Task KazuOS.Locking KazuOS.Lib

def sigintTarget (k : Kernel) (ch : UInt8) : Option Nat :=
  ((Locking.sigintTarget ch).exec Effect.apply k).1

/-- The sleeper a byte wakes: one of the owner's, or the first of all. -/
def keyReader (k : Kernel) : Option Thread :=
  match k.fbOwner with
  | some owner => k.tasks.threads.find? fun t => t.pid = owner && t.waitsOn (· = .keyboard)
  | none => k.tasks.threads.find? fun t => true && t.waitsOn (· = .keyboard)

/-- A read with a valid buffer of a descriptor that is the console. -/
def validConsoleRead (k : Kernel) (cpu fd bufPtr bufLen : Nat) : Bool :=
  bufPtr ≠ 0 && bufLen ≠ 0 && k.validateRange cpu bufPtr bufLen true &&
    k.getFd (k.callerPid cpu) fd = some .consoleIn

/-- The byte such a read takes from the ring. -/
def takenKey (k : Kernel) (cpu fd bufPtr bufLen : Nat) : Option UInt8 :=
  if k.validConsoleRead cpu fd bufPtr bufLen then k.nextKey cpu else none

/-! What each call does to the ring and the owner. -/

theorem exec_sigintTarget (k : Kernel) (ch : UInt8) :
    (Locking.sigintTarget ch).exec Effect.apply k = (k.sigintTarget ch, k) := by
  refine Prod.ext rfl ?_
  unfold Locking.sigintTarget Locking.sigintCatches Locking.foregroundPid
  split
  · rw [Prog.exec_bind, exec_look]
    dsimp only
    split <;> simp
  · rfl

/-- Whether somebody is woken; nothing but threads changes. -/
theorem exec_wakeReader (k : Kernel) (ch : UInt8) : ∃ threads,
    (wakeReader ch).exec Effect.apply k = (k.keyReader.isSome, k.setThreads threads) := by
  unfold wakeReader keyReader
  rw [Prog.exec_bind, exec_look]
  dsimp only
  cases k.fbOwner with
  | some owner =>
    refine ⟨_, Prod.ext ?_ rfl⟩
    rw [Bool.eq_iff_iff]
    simp [wakeupKeyWaiterForPid, wakeWith, Threads.wakeupKeyWaiterForPid, Threads.wakeFirst]
  | none =>
    refine ⟨_, Prod.ext ?_ rfl⟩
    rw [Bool.eq_iff_iff]
    simp [wakeupKeyWaiters, wakeWith, Threads.wakeupKeyWaiters, Threads.wakeFirst]

theorem pushByte_focus (k : Kernel) (ch : UInt8) :
    ((Locking.pushByte ch).exec Effect.apply k).2.fbOwner = k.fbOwner ∧
      ((Locking.pushByte ch).exec Effect.apply k).2.keyboard =
        if (k.sigintTarget ch).isNone && k.keyReader.isNone then (k.bufferByte ch).keyboard
        else k.keyboard := by
  unfold Locking.pushByte
  rw [Prog.exec_bind, exec_sigintTarget]
  dsimp only
  cases k.sigintTarget ch with
  | some pid => exact ⟨rfl, rfl⟩
  | none =>
    obtain ⟨threads, hwake⟩ := k.exec_wakeReader ch
    dsimp only
    rw [Prog.exec_bind, hwake]
    dsimp only
    cases k.keyReader with
    | some t => exact ⟨rfl, rfl⟩
    | none =>
      simp only [Option.isSome_none, Bool.false_eq_true, if_false, Prog.exec_bind, exec_modify,
        Option.isNone_none, Bool.and_self, if_true, Prog.exec_pure]
      unfold bufferByte setThreads
      dsimp only
      split <;> exact ⟨rfl, rfl⟩

/-- The ring after a read that takes a key, and otherwise. -/
def keyboardAfter (k : Kernel) (taken : Option UInt8) : Keyboard :=
  if taken.isSome then k.getRaw.2.keyboard else k.keyboard

theorem getRaw_cases (k : Kernel) :
    k.getRaw = (none, k) ∨ ∃ ch keyboard, k.getRaw = (some ch, { k with keyboard }) := by
  unfold getRaw
  dsimp only
  split
  · exact .inl rfl
  · exact .inr ⟨_, _, rfl⟩

theorem blockMain_focus (k : Kernel) (cpu : Nat) (target : WaitTarget) :
    (k.blockMain cpu target).fbOwner = k.fbOwner ∧ (k.blockMain cpu target).keyboard = k.keyboard := by
  unfold blockMain
  split <;> exact ⟨rfl, rfl⟩

theorem readConsole_focus (k : Kernel) (cpu : Nat) :
    (k.readConsole cpu).2.fbOwner = k.fbOwner ∧
      (k.readConsole cpu).2.keyboard = k.keyboardAfter (k.nextKey cpu) := by
  unfold readConsole nextKey keyboardAfter
  cases k.kbdLockedOut cpu with
  | true => exact blockMain_focus k cpu .keyboard
  | false =>
    obtain hraw | ⟨ch, keyboard, hraw⟩ := k.getRaw_cases
    · rw [hraw]
      exact blockMain_focus k cpu .keyboard
    · rw [hraw]
      exact ⟨rfl, rfl⟩

theorem readPipe_focus (k : Kernel) (id len : Nat) :
    (k.readPipe id len).2.fbOwner = k.fbOwner ∧ (k.readPipe id len).2.keyboard = k.keyboard :=
  ⟨rfl, rfl⟩

theorem readFile_focus (k : Kernel) (pid fd node generation offset count : Nat) :
    (k.readFile pid fd node generation offset count).2.fbOwner = k.fbOwner ∧
      (k.readFile pid fd node generation offset count).2.keyboard = k.keyboard := by
  unfold readFile
  split
  · exact ⟨rfl, rfl⟩
  · split <;> exact ⟨rfl, rfl⟩

theorem readPipeEnd_focus (k : Kernel) (cpu pipeId bufPtr bufLen : Nat) :
    (k.readPipeEnd cpu pipeId bufPtr bufLen).2.fbOwner = k.fbOwner ∧
      (k.readPipeEnd cpu pipeId bufPtr bufLen).2.keyboard = k.keyboard := by
  unfold readPipeEnd
  split
  · exact readPipe_focus k pipeId bufLen
  · split
    · exact ⟨rfl, rfl⟩
    · exact blockMain_focus k cpu _

variable {cpu fd bufPtr bufLen : Nat} {k : Kernel}

theorem validConsoleRead_iff :
    k.validConsoleRead cpu fd bufPtr bufLen = true ↔ ¬(bufPtr = 0 ∨ bufLen = 0) ∧
      k.validateRange cpu bufPtr bufLen true = true ∧
      k.getFd (k.callerPid cpu) fd = some .consoleIn := by
  simp only [validConsoleRead, ne_eq, Bool.and_eq_true, decide_eq_true_eq, not_or, and_assoc]

theorem takenKey_of_console (h : k.validConsoleRead cpu fd bufPtr bufLen = true) :
    k.takenKey cpu fd bufPtr bufLen = k.nextKey cpu := if_pos h

theorem keyboardAfter_of_other (h : ¬k.validConsoleRead cpu fd bufPtr bufLen = true) :
    k.keyboardAfter (k.takenKey cpu fd bufPtr bufLen) = k.keyboard := by
  rw [takenKey, if_neg h]
  rfl

theorem sysRead_focus (k : Kernel) (cpu fd bufPtr bufLen available : Nat) :
    (k.sysRead cpu fd bufPtr bufLen available).2.fbOwner = k.fbOwner ∧
      (k.sysRead cpu fd bufPtr bufLen available).2.keyboard =
        k.keyboardAfter (k.takenKey cpu fd bufPtr bufLen) := by
  by_cases hconsole : k.validConsoleRead cpu fd bufPtr bufLen = true
  · obtain ⟨hbuf, hvalid, hfd⟩ := validConsoleRead_iff.mp hconsole
    have hread : k.sysRead cpu fd bufPtr bufLen available = k.readConsole cpu := by
      simp [sysRead, hbuf, hvalid, hfd]
    rw [takenKey_of_console hconsole, hread]
    exact k.readConsole_focus cpu
  · rw [keyboardAfter_of_other hconsole]
    unfold sysRead
    split
    · exact ⟨rfl, rfl⟩
    · rename_i hbuf
      split
      · exact ⟨rfl, rfl⟩
      · rename_i hvalid
        split
        · rename_i hfd
          exact absurd (validConsoleRead_iff.mpr ⟨hbuf, by simpa using hvalid, hfd⟩) hconsole
        · exact k.readPipeEnd_focus cpu _ bufPtr bufLen
        · exact k.readFile_focus _ fd _ _ _ _
        · exact ⟨rfl, rfl⟩
        · exact ⟨rfl, rfl⟩

theorem sysTryRead_focus (k : Kernel) (cpu fd bufPtr bufLen : Nat) :
    (sysTryRead k k k cpu fd bufPtr bufLen).2.fbOwner = k.fbOwner ∧
      (sysTryRead k k k cpu fd bufPtr bufLen).2.keyboard =
        k.keyboardAfter (k.takenKey cpu fd bufPtr bufLen) := by
  by_cases hconsole : k.validConsoleRead cpu fd bufPtr bufLen = true
  · obtain ⟨hbuf, hvalid, hfd⟩ := validConsoleRead_iff.mp hconsole
    have hread : (sysTryRead k k k cpu fd bufPtr bufLen).2 =
        if k.kbdLockedOut cpu then k else k.getRaw.2 := by
      unfold sysTryRead
      rw [if_neg hbuf, hvalid, hfd]
      obtain hraw | ⟨ch, keyboard, hraw⟩ := k.getRaw_cases
      · rw [hraw]
        cases k.kbdLockedOut cpu <;> rfl
      · rw [hraw]
        cases k.kbdLockedOut cpu <;> rfl
    rw [takenKey_of_console hconsole, hread, nextKey, keyboardAfter]
    cases k.kbdLockedOut cpu with
    | true => exact ⟨rfl, rfl⟩
    | false =>
      obtain hraw | ⟨ch, keyboard, hraw⟩ := k.getRaw_cases
      · rw [hraw]
        exact ⟨rfl, rfl⟩
      · rw [hraw]
        exact ⟨rfl, rfl⟩
  · rw [keyboardAfter_of_other hconsole]
    unfold sysTryRead
    split
    · exact ⟨rfl, rfl⟩
    · rename_i hbuf
      split
      · exact ⟨rfl, rfl⟩
      · rename_i hvalid
        split
        · rename_i hfd
          exact absurd (validConsoleRead_iff.mpr ⟨hbuf, by simpa using hvalid, hfd⟩) hconsole
        · split
          · exact ⟨rfl, rfl⟩
          · exact readPipe_focus k _ bufLen
        · exact ⟨rfl, rfl⟩

end KazuOS.Kernel

namespace KazuOS

open KazuOS.Kernel KazuOS.Lib KazuOS.Locking KazuOS.Memory KazuOS.Task

def ebufSize : Nat := 512

/-- The ring of key events, presses and releases. -/
structure EventRing where
  ebuf : Nat → UInt16
  ehead : Nat
  etail : Nat

namespace EventRing

def pushEvent (r : EventRing) (owner : Option Nat) (ev : UInt16) : EventRing :=
  if owner.isNone then r else
    let next := (r.ehead + 1) % ebufSize
    if next = r.etail then r
    else { r with ebuf := Function.update r.ebuf r.ehead ev, ehead := next }

def getEvent (r : EventRing) : Option UInt16 × EventRing :=
  if r.ehead = r.etail then (none, r)
  else (some (r.ebuf r.etail), { r with etail := (r.etail + 1) % ebufSize })

def flush (r : EventRing) : EventRing := { r with ehead := 0, etail := 0 }

/-- The events in the ring, oldest first. -/
def contents (r : EventRing) : List UInt16 := ringContents ebufSize r.ebuf r.ehead r.etail

structure Bounds (r : EventRing) : Prop where
  head : r.ehead < ebufSize
  tail : r.etail < ebufSize

end EventRing

inductive Input where
  | byte (ch : UInt8)
  | event (ev : UInt16)
  deriving DecidableEq, Repr

/-- The kernel and the events, and for what waits in either ring, when it was typed: the number
of steps taken before, as `clock` counts them. -/
structure Desk where
  kernel : Kernel
  keyEvents : EventRing
  clock : Nat
  textTimes : List Nat
  eventTimes : List Nat

/-- The last case is any other part of the kernel. -/
inductive DeskEvent where
  | type (input : Input)
  | acquire (cpu : Nat)
  | release (cpu : Nat)
  | exit (cpu : Nat)
  | read (cpu fd bufPtr bufLen available : Nat)
  | tryRead (cpu fd bufPtr bufLen : Nat)
  | poll (cpu : Nat)
  | elsewhere (kernel : Kernel)

/-- Something typed reaches a process. -/
structure Delivery where
  pid : Nat
  input : Input
  typedAt : Nat
  deriving DecidableEq, Repr

namespace Desk

abbrev owner (s : Desk) : Option Nat := s.kernel.fbOwner

/-- Nobody is interrupted or woken by the byte, and there is room for it. -/
def buffers (s : Desk) (ch : UInt8) : Bool :=
  (s.kernel.sigintTarget ch).isNone && s.kernel.keyReader.isNone &&
    (s.kernel.keyboard.head + 1) % bufSize ≠ s.kernel.keyboard.tail

def pushByte (s : Desk) (ch : UInt8) : Desk :=
  { s with
    kernel := ((Locking.pushByte ch).exec Effect.apply s.kernel).2
    textTimes := if s.buffers ch then s.textTimes ++ [s.clock] else s.textTimes }

def pushEvent (s : Desk) (ev : UInt16) : Desk :=
  { s with
    keyEvents := s.keyEvents.pushEvent s.owner ev
    eventTimes :=
      if s.owner.isNone || (s.keyEvents.ehead + 1) % ebufSize = s.keyEvents.etail then s.eventTimes
      else s.eventTimes ++ [s.clock] }

def flush (s : Desk) : Desk :=
  { s with
    kernel := s.kernel.flushKeyboard
    keyEvents := s.keyEvents.flush
    textTimes := []
    eventTimes := [] }

/-- What the console was set up with is fixed at boot. -/
def fbAcquire (s : Desk) (console : Option FbParams) (cpu : Nat) : Desk :=
  match s.kernel.tasks.currentUserPid cpu with
  | none => s
  | some pid =>
      match s.kernel.userCr3 pid with
      | none => s
      | some cr3 =>
          match s.kernel.fbOwner, console with
          | none, some p =>
              match s.kernel.vm.mapRange cr3 userFbVa p.base p.bytes .userReadWrite with
              | (.ok _, vm) => { s with kernel := { s.kernel with vm, fbOwner := some pid } }.flush
              | (.error _, vm) => { s with kernel := { s.kernel with vm } }
          | _, _ => s

def fbRelease (s : Desk) (pid : Nat) : Desk :=
  if s.owner = some pid then { s with kernel := { s.kernel with fbOwner := none } }.flush else s

/-- The teardown of the CPU's process releases the framebuffer on its way. -/
def exit (s : Desk) (cpu : Nat) : Desk :=
  let pid := s.kernel.tasks.currentPid cpu
  { (if pid = 0 then s else s.fbRelease pid) with kernel := s.kernel.teardown cpu }

def keyboardPoll (s : Desk) (cpu : Nat) : Option UInt16 × Desk :=
  if s.kernel.kbdLockedOut cpu then (none, s) else
    match s.keyEvents.getEvent with
    | (none, _) => (none, s)
    | (some ev, keyEvents) => (some ev, { s with keyEvents, eventTimes := s.eventTimes.tail })

/-- A read that may take a byte from the ring. -/
def takes (s : Desk) (taken : Option UInt8) (kernel : Kernel) : Desk :=
  { s with kernel, textTimes := if taken.isSome then s.textTimes.tail else s.textTimes }

def serve (s : Desk) (console : Option FbParams) : DeskEvent → Desk
  | .type (.byte ch) => s.pushByte ch
  | .type (.event ev) => s.pushEvent ev
  | .acquire cpu => s.fbAcquire console cpu
  | .release cpu =>
      match s.kernel.tasks.currentUserPid cpu with
      | some pid => s.fbRelease pid
      | none => s
  | .exit cpu => s.exit cpu
  | .read cpu fd bufPtr bufLen available =>
      s.takes (s.kernel.takenKey cpu fd bufPtr bufLen)
        (s.kernel.sysRead cpu fd bufPtr bufLen available).2
  | .tryRead cpu fd bufPtr bufLen =>
      s.takes (s.kernel.takenKey cpu fd bufPtr bufLen)
        (sysTryRead s.kernel s.kernel s.kernel cpu fd bufPtr bufLen).2
  | .poll cpu => (s.keyboardPoll cpu).2
  | .elsewhere kernel => { s with kernel }

def next (console : Option FbParams) (s : Desk) (e : DeskEvent) : Desk :=
  { s.serve console e with clock := s.clock + 1 }

/-- What an event hands over. A sleeping reader gets the byte as it is typed. -/
def delivers (s : Desk) : DeskEvent → Option Delivery
  | .type (.byte ch) =>
      if (s.kernel.sigintTarget ch).isSome then none
      else s.kernel.keyReader.map fun t => ⟨t.pid, .byte ch, s.clock⟩
  | .read cpu fd bufPtr bufLen _ | .tryRead cpu fd bufPtr bufLen =>
      (s.kernel.takenKey cpu fd bufPtr bufLen).map fun ch =>
        ⟨s.kernel.callerPid cpu, .byte ch, s.textTimes.headD 0⟩
  | .poll cpu => (s.keyboardPoll cpu).1.map fun ev =>
      ⟨s.kernel.callerPid cpu, .event ev, s.eventTimes.headD 0⟩
  | _ => none

/-- The rest of the kernel leaves the ring and the owner alone. -/
def Allowed (s : Desk) : DeskEvent → Prop
  | .elsewhere kernel => kernel.keyboard = s.kernel.keyboard ∧ kernel.fbOwner = s.owner
  | _ => True

/-- The calls are those whose locks are followed elsewhere. -/
theorem exec_sysFbAcquire (s : Desk) (console : Option FbParams) (cpu : Nat) (out : Bool) :
    ((sysFbAcquire console cpu out).exec Effect.apply s.kernel).2 =
      (s.fbAcquire console cpu).kernel := by
  unfold sysFbAcquire fbAcquire
  rw [Prog.exec_bind, exec_look]
  dsimp only
  cases s.kernel.tasks.currentUserPid cpu with
  | none => rfl
  | some pid =>
    dsimp only
    rw [Prog.exec_bind, userContext, exec_withThreadsLock, Prog.exec_bind, exec_look, Prog.exec_pure]
    unfold Kernel.userCr3 Tasks.userCr3
    dsimp only
    cases (s.kernel.tasks.mainTid pid).bind s.kernel.tasks.threads.lookup with
    | none => rfl
    | some t =>
      simp only [Option.map_some]
      unfold acquire
      rw [Prog.exec_bind, exec_look]
      dsimp only
      cases howner : s.kernel.fbOwner with
      | some owner =>
        dsimp only
        split
        · exact exec_writeInfo console out s.kernel
        · rfl
      | none =>
        dsimp only
        rw [Prog.exec_bind, fbParams, Prog.exec_withLock, Prog.exec_pure]
        cases console with
        | none => rfl
        | some p =>
          dsimp only
          rw [Prog.exec_bind, exec_modify]
          dsimp only
          cases hmap : s.kernel.vm.mapRange (BitVec.ofNat 64 t.userContext.cr3) userFbVa p.base p.bytes
            .userReadWrite with
          | mk answer vm =>
            cases answer with
            | error e =>
              dsimp only
              rw [howner]
              rfl
            | ok =>
              dsimp only
              rw [Prog.exec_bind, exec_modify, Prog.exec_bind, exec_writeInfo]
              rfl

theorem exec_sysFbRelease_eq (s : Desk) (console : Option FbParams) (cpu : Nat) :
    ((sysFbRelease console cpu).exec Effect.apply s.kernel).2 =
      (s.serve console (.release cpu)).kernel := by
  rw [exec_sysFbRelease]
  unfold serve
  dsimp only
  cases s.kernel.tasks.currentUserPid cpu with
  | none => rfl
  | some pid =>
    dsimp only
    unfold releaseFramebuffer fbRelease
    split <;> rfl

structure Booted (s : Desk) : Prop where
  clock : s.clock = 0
  textTimes : s.textTimes = []
  eventTimes : s.eventTimes = []
  bounds : s.kernel.RingBounds
  eventBounds : s.keyEvents.Bounds
  ring : s.kernel.ring = []
  events : s.keyEvents.contents = []

end Desk

/-! Queues whose entries are stamped. -/

/-- One step of a queue: nothing, what was typed joins it, its first leaves, or it is emptied. -/
inductive QueueMoves (clock : Nat) (typed : Option α) (times : List Nat) (queue : List α) :
    List Nat → List α → Prop where
  | same : QueueMoves clock typed times queue times queue
  | push {a : α} (h : typed = some a) :
      QueueMoves clock typed times queue (times ++ [clock]) (queue ++ [a])
  | pop {a : α} {rest : List α} (h : queue = a :: rest) :
      QueueMoves clock typed times queue times.tail rest
  | clear : QueueMoves clock typed times queue [] []

theorem QueueMoves.forall₂ {P P' : Nat → α → Prop} {clock : Nat} {typed : Option α}
    {times times' : List Nat} {queue queue' : List α}
    (hmoves : QueueMoves clock typed times queue times' queue') (h : List.Forall₂ P times queue)
    (hold : ∀ t a, P t a → P' t a) (hnew : ∀ a, typed = some a → P' clock a) :
    List.Forall₂ P' times' queue' := by
  have hkept := h.imp hold
  cases hmoves with
  | same => exact hkept
  | push htyped => exact List.rel_append hkept (.cons (hnew _ htyped) .nil)
  | pop hqueue =>
    subst hqueue
    cases hkept with
    | cons _ hrest => exact hrest
  | clear => exact .nil

namespace EventRing

variable {r : EventRing}

theorem pushEvent_moves (h : r.Bounds) (owner : Option Nat) (ev : UInt16) (clock : Nat)
    (times : List Nat) :
    (r.pushEvent owner ev).Bounds ∧ QueueMoves clock (some ev) times r.contents
      (if owner.isNone || (r.ehead + 1) % ebufSize = r.etail then times else times ++ [clock])
      (r.pushEvent owner ev).contents := by
  unfold pushEvent
  cases owner with
  | none => exact ⟨h, .same⟩
  | some owner =>
    simp only [Option.isNone_some, Bool.false_eq_true, if_false, Bool.false_or, decide_eq_true_eq]
    by_cases hfull : (r.ehead + 1) % ebufSize = r.etail
    · rw [if_pos hfull, if_pos hfull]
      exact ⟨h, .same⟩
    · rw [if_neg hfull, if_neg hfull]
      refine ⟨⟨Nat.mod_lt _ (by decide), h.tail⟩, ?_⟩
      unfold contents
      dsimp only
      rw [ringContents_push h.head h.tail hfull]
      exact .push rfl

theorem getEvent_cases (h : r.Bounds) : r.getEvent = (none, r) ∨
    ∃ ev r', r.getEvent = (some ev, r') ∧ r'.Bounds ∧ r.contents = ev :: r'.contents := by
  unfold getEvent
  split
  · exact .inl rfl
  · rename_i hne
    exact .inr ⟨_, _, rfl, ⟨h.head, Nat.mod_lt _ (by decide)⟩, ringContents_pop h.head h.tail hne⟩

end EventRing

namespace Desk

/-- What one step does to the two rings. If the owner changes, both are emptied. -/
structure Moves (s : Desk) (e : DeskEvent) (s' : Desk) : Prop where
  bounds : s'.kernel.RingBounds
  eventBounds : s'.keyEvents.Bounds
  text : QueueMoves s.clock (match e with | .type (.byte ch) => some ch | _ => none)
    s.textTimes s.kernel.ring s'.textTimes s'.kernel.ring
  events : QueueMoves s.clock (match e with | .type (.event ev) => some ev | _ => none)
    s.eventTimes s.keyEvents.contents s'.eventTimes s'.keyEvents.contents
  focus : s'.owner = s.owner ∨ s'.textTimes = [] ∧ s'.kernel.ring = [] ∧ s'.eventTimes = [] ∧
    s'.keyEvents.contents = []

variable {s : Desk} (hb : s.kernel.RingBounds) (he : s.keyEvents.Bounds)
include hb he

theorem moves_pushByte (ch : UInt8) : Moves s (.type (.byte ch)) (s.pushByte ch) := by
  obtain ⟨howner, hkeyboard⟩ := pushByte_focus s.kernel ch
  unfold pushByte buffers
  cases hnobody : (s.kernel.sigintTarget ch).isNone && s.kernel.keyReader.isNone with
  | false =>
    rw [hnobody, if_neg Bool.false_ne_true] at hkeyboard
    refine ⟨hb.congr hkeyboard, he, ?_, .same, .inl howner⟩
    dsimp only
    rw [ring_congr hkeyboard]
    exact .same
  | true =>
    rw [hnobody, if_pos rfl] at hkeyboard
    by_cases hroom : (s.kernel.keyboard.head + 1) % bufSize = s.kernel.keyboard.tail
    · have hfull : s.kernel.bufferByte ch = s.kernel := if_pos hroom
      rw [hfull] at hkeyboard
      refine ⟨hb.congr hkeyboard, he, ?_, .same, .inl howner⟩
      dsimp only
      rw [ring_congr hkeyboard]
      simp only [hroom, ne_eq, not_true_eq_false, decide_false, Bool.and_false, Bool.false_eq_true,
        if_false]
      exact .same
    · obtain ⟨hring, hbounds⟩ := ring_bufferByte hb hroom ch
      refine ⟨hbounds.congr hkeyboard, he, ?_, .same, .inl howner⟩
      dsimp only
      rw [ring_congr hkeyboard, hring]
      simp only [hroom, ne_eq, not_false_eq_true, decide_true, Bool.and_true, if_true]
      exact .push rfl

theorem moves_pushEvent (ev : UInt16) : Moves s (.type (.event ev)) (s.pushEvent ev) := by
  obtain ⟨hbounds, hmoves⟩ := EventRing.pushEvent_moves he s.owner ev s.clock s.eventTimes
  exact ⟨hb, hbounds, .same, hmoves, .inl rfl⟩

omit hb he in
/-- Whatever the owner becomes, after a flush nothing waits. -/
theorem moves_flush (e : DeskEvent) (k' : Kernel)
    (hkeyboard : k'.keyboard = s.kernel.flushKeyboard.keyboard) :
    Moves s e { s.flush with kernel := k' } := by
  have hempty : k'.ring = [] := by
    unfold ring
    rw [hkeyboard]
    rfl
  have hevents : s.keyEvents.flush.contents = [] := rfl
  have hstart : 0 < bufSize ∧ 0 < ebufSize := by decide
  refine ⟨⟨?_, ?_⟩, ⟨hstart.2, hstart.2⟩, ?_, ?_, .inr ⟨rfl, hempty, rfl, hevents⟩⟩
  · rw [hkeyboard]
    exact hstart.1
  · rw [hkeyboard]
    exact hstart.1
  · dsimp only
    rw [hempty]
    exact .clear
  · exact .clear

variable {k' : Kernel}

/-- Ring and owner are left alone. -/
theorem moves_kernel (e : DeskEvent) (hkeyboard : k'.keyboard = s.kernel.keyboard)
    (howner : k'.fbOwner = s.owner) : Moves s e { s with kernel := k' } := by
  refine ⟨hb.congr hkeyboard, he, ?_, .same, .inl howner⟩
  dsimp only
  rw [ring_congr hkeyboard]
  exact .same

theorem moves_fbRelease (e : DeskEvent) (pid : Nat) : Moves s e (s.fbRelease pid) := by
  unfold fbRelease
  split
  · exact moves_flush e { s.kernel with fbOwner := none }.flushKeyboard rfl
  · exact moves_kernel hb he e rfl rfl

theorem moves_fbAcquire (e : DeskEvent) (console : Option FbParams) (cpu : Nat) :
    Moves s e (s.fbAcquire console cpu) := by
  unfold fbAcquire
  split
  · exact moves_kernel hb he e rfl rfl
  · rename_i pid _
    split
    · exact moves_kernel hb he e rfl rfl
    · split
      · split
        · rename_i vm _
          exact moves_flush e { s.kernel with vm, fbOwner := some pid }.flushKeyboard rfl
        · exact moves_kernel hb he e rfl rfl
      · exact moves_kernel hb he e rfl rfl

theorem moves_exit (e : DeskEvent) (cpu : Nat) : Moves s e (s.exit cpu) := by
  unfold exit
  dsimp only
  by_cases hpid : s.kernel.tasks.currentPid cpu = 0
  · obtain ⟨howner, hkeyboard⟩ := s.kernel.teardown_focus_kernel hpid
    rw [if_pos hpid]
    exact moves_kernel hb he e hkeyboard howner
  · obtain ⟨howner, hkeyboard⟩ := s.kernel.teardown_focus hpid
    rw [if_neg hpid]
    unfold releaseFramebuffer at howner hkeyboard
    unfold fbRelease
    by_cases hown : s.owner = some (s.kernel.tasks.currentPid cpu)
    · rw [if_pos hown] at howner hkeyboard ⊢
      exact moves_flush e _ hkeyboard
    · rw [if_neg hown] at howner hkeyboard ⊢
      exact moves_kernel hb he e hkeyboard howner

/-- A read takes the oldest byte, or none. -/
theorem moves_takes (e : DeskEvent) {taken : Option UInt8}
    (htaken : ∀ ch, taken = some ch → s.kernel.getRaw.1 = some ch)
    (hkeyboard : k'.keyboard = s.kernel.keyboardAfter taken) (howner : k'.fbOwner = s.owner) :
    Moves s e (s.takes taken k') := by
  unfold takes
  cases taken with
  | none => exact moves_kernel hb he e hkeyboard howner
  | some ch =>
    have hkeyboard : k'.keyboard = s.kernel.getRaw.2.keyboard := hkeyboard
    obtain ⟨hring, hbounds⟩ := ring_getRaw hb (htaken ch rfl)
    refine ⟨hbounds.congr hkeyboard, he, ?_, .same, .inl howner⟩
    dsimp only
    rw [ring_congr hkeyboard]
    exact .pop hring

theorem moves_keyboardPoll (e : DeskEvent) (cpu : Nat) : Moves s e (s.keyboardPoll cpu).2 := by
  unfold keyboardPoll
  split
  · exact moves_kernel hb he e rfl rfl
  · obtain hget | ⟨ev, r', hget, hbounds, hcontents⟩ := EventRing.getEvent_cases he
    · rw [hget]
      exact moves_kernel hb he e rfl rfl
    · rw [hget]
      exact ⟨hb, hbounds, .same, .pop hcontents, .inl rfl⟩

omit hb he in
theorem takenKey_getRaw {k : Kernel} {cpu fd bufPtr bufLen : Nat} {ch : UInt8}
    (h : k.takenKey cpu fd bufPtr bufLen = some ch) :
    k.kbdLockedOut cpu = false ∧ k.getRaw.1 = some ch := by
  unfold takenKey nextKey at h
  split at h
  · split at h
    · cases h
    · rename_i hlocked
      exact ⟨Bool.eq_false_iff.mpr hlocked, h⟩
  · cases h

/-- The step lemma. -/
theorem moves_serve (console : Option FbParams) {e : DeskEvent} (hallowed : s.Allowed e) :
    Moves s e (s.serve console e) := by
  cases e with
  | type input =>
    cases input with
    | byte ch => exact moves_pushByte hb he ch
    | event ev => exact moves_pushEvent hb he ev
  | acquire cpu => exact moves_fbAcquire hb he _ console cpu
  | release cpu =>
    unfold serve
    dsimp only
    split
    · exact moves_fbRelease hb he _ _
    · exact moves_kernel hb he _ rfl rfl
  | exit cpu => exact moves_exit hb he _ cpu
  | read cpu fd bufPtr bufLen available =>
    obtain ⟨howner, hkeyboard⟩ := s.kernel.sysRead_focus cpu fd bufPtr bufLen available
    exact moves_takes hb he _ (fun ch h => (takenKey_getRaw h).2) hkeyboard howner
  | tryRead cpu fd bufPtr bufLen =>
    obtain ⟨howner, hkeyboard⟩ := s.kernel.sysTryRead_focus cpu fd bufPtr bufLen
    exact moves_takes hb he _ (fun ch h => (takenKey_getRaw h).2) hkeyboard howner
  | poll cpu => exact moves_keyboardPoll hb he _ cpu
  | elsewhere kernel => exact moves_kernel hb he _ hallowed.1 hallowed.2

omit hb he

/-! Runs. -/

def Steps (console : Option FbParams) (s : Desk) (e : DeskEvent) (s' : Desk) : Prop :=
  s.Allowed e ∧ s' = s.next console e

/-- Who owned the framebuffer after the first `i` events. -/
def ownerAt (console : Option FbParams) (s₀ : Desk) (es : List DeskEvent) (i : Nat) : Option Nat :=
  ((es.take i).foldl (next console) s₀).owner

/-- Something typed as event number `t`. Nobody has given the framebuffer to anybody since. -/
structure Pending (console : Option FbParams) (s₀ : Desk) (es : List DeskEvent) (input : Input)
    (t : Nat) : Prop where
  typed : es[t]? = some (.type input)
  focus : ∀ i, t ≤ i → i ≤ es.length → ownerAt console s₀ es i = ownerAt console s₀ es es.length

/-- What waits in the rings was typed under the present focus. -/
structure Focused (console : Option FbParams) (s₀ : Desk) (es : List DeskEvent) (s : Desk) :
    Prop where
  reached : s = es.foldl (next console) s₀
  clock : s.clock = es.length
  bounds : s.kernel.RingBounds
  eventBounds : s.keyEvents.Bounds
  text : List.Forall₂ (fun t ch => Pending console s₀ es (.byte ch) t) s.textTimes s.kernel.ring
  events : List.Forall₂ (fun t ev => Pending console s₀ es (.event ev) t) s.eventTimes
    s.keyEvents.contents

section Runs

variable {console : Option FbParams} {s₀ : Desk} {es : List DeskEvent} {e : DeskEvent}

theorem ownerAt_snoc_of_le {i : Nat} (h : i ≤ es.length) :
    ownerAt console s₀ (es ++ [e]) i = ownerAt console s₀ es i := by
  rw [ownerAt, List.take_append_of_le_length h]
  rfl

theorem ownerAt_length : ownerAt console s₀ es es.length = (es.foldl (next console) s₀).owner := by
  rw [ownerAt, List.take_length]

variable {k : Kernel} {cpu : Nat} {t : Nat}

/-- An event under which the owner stays lengthens a stretch under one focus. -/
theorem focus_snoc (hfocus : ∀ i, t ≤ i → i ≤ es.length →
      ownerAt console s₀ es i = ownerAt console s₀ es es.length)
    (hsame : ((es ++ [e]).foldl (next console) s₀).owner = (es.foldl (next console) s₀).owner)
    (i : Nat) (hi : t ≤ i) (hle : i ≤ (es ++ [e]).length) :
    ownerAt console s₀ (es ++ [e]) i = ownerAt console s₀ (es ++ [e]) (es ++ [e]).length := by
  rw [ownerAt_length, hsame]
  rw [List.length_append, List.length_singleton] at hle
  obtain hle | rfl := Nat.le_succ_iff.mp hle
  · rw [ownerAt_snoc_of_le hle, hfocus i hi hle, ownerAt_length]
  · rw [← hsame, ← ownerAt_length, List.length_append, List.length_singleton]

theorem Pending.snoc {input : Input} (h : Pending console s₀ es input t)
    (hsame : ((es ++ [e]).foldl (next console) s₀).owner = (es.foldl (next console) s₀).owner) :
    Pending console s₀ (es ++ [e]) input t := by
  obtain ⟨hlt, -⟩ := List.getElem?_eq_some_iff.mp h.typed
  exact ⟨by rw [List.getElem?_append_left hlt, h.typed], focus_snoc h.focus hsame⟩

theorem Pending.typing (input : Input)
    (hsame : ((es ++ [DeskEvent.type input]).foldl (next console) s₀).owner =
      (es.foldl (next console) s₀).owner) :
    Pending console s₀ (es ++ [.type input]) input es.length := by
  refine ⟨List.getElem?_concat_length, focus_snoc (fun i hi hle => ?_) hsame⟩
  rw [Nat.le_antisymm hle hi]

theorem Booted.focused (boot : s₀.Booted) : Focused console s₀ [] s₀ where
  reached := rfl
  clock := boot.clock
  bounds := boot.bounds
  eventBounds := boot.eventBounds
  text := by
    rw [boot.textTimes, boot.ring]
    exact .nil
  events := by
    rw [boot.eventTimes, boot.events]
    exact .nil

theorem Focused.step {s s' : Desk} (h : Focused console s₀ es s) (hstep : Steps console s e s') :
    Focused console s₀ (es ++ [e]) s' := by
  obtain ⟨hallowed, rfl⟩ := hstep
  have hmoves := moves_serve h.bounds h.eventBounds console hallowed
  have hreached : s.next console e = (es ++ [e]).foldl (next console) s₀ := by
    rw [List.foldl_append, ← h.reached]
    rfl
  have hclock : (s.next console e).clock = (es ++ [e]).length := by
    rw [List.length_append, List.length_singleton, ← h.clock]
    rfl
  suffices hrings : List.Forall₂ (fun t ch => Pending console s₀ (es ++ [e]) (.byte ch) t)
        (s.next console e).textTimes (s.next console e).kernel.ring ∧
      List.Forall₂ (fun t ev => Pending console s₀ (es ++ [e]) (.event ev) t)
        (s.next console e).eventTimes (s.next console e).keyEvents.contents from
    ⟨hreached, hclock, hmoves.bounds, hmoves.eventBounds, hrings.1, hrings.2⟩
  obtain hsame | ⟨htimes, hring, heventTimes, hcontents⟩ := hmoves.focus
  · have hfold : ((es ++ [e]).foldl (next console) s₀).owner =
        (es.foldl (next console) s₀).owner := by
      rw [← hreached, ← h.reached]
      exact hsame
    have htyping : ∀ input, e = .type input → Pending console s₀ (es ++ [e]) input s.clock := by
      rintro input rfl
      rw [h.clock]
      exact .typing input hfold
    constructor
    · refine hmoves.text.forall₂ h.text (fun t ch hp => hp.snoc hfold) fun ch htyped => ?_
      split at htyped
      · cases htyped
        exact htyping _ rfl
      · cases htyped
    · refine hmoves.events.forall₂ h.events (fun t ev hp => hp.snoc hfold) fun ev htyped => ?_
      split at htyped
      · cases htyped
        exact htyping _ rfl
      · cases htyped
  · constructor
    · rw [show (s.next console e).textTimes = [] from htimes,
        show (s.next console e).kernel.ring = [] from hring]
      exact .nil
    · rw [show (s.next console e).eventTimes = [] from heventTimes,
        show (s.next console e).keyEvents.contents = [] from hcontents]
      exact .nil

theorem Focused.run {s : Desk} (boot : s₀.Booted) (run : Run (Steps console) s₀ es s) :
    Focused console s₀ es s :=
  run.snocInduction boot.focused fun _ _ _ _ _ h hstep => h.step hstep

/-- Nobody else owns the framebuffer. -/
theorem owner_of_unlocked (h : k.kbdLockedOut cpu = false) :
    k.fbOwner = none ∨ k.fbOwner = some (k.callerPid cpu) := by
  unfold kbdLockedOut at h
  split at h
  · rename_i owner howner
    simp only [ne_eq, decide_not, Bool.not_eq_eq_eq_not, Bool.not_false, decide_eq_true_eq] at h
    exact .inr (howner.trans (congrArg some h))
  · rename_i howner
    exact .inl howner

theorem owner_of_keyReader {t : Thread} (h : k.keyReader = some t) :
    k.fbOwner = none ∨ k.fbOwner = some t.pid := by
  unfold keyReader at h
  split at h
  · rename_i owner howner
    have hmatch := List.find?_some h
    rw [Bool.and_eq_true, decide_eq_true_eq] at hmatch
    exact .inr (howner.trans (congrArg some hmatch.1.symm))
  · rename_i howner
    exact .inl howner

/-- A byte from the ring. -/
theorem Focused.taken {s : Desk} (h : Focused console s₀ es s) {cpu fd bufPtr bufLen : Nat}
    {ch : UInt8} (htaken : s.kernel.takenKey cpu fd bufPtr bufLen = some ch) :
    (s.owner = none ∨ s.owner = some (s.kernel.callerPid cpu)) ∧
      Pending console s₀ es (.byte ch) (s.textTimes.headD 0) := by
  obtain ⟨hlocked, hraw⟩ := takenKey_getRaw htaken
  refine ⟨owner_of_unlocked hlocked, ?_⟩
  have htext := h.text
  rw [(ring_getRaw h.bounds hraw).1] at htext
  cases htimes : s.textTimes with
  | nil =>
    rw [htimes] at htext
    cases htext
  | cons t rest =>
    rw [htimes] at htext
    cases htext with
    | cons hp _ => exact hp

/-- An event from the ring. -/
theorem Focused.polled {s : Desk} (h : Focused console s₀ es s) {ev : UInt16}
    (hpoll : (s.keyboardPoll cpu).1 = some ev) :
    (s.owner = none ∨ s.owner = some (s.kernel.callerPid cpu)) ∧
      Pending console s₀ es (.event ev) (s.eventTimes.headD 0) := by
  unfold keyboardPoll at hpoll
  split at hpoll
  · cases hpoll
  · rename_i hlocked
    refine ⟨owner_of_unlocked (Bool.eq_false_iff.mpr hlocked), ?_⟩
    have hevents := h.events
    obtain hget | ⟨ev', r', hget, -, hcontents⟩ := EventRing.getEvent_cases h.eventBounds
    · rw [hget] at hpoll
      cases hpoll
    · rw [hget] at hpoll
      cases hpoll
      rw [hcontents] at hevents
      cases htimes : s.eventTimes with
      | nil =>
        rw [htimes] at hevents
        cases hevents
      | cons t rest =>
        rw [htimes] at hevents
        cases hevents with
        | cons hp _ => exact hp

/-- However keys, reads, exits and changes of the framebuffer's owner follow each other: what a
process gets was typed under the focus under which it gets it, nobody else owned the framebuffer
at any moment from then on, and the owner was the same all along. -/
theorem keys_stay_in_focus {s : Desk} (boot : s₀.Booted) (run : Run (Steps console) s₀ es s)
    {d : Delivery} (hd : s.delivers e = some d) :
    (es ++ [e])[d.typedAt]? = some (.type d.input) ∧
      ∃ focus, (focus = none ∨ focus = some d.pid) ∧
        ∀ i, d.typedAt ≤ i → i ≤ es.length → ownerAt console s₀ es i = focus := by
  have h := Focused.run boot run
  have howner : ownerAt console s₀ es es.length = s.owner := by rw [ownerAt_length, ← h.reached]
  have hpending : ∀ {pid input t}, (s.owner = none ∨ s.owner = some pid) ∧
      Pending console s₀ es input t → (es ++ [e])[t]? = some (.type input) ∧
        ∃ focus, (focus = none ∨ focus = some pid) ∧
          ∀ i, t ≤ i → i ≤ es.length → ownerAt console s₀ es i = focus := by
    rintro pid input t ⟨hmine, hp⟩
    obtain ⟨hlt, -⟩ := List.getElem?_eq_some_iff.mp hp.typed
    refine ⟨by rw [List.getElem?_append_left hlt, hp.typed], s.owner, hmine, fun i hi hle => ?_⟩
    rw [hp.focus i hi hle, howner]
  unfold delivers at hd
  split at hd
  · -- a sleeping reader
    split at hd
    · cases hd
    · obtain ⟨t, ht, rfl⟩ := Option.map_eq_some_iff.mp hd
      refine ⟨?_, s.owner, owner_of_keyReader ht, fun i hi hle => ?_⟩
      · rw [h.clock]
        exact List.getElem?_concat_length
      · rw [h.clock] at hi
        rw [Nat.le_antisymm hle hi, howner]
  · obtain ⟨ch, hch, rfl⟩ := Option.map_eq_some_iff.mp hd
    exact hpending (h.taken hch)
  · obtain ⟨ch, hch, rfl⟩ := Option.map_eq_some_iff.mp hd
    exact hpending (h.taken hch)
  · obtain ⟨ev, hev, rfl⟩ := Option.map_eq_some_iff.mp hd
    exact hpending (h.polled hev)
  · cases hd

end Runs

/-- Process 1 with its two threads, before anything was typed. -/
def quietDesk : Desk := ⟨twoThreads, ⟨fun _ => 0, 0, 0⟩, 0, [], []⟩

def smallScreen : FbParams := ⟨0x1000, 2, 2⟩

/-- Process 1 takes the framebuffer, and a key goes down. -/
def keyDown : List DeskEvent := [.acquire 0, .type (.event 97)]

theorem quietDesk_booted : quietDesk.Booted :=
  ⟨rfl, rfl, rfl, ⟨by decide, by decide⟩, ⟨by decide, by decide⟩, rfl, rfl⟩

theorem keys_stay_in_focus_keyDown : ∃ d focus,
    (keyDown.foldl (next (some smallScreen)) quietDesk).delivers (.poll 0) = some d ∧
      d = ⟨1, .event 97, 1⟩ ∧ (focus = none ∨ focus = some 1) ∧
      (∀ i, 1 ≤ i → i ≤ 2 → ownerAt (some smallScreen) quietDesk keyDown i = focus) ∧
      ownerAt (some smallScreen) quietDesk keyDown 0 ≠ focus := by
  have hd : (keyDown.foldl (next (some smallScreen)) quietDesk).delivers (.poll 0) =
      some ⟨1, .event 97, 1⟩ := by decide +kernel
  have howners : ownerAt (some smallScreen) quietDesk keyDown 0 = none ∧
      ownerAt (some smallScreen) quietDesk keyDown 1 = some 1 := by decide +kernel
  have run : Run (Steps (some smallScreen)) quietDesk keyDown
      (keyDown.foldl (next (some smallScreen)) quietDesk) :=
    .cons ⟨trivial, rfl⟩ (.cons ⟨trivial, rfl⟩ (.nil _))
  obtain ⟨-, focus, hmine, hfocus⟩ := keys_stay_in_focus quietDesk_booted run hd
  refine ⟨_, focus, hd, rfl, hmine, hfocus, ?_⟩
  rw [howners.1, ← hfocus 1 (Nat.le_refl _) (by decide), howners.2]
  exact nofun

end Desk

end KazuOS
