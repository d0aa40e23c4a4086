import KazuOS.Lib.Run
import KazuOS.Task.Scheduler

/-! One thread through suspensions, wakes and dispatches. A run records what each
suspension saved, so that a dispatch can be compared with the latest one. -/
namespace KazuOS.Task.Resume

/-- What the latest suspension of a thread saved. -/
inductive Suspension where
  | user (regs : Registers)
  | kernel (regs : Registers)
  | blocked (regs : Registers)
  deriving DecidableEq, Repr

def withRax (regs : Registers) (rax : Nat) : Registers := { regs with rax }
def withInterrupts (regs : Registers) : Registers := { regs with rflags := regs.rflags ||| 0x200 }

/-- The loaded registers are the saved ones; interrupts may be enabled on the way. -/
def AsSaved (saved loaded : Registers) : Prop := loaded = saved ∨ loaded = withInterrupts saved

/-- A resumption continues a suspension: same kind of frame, same registers, and for
a blocking call its result in rax. -/
def Suspension.ResumedBy (mem : Memory) : Suspension → Resumption → Prop
  | .user regs, .user context => AsSaved regs context.toRegisters
  | .kernel regs, .kernel rsp => interruptFrame mem rsp = regs
  | .blocked regs, .blocking rsp retval =>
      Thread.blockingFrame mem rsp retval = withRax regs retval
  | .blocked regs, .user context =>
      AsSaved (withRax regs context.rax) context.toRegisters
  | _, _ => False

/-- Where the thread executes: ring 3, a syscall whose int 0x80 frame is given, the
stub after it stored the frame's address, and after the frame went to the thread. -/
inductive Place where
  | user
  | kernel (frame : Nat)
  | parking (frame : Nat)
  | leaving
  deriving DecidableEq, Repr

/-- The thread, the stacks, and the per-CPU word the stub passes the frame in. -/
structure Machine where
  thread : Thread
  mem : Memory
  blockingRspTmp : Nat
  place : Place
  onCpu : Bool
  last : Suspension

inductive Event where
  | syscall (regs : Registers)
  | write (addr value : Nat)
  | sysret
  | preemptUser (regs : Registers)
  | preemptKernel (rsp : Nat) (regs : Registers)
  | tickReturn (rsp : Nat) (regs : Registers)
  | block (target : WaitTarget)
  | park
  | commit
  | leave
  | wake (retval : Nat)
  | wakePipe (count : Nat)
  | interruptSleep
  | makeReady
  | enter
  | switch (ring3 : Bool)
  | elsewhere (addr value : Nat)
  | otherParks (frame : Nat)

def userCode : Nat := 0x1b
def userData : Nat := 0x23
def kernelCode : Nat := 0x08
def kernelData : Nat := 0x10

namespace Machine

def stackTop (m : Machine) : Nat := m.thread.kernelStackBase + kernelStackSize

def inStack (m : Machine) (addr : Nat) : Bool :=
  m.thread.kernelStackBase ≤ addr && addr < m.stackTop

/-- A created thread that has not run yet. -/
def start (thread : Thread) (mem : Memory) : Machine where
  thread := thread
  mem := mem
  blockingRspTmp := 0
  place := .user
  onCpu := false
  last := .user thread.userContext.toRegisters

/-- Where an interrupt in ring 0 may push its frame: below the frame of the syscall,
or on the CPU's own return stack once the stub has left the thread's stack. -/
def roomFor (m : Machine) (rsp : Nat) : Bool :=
  match m.place with
  | .user => false
  | .kernel frame => m.thread.kernelStackBase ≤ rsp && rsp + 160 ≤ frame
  | .parking _ | .leaving => rsp + 160 ≤ m.thread.kernelStackBase || m.stackTop ≤ rsp

def pushKernel (m : Machine) (rsp : Nat) (regs : Registers) : Machine :=
  { m with
    mem := writeWords m.mem rsp (interruptWords regs kernelCode kernelData)
    thread := m.thread.preemptKernel rsp
    last := .kernel regs }

/-- The resumption a dispatch event picks for a thread that is ready and off its CPU. -/
def chosen (m : Machine) : Event → Option (Resumption × Thread)
  | .enter => if !m.onCpu && m.thread.state = .ready then some m.thread.enter else none
  | .switch ring3 =>
      if !m.onCpu && m.thread.state = .ready then some (m.thread.switchTo m.mem ring3) else none
  | _ => none

def resumed (m : Machine) (r : Resumption) (t : Thread) : Machine :=
  { m with
    thread := t.setRunning
    onCpu := true
    place := match r with
      | .kernel _ => m.place
      | _ => .user }

end Machine

open Machine

def step (m : Machine) (e : Event) : Option Machine :=
  match e with
  | .syscall regs =>
      if m.onCpu && m.place = .user then
        some { m with
          mem := writeWords m.mem (m.stackTop - 152) (syscallWords regs userCode userData)
          place := .kernel (m.stackTop - 152) }
      else none
  | .write addr value =>
      match m.onCpu, m.place with
      | true, .kernel frame =>
          if addr < frame then some { m with mem := Function.update m.mem addr value } else none
      | _, _ => none
  | .sysret =>
      match m.onCpu, m.place with
      | true, .kernel _ => some { m with place := .user }
      | _, _ => none
  | .preemptUser regs =>
      if m.onCpu && m.place = .user then
        let rsp := m.stackTop - 160
        let mem := writeWords m.mem rsp (interruptWords regs userCode userData)
        some { m with
          mem
          thread := m.thread.preemptUser mem rsp
          onCpu := false
          last := .user regs }
      else none
  | .preemptKernel rsp regs =>
      if m.onCpu && m.roomFor rsp then some { m.pushKernel rsp regs with onCpu := false } else none
  | .tickReturn rsp regs =>
      if m.onCpu && m.roomFor rsp then some (m.pushKernel rsp regs) else none
  | .block target =>
      match m.onCpu, m.place with
      | true, .kernel _ =>
          some { m with thread := { m.thread with waitTarget := target }.setSleeping }
      | _, _ => none
  | .park =>
      match m.onCpu, m.place with
      | true, .kernel frame => some { m with blockingRspTmp := frame, place := .parking frame }
      | _, _ => none
  | .commit =>
      match m.onCpu, m.place with
      | true, .parking frame =>
          some { m with
            thread := { m.thread with blockingRsp := m.blockingRspTmp }
            place := .leaving
            last := .blocked (Thread.blockingFrame m.mem frame 0) }
      | _, _ => none
  | .leave =>
      if m.onCpu && m.place = .leaving then some { m with place := .user, onCpu := false } else none
  | .wake retval =>
      if m.thread.state = .sleeping then some { m with thread := m.thread.wake m.mem retval }
      else none
  | .wakePipe count =>
      if m.thread.state = .sleeping then
        some { m with thread := { m.thread with blockingRetval := count }.wake m.mem count }
      else none
  | .interruptSleep =>
      if m.thread.state = .sleeping then
        let t := m.thread.applyBlockingReturnIfPending m.mem
        some { m with thread := { t.setReady with waitTarget := .none } }
      else none
  | .makeReady => some { m with thread := m.thread.setReady }
  | .enter | .switch _ => (m.chosen e).map fun (r, t) => m.resumed r t
  | .elsewhere addr value =>
      -- A ring 3 frame is free once the context is saved: the timer reuses it to enter
      -- the next thread.
      match m.inStack addr, m.onCpu, m.last with
      | false, _, _ | _, false, .user _ =>
          some { m with mem := Function.update m.mem addr value }
      | _, _, _ => none
  | .otherParks frame =>
      if m.onCpu then none else some { m with blockingRspTmp := frame }

/-- No tick in ring 0 between the stub's store of the frame's address and the clearing
of the CPU's current thread, and no timer dispatch of a thread that has both a kernel
frame and a blocking frame on record. -/
def Careful (m : Machine) : Event → Prop
  | .preemptKernel _ _ | .tickReturn _ _ => ∃ frame, m.place = .kernel frame
  | .switch _ => ¬(m.thread.kernelPreempted = true ∧ m.thread.blockingRsp ≠ 0)
  | _ => True

def Steps (m : Machine) (e : Event) (n : Machine) : Prop := step m e = some n ∧ Careful m e

/-! What is saved where. -/

variable {m : Machine} {regs : Registers} {t : Thread} {e : Event} {r : Resumption} {mem : Memory}
  {rsp : Nat}

theorem blockingFrame_congr {mem mem' : Memory}
    (hsame : ∀ a, rsp ≤ a → a < rsp + 152 → mem' a = mem a) (retval : Nat) :
    Thread.blockingFrame mem' rsp retval = Thread.blockingFrame mem rsp retval := by
  ext
  case rax => rfl
  all_goals
    apply hsame
    · omega
    · omega

theorem interruptFrame_congr {mem mem' : Memory}
    (hsame : ∀ a, rsp ≤ a → a < rsp + 160 → mem' a = mem a) :
    interruptFrame mem' rsp = interruptFrame mem rsp := by
  ext
  all_goals
    apply hsame
    · omega
    · omega

theorem interruptFrame_writeWords (mem : Memory) (rsp cs ss : Nat) (regs : Registers) :
    interruptFrame (writeWords mem rsp (interruptWords regs cs ss)) rsp = regs := by
  ext <;> simp [interruptFrame, writeWords, interruptWords]

/-- The result of a blocking call replaces rax and nothing else. -/
theorem blockingFrame_retval (mem : Memory) (rsp retval retval' : Nat) :
    withRax (Thread.blockingFrame mem rsp retval') retval =
      Thread.blockingFrame mem rsp retval := rfl

/-- A blocked thread can still return to its caller: through its frame, or through the
context after a waker copied the frame there. -/
def Restorable (m : Machine) (regs : Registers) : Prop :=
  (m.thread.blockingRsp ≠ 0 ∧ m.thread.kernelStackBase ≤ m.thread.blockingRsp ∧
    m.thread.blockingRsp + 152 ≤ m.stackTop ∧
    Thread.blockingFrame m.mem m.thread.blockingRsp regs.rax = regs) ∨
  (m.thread.blockingRsp = 0 ∧ m.thread.kernelPreempted = false ∧
    withRax regs m.thread.userContext.rax = m.thread.userContext.toRegisters)

/-- The int 0x80 frame of a syscall lies in the thread's kernel stack. -/
def FrameIn (m : Machine) (frame : Nat) : Prop :=
  frame ≠ 0 ∧ m.thread.kernelStackBase ≤ frame ∧ frame + 152 ≤ m.stackTop

/-- Off its CPU a thread keeps what the latest suspension saved, and the two flags
lead both dispatchers to it. -/
def Saved (m : Machine) : Prop :=
  match m.last with
  | .user regs =>
      m.place = .user ∧ m.thread.blockingRsp = 0 ∧ m.thread.kernelPreempted = false ∧
        m.thread.userContext.toRegisters = regs
  | .kernel regs =>
      (∃ frame, m.place = .kernel frame ∧ FrameIn m frame) ∧ m.thread.blockingRsp = 0 ∧
        m.thread.kernelPreempted = true ∧ m.thread.kernelStackBase ≤ m.thread.kernelRsp ∧
        m.thread.kernelRsp + 160 ≤ m.stackTop ∧ interruptFrame m.mem m.thread.kernelRsp = regs
  | .blocked regs => m.place = .user ∧ Restorable m regs

/-- On its CPU a thread has no blocking frame on record until the stub commits one. -/
def Executing (m : Machine) : Prop :=
  match m.place with
  | .user => m.thread.blockingRsp = 0
  | .kernel frame => m.thread.blockingRsp = 0 ∧ FrameIn m frame
  | .parking frame => m.thread.blockingRsp = 0 ∧ FrameIn m frame ∧ m.blockingRspTmp = frame
  | .leaving => ∃ regs, m.last = .blocked regs ∧ Restorable m regs

def Consistent (m : Machine) : Prop := if m.onCpu then Executing m else Saved m

/-- Two records of a thread that save the same: they may differ in state, wait target
and pending result. -/
structure SameSaves (t t' : Thread) : Prop where
  userContext : t'.userContext = t.userContext
  kernelRsp : t'.kernelRsp = t.kernelRsp
  kernelStackBase : t'.kernelStackBase = t.kernelStackBase
  kernelPreempted : t'.kernelPreempted = t.kernelPreempted
  blockingRsp : t'.blockingRsp = t.blockingRsp

theorem sameSaves_setReady (t : Thread) : SameSaves t t.setReady := by
  obtain ⟨state, h⟩ := t.setReady_eq
  exact h ▸ ⟨rfl, rfl, rfl, rfl, rfl⟩

theorem sameSaves_setRunning (t : Thread) : SameSaves t t.setRunning := by
  obtain ⟨state, h⟩ := t.setRunning_eq
  exact h ▸ ⟨rfl, rfl, rfl, rfl, rfl⟩

theorem sameSaves_block (t : Thread) (target : WaitTarget) :
    SameSaves t { t with waitTarget := target }.setSleeping := by
  obtain ⟨state, h⟩ := Thread.setSleeping_eq { t with waitTarget := target }
  exact h ▸ ⟨rfl, rfl, rfl, rfl, rfl⟩

theorem Restorable.congr (h : Restorable m regs)
    (same : SameSaves m.thread t) : Restorable { m with thread := t } regs := by
  unfold Restorable stackTop at h ⊢
  rwa [same.userContext, same.kernelStackBase, same.kernelPreempted, same.blockingRsp]

theorem Consistent.congr (h : Consistent m)
    (same : SameSaves m.thread t) : Consistent { m with thread := t } := by
  unfold Consistent at h ⊢
  dsimp only
  split at h
  · rename_i hcpu
    rw [if_pos hcpu]
    unfold Executing FrameIn stackTop at h ⊢
    dsimp only
    rw [same.blockingRsp, same.kernelStackBase]
    split at h
    · exact h
    · exact h
    · exact h
    · obtain ⟨regs, hlast, hregs⟩ := h
      exact ⟨regs, hlast, hregs.congr same⟩
  · rename_i hcpu
    rw [if_neg hcpu]
    unfold Saved FrameIn stackTop at h ⊢
    dsimp only
    rw [same.blockingRsp, same.kernelStackBase, same.kernelRsp, same.kernelPreempted,
      same.userContext]
    split at h
    · exact h
    · exact h
    · exact ⟨h.1, h.2.congr same⟩

theorem restore_of_zero (h : t.blockingRsp = 0) (mem : Memory) (retval : Nat) :
    t.restoreCtxFromBlockingFrame mem retval = t := if_pos h

theorem Restorable.restore (h : Restorable m regs) (retval : Nat) :
    Restorable { m with thread := m.thread.restoreCtxFromBlockingFrame m.mem retval } regs := by
  obtain ⟨hrsp, -, -, hregs⟩ | ⟨hrsp, h⟩ := h
  · right
    simp only [Thread.restoreCtxFromBlockingFrame, if_neg hrsp]
    refine ⟨trivial, trivial, ?_⟩
    rw [← hregs, blockingFrame_retval]
    rfl
  · right
    rw [restore_of_zero hrsp]
    exact ⟨hrsp, h⟩

/-- Copying the blocking frame into the context keeps what is saved; without a blocking
frame nothing is copied. -/
theorem Consistent.restore (h : Consistent m) (retval : Nat) :
    Consistent { m with thread := m.thread.restoreCtxFromBlockingFrame m.mem retval } := by
  by_cases hrsp : m.thread.blockingRsp = 0
  · rwa [restore_of_zero hrsp]
  · unfold Consistent at h ⊢
    dsimp only
    split at h
    · rename_i hcpu
      rw [if_pos hcpu]
      unfold Executing at h ⊢
      dsimp only
      split at h
      · exact absurd h hrsp
      · exact absurd h.1 hrsp
      · exact absurd h.1 hrsp
      · obtain ⟨regs, hlast, hregs⟩ := h
        exact ⟨regs, hlast, hregs.restore retval⟩
    · rename_i hcpu
      rw [if_neg hcpu]
      unfold Saved at h ⊢
      dsimp only
      split at h
      · exact absurd h.2.1 hrsp
      · exact absurd h.2.1 hrsp
      · exact ⟨h.1, h.2.restore retval⟩

theorem Consistent.wake (h : Consistent m) (retval : Nat) :
    Consistent { m with thread := m.thread.wake m.mem retval } :=
  (h.restore retval).congr ⟨rfl, rfl, rfl, rfl, rfl⟩

theorem Consistent.setBlockingRetval (h : Consistent m) (retval : Nat) :
    Consistent { m with thread := { m.thread with blockingRetval := retval } } :=
  h.congr ⟨rfl, rfl, rfl, rfl, rfl⟩

theorem Consistent.applyBlockingReturn (h : Consistent m) :
    Consistent { m with thread := m.thread.applyBlockingReturnIfPending m.mem } := by
  unfold Thread.applyBlockingReturnIfPending
  split
  · exact (h.setBlockingRetval 0).restore m.thread.blockingRetval
  · exact h

theorem Consistent.interruptSleep (h : Consistent m) : Consistent { m with thread :=
      { (m.thread.applyBlockingReturnIfPending m.mem).setReady with waitTarget := .none } } := by
  have hready := h.applyBlockingReturn.congr (sameSaves_setReady _)
  exact hready.congr ⟨rfl, rfl, rfl, rfl, rfl⟩

/-- A write outside the frames a thread has saved. -/
theorem Restorable.write (h : Restorable m regs)
    (hsame : ∀ a, m.thread.kernelStackBase ≤ a → a < m.stackTop → mem a = m.mem a) :
    Restorable { m with mem } regs := by
  obtain ⟨hrsp, hbase, htop, hregs⟩ | h := h
  · refine .inl ⟨hrsp, hbase, htop, ?_⟩
    rw [← hregs]
    apply blockingFrame_congr
    intro a hlo hhi
    dsimp only at hlo hhi
    exact hsame a (by omega) (by omega)
  · exact .inr h

theorem Consistent.write (h : Consistent m)
    (hsame : ∀ a, m.thread.kernelStackBase ≤ a → a < m.stackTop → mem a = m.mem a) :
    Consistent { m with mem } := by
  unfold Consistent at h ⊢
  dsimp only
  split at h
  · rename_i hcpu
    rw [if_pos hcpu]
    unfold Executing at h ⊢
    dsimp only
    split at h
    · exact h
    · exact h
    · exact h
    · obtain ⟨regs, hlast, hregs⟩ := h
      exact ⟨regs, hlast, hregs.write hsame⟩
  · rename_i hcpu
    rw [if_neg hcpu]
    unfold Saved at h ⊢
    dsimp only
    split at h
    · exact h
    · obtain ⟨hplace, hrsp, hflag, hbase, htop, hregs⟩ := h
      refine ⟨hplace, hrsp, hflag, hbase, htop, ?_⟩
      rw [← hregs]
      apply interruptFrame_congr
      intro a hlo hhi
      exact hsame a (by omega) (by omega)
    · exact ⟨h.1, h.2.write hsame⟩

theorem Consistent.executing (h : Consistent m) (hcpu : m.onCpu = true) : Executing m := by
  rwa [Consistent, if_pos hcpu] at h

theorem Consistent.saved (h : Consistent m) (hcpu : m.onCpu = false) : Saved m := by
  rwa [Consistent, hcpu, if_neg Bool.false_ne_true] at h

theorem Consistent.at_kernel {frame : Nat} (h : Consistent m) (hcpu : m.onCpu = true)
    (hplace : m.place = .kernel frame) : m.thread.blockingRsp = 0 ∧ FrameIn m frame := by
  have hexec := h.executing hcpu
  rwa [Executing, hplace] at hexec

theorem Consistent.at_user (h : Consistent m) (hcpu : m.onCpu = true)
    (hplace : m.place = .user) : m.thread.blockingRsp = 0 := by
  have hexec := h.executing hcpu
  rwa [Executing, hplace] at hexec

/-- The timer saves a thread interrupted in a syscall below the syscall's frame. -/
theorem Consistent.preemptKernel {frame rsp : Nat} (h : Consistent m) (hcpu : m.onCpu = true)
    (hplace : m.place = .kernel frame) (hroom : m.roomFor rsp = true) :
    Saved { m.pushKernel rsp regs with onCpu := false } ∧ Executing (m.pushKernel rsp regs) := by
  obtain ⟨hzero, hframe⟩ := h.at_kernel hcpu hplace
  have hsaves := sameSaves_setReady { m.thread with kernelRsp := rsp, kernelPreempted := true }
  have hbase : (m.thread.preemptKernel rsp).kernelStackBase = m.thread.kernelStackBase :=
    hsaves.kernelStackBase
  have hrsp : (m.thread.preemptKernel rsp).kernelRsp = rsp := hsaves.kernelRsp
  have hblocking : (m.thread.preemptKernel rsp).blockingRsp = 0 := hsaves.blockingRsp.trans hzero
  simp only [roomFor, hplace, Bool.and_eq_true, decide_eq_true_eq] at hroom
  have hin : FrameIn (m.pushKernel rsp regs) frame := by
    unfold FrameIn stackTop at hframe ⊢
    simp only [pushKernel, hbase]
    exact hframe
  constructor
  · simp only [Saved, pushKernel, stackTop, hplace, hbase, hrsp, hblocking]
    refine ⟨⟨frame, rfl, hin⟩, trivial, hsaves.kernelPreempted, hroom.1, ?_,
      interruptFrame_writeWords ..⟩
    have htop := hframe.2.2
    unfold stackTop at htop
    omega
  · simp only [Executing, pushKernel, hplace, hblocking]
    exact ⟨trivial, hin⟩

theorem Consistent.preemptUser (h : Consistent m) (hcpu : m.onCpu = true) (hplace : m.place = .user)
    (hregs : interruptFrame mem rsp = regs) :
    Saved { m with mem, thread := m.thread.preemptUser mem rsp, onCpu := false,
                   last := .user regs } := by
  have hsaves := sameSaves_setReady
    { m.thread.saveUserContext mem rsp with kernelPreempted := false }
  simp only [Saved, Thread.preemptUser, hsaves.blockingRsp, hsaves.kernelPreempted,
    hsaves.userContext, hplace, true_and]
  exact ⟨h.at_user hcpu hplace, hregs⟩

theorem Consistent.commit {frame : Nat} (h : Consistent m) (hcpu : m.onCpu = true)
    (hplace : m.place = .parking frame) :
    Restorable
      { m with
        thread := { m.thread with blockingRsp := m.blockingRspTmp }
        place := .leaving
        last := .blocked (Thread.blockingFrame m.mem frame 0) }
      (Thread.blockingFrame m.mem frame 0) := by
  have hexec := h.executing hcpu
  rw [Executing, hplace] at hexec
  obtain ⟨-, ⟨hframe, hbase, htop⟩, htmp⟩ := hexec
  left
  simp only [htmp]
  exact ⟨hframe, hbase, htop, rfl⟩

theorem user_resumedBy (mem : Memory) (context : UserContext) (ring3 : Bool) :
    (Suspension.user context.toRegisters).ResumedBy mem
      (.user (if ring3 then context else Thread.temporaryContext context)) := by
  cases ring3 with
  | false => exact .inr rfl
  | true => exact .inl rfl

theorem blocked_resumedBy (mem : Memory) {context : UserContext}
    (h : withRax regs context.rax = context.toRegisters) (ring3 : Bool) :
    (Suspension.blocked regs).ResumedBy mem
      (.user (if ring3 then context else Thread.temporaryContext context)) := by
  cases ring3 with
  | false =>
    change AsSaved (withRax regs context.rax) (Thread.temporaryContext context).toRegisters
    rw [h]
    exact .inr rfl
  | true => exact .inl h.symm

/-- The dispatcher of the scheduler loop continues the latest suspension. -/
theorem enter_resumes (h : Saved m) : m.last.ResumedBy m.mem m.thread.enter.1 := by
  unfold Saved at h
  unfold Thread.enter
  split at h
  · rename_i regs hlast
    obtain ⟨-, hrsp, hflag, hregs⟩ := h
    rw [if_neg (not_not.mpr hrsp), hflag, hlast, ← hregs]
    exact user_resumedBy m.mem _ false
  · rename_i regs hlast
    obtain ⟨-, hrsp, hflag, -, -, hregs⟩ := h
    rw [if_neg (not_not.mpr hrsp), if_pos hflag, hlast]
    exact hregs
  · rename_i regs hlast
    obtain ⟨-, ⟨hrsp, -, -, hregs⟩ | ⟨hrsp, hflag, hregs⟩⟩ := h
    · rw [if_pos hrsp, hlast, ← hregs]
      rfl
    · rw [if_neg (not_not.mpr hrsp), hflag, hlast]
      exact blocked_resumedBy m.mem hregs false

/-- The timer's dispatcher continues the latest suspension, except when a kernel frame
and a blocking frame are both on record: then it loads the kernel frame. -/
theorem switchTo_resumes_iff (h : Saved m) (ring3 : Bool) :
    m.last.ResumedBy m.mem (m.thread.switchTo m.mem ring3).1 ↔
      ¬(m.thread.kernelPreempted = true ∧ m.thread.blockingRsp ≠ 0) := by
  unfold Saved at h
  unfold Thread.switchTo Thread.applyBlockingReturnIfPending
  split at h
  · rename_i regs hlast
    obtain ⟨-, hrsp, hflag, hregs⟩ := h
    rw [if_neg (not_not.mpr hrsp), hflag, hlast, ← hregs]
    exact iff_of_true (user_resumedBy m.mem _ ring3) (fun h => h.2 hrsp)
  · rename_i regs hlast
    obtain ⟨-, hrsp, hflag, -, -, hregs⟩ := h
    rw [if_pos hflag, hlast]
    exact iff_of_true hregs (fun h => h.2 hrsp)
  · rename_i regs hlast
    obtain ⟨-, ⟨hrsp, -, -, hregs⟩ | ⟨hrsp, hflag, hregs⟩⟩ := h
    · by_cases hflag : m.thread.kernelPreempted = true
      · rw [if_pos hflag, hlast]
        exact iff_of_false id (fun h => h ⟨hflag, hrsp⟩)
      · rw [if_neg hflag, if_pos hrsp, Thread.restoreCtxFromBlockingFrame, if_neg hrsp, hlast,
          ← hregs]
        exact iff_of_true (blocked_resumedBy m.mem rfl ring3) (fun h => hflag h.1)
    · rw [if_neg (not_not.mpr hrsp), hflag, hlast]
      exact iff_of_true (blocked_resumedBy m.mem hregs ring3) (fun h => h.2 hrsp)

theorem Saved.kernel_place (h : Saved m) (hflag : m.thread.kernelPreempted = true)
    (hrsp : m.thread.blockingRsp = 0) : ∃ frame, m.place = .kernel frame ∧ FrameIn m frame := by
  unfold Saved at h
  split at h
  · simp [h.2.2.1] at hflag
  · exact h.1
  · obtain ⟨-, ⟨hne, -⟩ | ⟨-, hfalse, -⟩⟩ := h
    · exact absurd hrsp hne
    · simp [hfalse] at hflag

/-- A dispatched thread has no blocking frame on record, and is back in its syscall
if a kernel frame was loaded. -/
theorem executing_resumed
    (hbase : t.kernelStackBase = m.thread.kernelStackBase) (hrsp : t.blockingRsp = 0)
    (hkernel : ∀ rsp, r = .kernel rsp → ∃ frame, m.place = .kernel frame ∧ FrameIn m frame) :
    Executing (m.resumed r t) := by
  have hsaves := sameSaves_setRunning t
  cases r with
  | blocking rsp retval | user context => exact hsaves.blockingRsp.trans hrsp
  | kernel rsp =>
    obtain ⟨frame, hplace, hframe⟩ := hkernel rsp rfl
    simp only [Executing, resumed, hplace, hsaves.blockingRsp, hrsp, true_and]
    simpa only [FrameIn, stackTop, hsaves.kernelStackBase, hbase] using hframe

theorem Saved.enter (h : Saved m) : Executing (m.resumed m.thread.enter.1 m.thread.enter.2) := by
  unfold Thread.enter
  split
  · exact executing_resumed rfl rfl (fun rsp hr => by cases hr)
  · rename_i hrsp
    have hzero := not_not.mp hrsp
    split
    · rename_i hflag
      exact executing_resumed rfl hzero (fun _ _ => h.kernel_place hflag hzero)
    · exact executing_resumed rfl hzero (fun rsp hr => by cases hr)

theorem applyBlockingReturn_blockingRsp (mem : Memory) (t : Thread) :
    (t.applyBlockingReturnIfPending mem).blockingRsp = 0 ∧
      (t.applyBlockingReturnIfPending mem).kernelStackBase = t.kernelStackBase := by
  unfold Thread.applyBlockingReturnIfPending
  split
  · rename_i hrsp
    simp [Thread.restoreCtxFromBlockingFrame, hrsp]
  · rename_i hrsp
    exact ⟨not_not.mp hrsp, rfl⟩

theorem Saved.switchTo (h : Saved m) (ring3 : Bool)
    (hcareful : ¬(m.thread.kernelPreempted = true ∧ m.thread.blockingRsp ≠ 0)) :
    Executing (m.resumed (m.thread.switchTo m.mem ring3).1 (m.thread.switchTo m.mem ring3).2) := by
  unfold Thread.switchTo
  split
  · rename_i hflag
    have hzero : m.thread.blockingRsp = 0 := not_not.mp fun hne => hcareful ⟨hflag, hne⟩
    exact executing_resumed rfl hzero (fun _ _ => h.kernel_place hflag hzero)
  · obtain ⟨hrsp, hbase⟩ := applyBlockingReturn_blockingRsp m.mem m.thread
    exact executing_resumed hbase hrsp (fun rsp hr => by cases hr)

theorem chosen_off (h : m.chosen e = some (r, t)) :
    m.onCpu = false ∧ ((e = .enter ∧ (r, t) = m.thread.enter) ∨
      ∃ ring3, e = .switch ring3 ∧ (r, t) = m.thread.switchTo m.mem ring3) := by
  cases e with
  | enter =>
    simp only [chosen, Option.ite_none_right_eq_some, Option.some.injEq, Bool.and_eq_true,
      Bool.not_eq_eq_eq_not, Bool.not_true] at h
    exact ⟨h.1.1, .inl ⟨rfl, h.2.symm⟩⟩
  | switch ring3 =>
    simp only [chosen, Option.ite_none_right_eq_some, Option.some.injEq, Bool.and_eq_true,
      Bool.not_eq_eq_eq_not, Bool.not_true] at h
    exact ⟨h.1.1, .inr ⟨ring3, rfl, h.2.symm⟩⟩
  | _ => cases h

theorem executing_consistent (h : Executing m) (hcpu : m.onCpu = true) : Consistent m := by
  rwa [Consistent, if_pos hcpu]

theorem saved_consistent (h : Saved m) (hcpu : m.onCpu = false) : Consistent m := by
  rwa [Consistent, hcpu, if_neg Bool.false_ne_true]

theorem syscall_consistent {m n : Machine} (h : Consistent m)
    (hstep : step m (.syscall regs) = some n) : Consistent n := by
  simp only [step, Option.ite_none_right_eq_some, Bool.and_eq_true, decide_eq_true_eq,
    Option.some.injEq] at hstep
  obtain ⟨⟨hcpu, hplace⟩, rfl⟩ := hstep
  apply executing_consistent
  · simp only [Executing, FrameIn, stackTop, kernelStackSize]
    have hzero := h.at_user hcpu hplace
    omega
  · exact hcpu

theorem dispatch_consistent {m n : Machine} (h : Consistent m) (hcareful : Careful m e)
    (hstep : (m.chosen e).map (fun (r, t) => m.resumed r t) = some n) : Consistent n := by
  simp only [Option.map_eq_some_iff, Prod.exists] at hstep
  obtain ⟨r, t, hchosen, rfl⟩ := hstep
  obtain ⟨hcpu, ⟨-, hrt⟩ | ⟨ring3, rfl, hrt⟩⟩ := chosen_off hchosen
  · have hexec := (h.saved hcpu).enter
    rw [← hrt] at hexec
    exact executing_consistent hexec rfl
  · have hexec := (h.saved hcpu).switchTo ring3 hcareful
    rw [← hrt] at hexec
    exact executing_consistent hexec rfl

theorem elsewhere_consistent {m n : Machine} {addr value : Nat} (h : Consistent m)
    (hstep : step m (.elsewhere addr value) = some n) : Consistent n := by
  simp only [step] at hstep
  split at hstep
  · rename_i hout
    cases hstep
    apply h.write
    intro a hlo hhi
    apply Function.update_of_ne
    rintro rfl
    simp [inStack, hlo, hhi] at hout
  · rename_i regs hcpu hlast _
    cases hstep
    have hsaved := h.saved hcpu
    apply saved_consistent
    · rw [Saved, hlast] at hsaved
      simpa only [Saved, hlast] using hsaved
    · exact hcpu
  · cases hstep

theorem step_consistent (m : Machine) (e : Event) (n : Machine) (h : Consistent m)
    (hstep : Steps m e n) : Consistent n := by
  obtain ⟨hstep, hcareful⟩ := hstep
  cases e with
  | syscall regs => exact syscall_consistent h hstep
  | write addr value =>
    simp only [step] at hstep
    split at hstep
    · rename_i frame hcpu hplace
      simp only [Option.ite_none_right_eq_some, Option.some.injEq] at hstep
      obtain ⟨-, rfl⟩ := hstep
      apply executing_consistent
      · simp only [Executing, hplace]
        exact h.at_kernel hcpu hplace
      · exact hcpu
    · cases hstep
  | sysret =>
    simp only [step] at hstep
    split at hstep
    · rename_i frame hcpu hplace
      cases hstep
      exact executing_consistent (h.at_kernel hcpu hplace).1 hcpu
    · cases hstep
  | preemptUser regs =>
    simp only [step, Option.ite_none_right_eq_some, Bool.and_eq_true, decide_eq_true_eq,
      Option.some.injEq] at hstep
    obtain ⟨⟨hcpu, hplace⟩, rfl⟩ := hstep
    exact saved_consistent (h.preemptUser hcpu hplace (interruptFrame_writeWords ..)) rfl
  | preemptKernel rsp regs =>
    simp only [step, Option.ite_none_right_eq_some, Bool.and_eq_true, Option.some.injEq] at hstep
    obtain ⟨⟨hcpu, hroom⟩, rfl⟩ := hstep
    obtain ⟨frame, hplace⟩ := hcareful
    exact saved_consistent (h.preemptKernel hcpu hplace hroom).1 rfl
  | tickReturn rsp regs =>
    simp only [step, Option.ite_none_right_eq_some, Bool.and_eq_true, Option.some.injEq] at hstep
    obtain ⟨⟨hcpu, hroom⟩, rfl⟩ := hstep
    obtain ⟨frame, hplace⟩ := hcareful
    exact executing_consistent (h.preemptKernel hcpu hplace hroom).2 hcpu
  | block target =>
    simp only [step] at hstep
    split at hstep
    · cases hstep
      exact h.congr (sameSaves_block m.thread target)
    · cases hstep
  | park =>
    simp only [step] at hstep
    split at hstep
    · rename_i frame hcpu hplace
      cases hstep
      obtain ⟨hrsp, hframe⟩ := h.at_kernel hcpu hplace
      exact executing_consistent ⟨hrsp, hframe, rfl⟩ hcpu
    · cases hstep
  | commit =>
    simp only [step] at hstep
    split at hstep
    · rename_i frame hcpu hplace
      cases hstep
      exact executing_consistent ⟨_, rfl, h.commit hcpu hplace⟩ hcpu
    · cases hstep
  | leave =>
    simp only [step, Option.ite_none_right_eq_some, Bool.and_eq_true, decide_eq_true_eq,
      Option.some.injEq] at hstep
    obtain ⟨⟨hcpu, hplace⟩, rfl⟩ := hstep
    have hexec := h.executing hcpu
    rw [Executing, hplace] at hexec
    obtain ⟨regs, hlast, hregs⟩ := hexec
    apply saved_consistent ?_ rfl
    simp only [Saved, hlast, true_and]
    exact hregs
  | wake retval =>
    simp only [step, Option.ite_none_right_eq_some, Option.some.injEq] at hstep
    obtain ⟨-, rfl⟩ := hstep
    exact h.wake retval
  | wakePipe count =>
    simp only [step, Option.ite_none_right_eq_some, Option.some.injEq] at hstep
    obtain ⟨-, rfl⟩ := hstep
    exact (h.setBlockingRetval count).wake count
  | interruptSleep =>
    simp only [step, Option.ite_none_right_eq_some, Option.some.injEq] at hstep
    obtain ⟨-, rfl⟩ := hstep
    exact h.interruptSleep
  | makeReady =>
    simp only [step, Option.some.injEq] at hstep
    subst hstep
    exact h.congr (sameSaves_setReady m.thread)
  | enter | switch ring3 => exact dispatch_consistent h hcareful hstep
  | elsewhere addr value => exact elsewhere_consistent h hstep
  | otherParks frame =>
    simp only [step] at hstep
    split at hstep
    · cases hstep
    · rename_i hcpu
      cases hstep
      exact saved_consistent (h.saved (Bool.eq_false_iff.mpr hcpu)) (Bool.eq_false_iff.mpr hcpu)

/-- Along every run that is careful at each step, a dispatch continues the latest
suspension exactly if it is careful itself. -/
theorem dispatch_resumes_iff {thread : Thread} (hrsp : thread.blockingRsp = 0)
    (hflag : thread.kernelPreempted = false) {es : List Event}
    (run : Lib.Run Steps (start thread mem) es m) (hchosen : m.chosen e = some (r, t)) :
    m.last.ResumedBy m.mem r ↔ Careful m e := by
  have hstart : Consistent (start thread mem) := ⟨rfl, hrsp, hflag, rfl⟩
  have hconsistent := run.preserves step_consistent hstart
  obtain ⟨hcpu, ⟨rfl, hrt⟩ | ⟨ring3, rfl, hrt⟩⟩ := chosen_off hchosen
  · have hresumes := enter_resumes (hconsistent.saved hcpu)
    rw [← hrt] at hresumes
    exact iff_of_true hresumes trivial
  · have hresumes := switchTo_resumes_iff (hconsistent.saved hcpu) ring3
    rwa [← hrt] at hresumes

/-! The kernel runs with interrupts off: int 0x80 goes through an interrupt gate, and the idle loop
enables them only without a current thread. -/

/-- A tick that finds the thread in ring 0. -/
def Event.ticksKernel : Event → Bool
  | .preemptKernel _ _ | .tickReturn _ _ => true
  | _ => false

@[simp] theorem setReady_kernelPreempted (t : Thread) :
    t.setReady.kernelPreempted = t.kernelPreempted := (sameSaves_setReady t).kernelPreempted

@[simp] theorem preemptUser_kernelPreempted (mem : Memory) (rsp : Nat) (t : Thread) :
    (t.preemptUser mem rsp).kernelPreempted = false := (sameSaves_setReady _).kernelPreempted

@[simp] theorem restore_kernelPreempted (h : t.kernelPreempted = false) (mem : Memory)
    (retval : Nat) : (t.restoreCtxFromBlockingFrame mem retval).kernelPreempted = false := by
  unfold Thread.restoreCtxFromBlockingFrame
  split
  · exact h
  · rfl

@[simp] theorem applyBlockingReturn_kernelPreempted (h : t.kernelPreempted = false)
    (mem : Memory) : (t.applyBlockingReturnIfPending mem).kernelPreempted = false := by
  unfold Thread.applyBlockingReturnIfPending
  split
  · exact restore_kernelPreempted (t := { t with blockingRetval := 0 }) h mem _
  · exact h

theorem chosen_kernelPreempted (h : m.thread.kernelPreempted = false)
    (hchosen : m.chosen e = some (r, t)) : t.kernelPreempted = false := by
  obtain ⟨-, ⟨-, hrt⟩ | ⟨ring3, -, hrt⟩⟩ := chosen_off hchosen
  · obtain rfl := congrArg Prod.snd hrt
    unfold Thread.enter
    split
    · exact h
    · rw [h]
      exact h
  · obtain rfl := congrArg Prod.snd hrt
    unfold Thread.switchTo
    rw [h]
    exact applyBlockingReturn_kernelPreempted h m.mem

/-- Only such a tick leaves a kernel frame on record. -/
theorem step_kernelPreempted {m n : Machine} (h : m.thread.kernelPreempted = false)
    (htick : e.ticksKernel = false) (hstep : step m e = some n) :
    n.thread.kernelPreempted = false := by
  have hdispatch : ∀ e, (m.chosen e).map (fun (r, t) => m.resumed r t) = some n →
      n.thread.kernelPreempted = false := by
    intro e hn
    obtain ⟨⟨r, t⟩, hchosen, rfl⟩ := Option.map_eq_some_iff.mp hn
    exact (sameSaves_setRunning t).kernelPreempted.trans (chosen_kernelPreempted h hchosen)
  cases e with
  | preemptKernel | tickReturn => cases htick
  | enter => exact hdispatch .enter hstep
  | switch ring3 => exact hdispatch (.switch ring3) hstep
  | block target =>
    simp only [step] at hstep
    split at hstep
    · cases hstep
      exact (sameSaves_block _ _).kernelPreempted.trans h
    · cases hstep
  | preemptUser | wake | wakePipe | interruptSleep | makeReady | syscall | write | sysret | park
  | commit | leave | elsewhere | otherParks =>
    simp only [step] at hstep
    repeat' split at hstep
    all_goals
      cases hstep
      try simp [h, Thread.wake]

theorem careful_of_kernelPreempted (h : m.thread.kernelPreempted = false)
    (htick : e.ticksKernel = false) : Careful m e := by
  cases e with
  | preemptKernel | tickReturn => cases htick
  | switch ring3 => exact fun hboth => Bool.false_ne_true (h.symm.trans hboth.1)
  | _ => trivial

/-- Along every run in which ticks find the thread in ring 3 only, every dispatch continues the
latest suspension. -/
theorem dispatch_resumes_last {thread : Thread} {mem : Memory} (hrsp : thread.blockingRsp = 0)
    (hflag : thread.kernelPreempted = false) {es : List Event} {m : Machine}
    (run : Lib.Run (fun m e n => step m e = some n) (start thread mem) es m)
    (hticks : ∀ e ∈ es, e.ticksKernel = false) {e : Event} {r : Resumption} {t : Thread}
    (hchosen : m.chosen e = some (r, t)) : m.last.ResumedBy m.mem r := by
  have hrun := run.restrict hticks
  have hstep : ∀ (m : Machine) (e : Event) (n : Machine), m.thread.kernelPreempted = false →
      step m e = some n ∧ e.ticksKernel = false →
      Steps m e n ∧ n.thread.kernelPreempted = false := by
    rintro m e n hnone ⟨hstep, htick⟩
    exact ⟨⟨hstep, careful_of_kernelPreempted hnone htick⟩,
      step_kernelPreempted hnone htick hstep⟩
  have hcareful := hrun.refine hstep hflag
  have hkept := hrun.preserves (fun m e n hnone h => (hstep m e n hnone h).2) hflag
  apply (dispatch_resumes_iff hrsp hflag hcareful hchosen).mpr
  refine careful_of_kernelPreempted hkept ?_
  obtain ⟨-, ⟨rfl, -⟩ | ⟨ring3, rfl, -⟩⟩ := chosen_off hchosen
  · rfl
  · rfl

/-- A thread on a stack of its own, as at creation. -/
def firstThread : Thread := Tasks.newThread 1 1 4096 .user 0

def firstMachine : Machine := start firstThread (fun _ => 0)

/-- The thread blocks and is woken with a result, and the timer dispatches it. -/
theorem dispatch_resumes_last_firstMachine :
    ∃ es m r t, Lib.Run (fun m e n => step m e = some n) firstMachine es m ∧
      m.chosen (.switch true) = some (r, t) ∧ m.last.ResumedBy m.mem r := by
  have run : Lib.Run (fun m e n => step m e = some n) firstMachine
      [.makeReady, .enter, .syscall emptyUserContext.toRegisters, .block .keyboard, .park,
        .commit, .leave, .wake 65] _ :=
    .cons rfl <| .cons rfl <| .cons rfl <| .cons rfl <| .cons rfl <| .cons rfl <| .cons rfl <|
      .cons rfl <| .nil _
  have hticks : ∀ e ∈ [Event.makeReady, .enter, .syscall emptyUserContext.toRegisters,
      .block .keyboard, .park, .commit, .leave, .wake 65], e.ticksKernel = false := by
    simp [Event.ticksKernel]
  exact ⟨_, _, _, _, run, rfl, dispatch_resumes_last rfl rfl run hticks (e := .switch true) rfl⟩

/-- A thread preempted in a syscall, resumed there, then blocked and killed: the timer
loads the kernel frame it had already resumed. -/
theorem switch_loads_consumed_frame :
    ∃ es m r t, Lib.Run (fun m e n => step m e = some n) firstMachine es m ∧
      m.chosen (.switch true) = some (r, t) ∧ ¬m.last.ResumedBy m.mem r := by
  have run : Lib.Run (fun m e n => step m e = some n) firstMachine
      [.makeReady, .enter, .syscall emptyUserContext.toRegisters,
        .preemptKernel 60000 emptyUserContext.toRegisters, .enter, .block .keyboard, .park,
        .commit, .leave, .makeReady] _ :=
    .cons rfl <| .cons rfl <| .cons rfl <| .cons rfl <| .cons rfl <| .cons rfl <| .cons rfl <|
      .cons rfl <| .cons rfl <| .cons rfl <| .nil _
  exact ⟨_, _, _, _, run, rfl, id⟩

end KazuOS.Task.Resume
