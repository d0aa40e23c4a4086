import KazuOS.Kernel.System

/-! How a blocked call completes. One section, run by whoever wakes the thread, fixes its
result; another, run by the thread's own CPU, records the frame the result goes to. The two
come in either order, and a dispatcher then returns to the caller. -/
namespace KazuOS.Kernel

open KazuOS.Memory KazuOS.Task

/-- The sections that wake a thread with a result. -/
inductive Waker where
  | key (byte : Nat)
  | process (exitedPid : Nat)
  | thread (exitedTid : Nat)
  | ipc (pid retval : Nat)
  | irq (number : Nat)
  | pipe (pipeId : Nat)
  | timer (now : Nat)

def Waker.apply (k : Kernel) : Waker → Kernel
  | .key byte => k.setThreads (k.tasks.threads.wakeupKeyWaiters k.tasks.mem byte).2
  | .process exitedPid => k.setThreads (k.tasks.threads.wakeupPidWaiters k.tasks.mem exitedPid)
  | .thread exitedTid => k.setThreads (k.tasks.threads.wakeupThreadWaiters k.tasks.mem exitedTid)
  | .ipc pid retval => k.wakeupIpcWaiter pid retval
  | .irq number => k.setThreads (k.tasks.threads.wakeupIrqWaiter k.tasks.mem number).2
  | .pipe pipeId => k.notifyPipeReaders pipeId
  | .timer now => k.onTasks (·.wakeTimerSleepers now)

/-- A thread that sleeps on an accepted target. -/
def sleepsOn (threads : Threads) (accepts : WaitTarget → Bool) (tid : Nat) : Bool :=
  match threads.lookup tid with
  | some t => t.waitsOn accepts
  | none => false

/-- The first thread of the table that sleeps on an accepted target. -/
def firstOn (threads : Threads) (accepts : WaitTarget → Bool) (tid : Nat) : Bool :=
  sleepsOn threads accepts tid && threads.find? (·.waitsOn accepts) = threads.lookup tid

/-- How many bytes the loop over the thread table gives to one reader. -/
def deliveredTo (vm : Vmm) (pipeId tid : Nat) : Threads → List (Option PipeState) → Option Nat
  | [], _ => none
  | t :: threads, pipes =>
      if t.tid = tid then
        (readerOf vm pipeId t).map fun bufLen => (drain pipes pipeId bufLen).1.length
      else
        match readerOf vm pipeId t with
        | some bufLen => deliveredTo vm pipeId tid threads (drain pipes pipeId bufLen).2
        | none => deliveredTo vm pipeId tid threads pipes

/-- The result with which a section wakes a thread, if it wakes it. -/
def Waker.wakes (k : Kernel) (tid : Nat) : Waker → Option Nat
  | .key byte => if firstOn k.tasks.threads (· = .keyboard) tid then some byte else none
  | .process exitedPid => if sleepsOn k.tasks.threads (· = .pid exitedPid) tid then some 1 else none
  | .thread exitedTid => if sleepsOn k.tasks.threads (· = .tid exitedTid) tid then some 0 else none
  | .ipc pid retval =>
      if k.tasks.mainTid pid = some tid ∧ sleepsOn k.tasks.threads Threads.isIpc tid then
        some retval
      else none
  | .irq number => if firstOn k.tasks.threads (· = .irq number) tid then some 0 else none
  | .pipe pipeId => deliveredTo k.vm pipeId tid k.tasks.threads k.pipes
  | .timer now =>
      if sleepsOn k.tasks.threads (Threads.timerExpired now) tid then some 0 else none

/-- The result of every waker but `notify_pipe_readers`, which counts what it delivers. -/
def Waker.fixedResult : Waker → Option Nat
  | .key byte => some byte
  | .process _ => some 1
  | .ipc _ retval => some retval
  | .thread _ | .irq _ | .timer _ => some 0
  | .pipe _ => none

/-- The record of a thread woken with a result. -/
def Waker.woken (mem : Memory) (result : Nat) (waker : Waker) (t : Thread) : Thread :=
  match waker.fixedResult with
  | some _ => t.wake mem result
  | none => { t with blockingRetval := result }.wake mem result

theorem wake_tid (mem : Memory) (retval : Nat) (t : Thread) : (t.wake mem retval).tid = t.tid := by
  unfold Thread.wake Thread.restoreCtxFromBlockingFrame
  split
  · rfl
  · rfl

theorem lookup_wakeAll (mem : Memory) (retval : Nat) (accepts : WaitTarget → Bool)
    (threads : Threads) (tid : Nat) :
    (threads.wakeAll mem retval accepts).lookup tid =
      (threads.lookup tid).map fun t => if t.waitsOn accepts then t.wake mem retval else t := by
  have htid : ((fun t : Thread => decide (t.tid = tid)) ∘ fun t : Thread =>
      if t.waitsOn accepts then t.wake mem retval else t) = fun t => decide (t.tid = tid) := by
    funext t
    simp only [Function.comp_apply]
    split
    · rw [wake_tid]
    · rfl
  simp only [Threads.wakeAll, Threads.lookup, List.find?_map, htid]

variable {accepts : WaitTarget → Bool} {threads : Threads} {t : Thread} {waker : Waker} {k : Kernel}
  {tid : Nat}

theorem lookup_of_sleepsOn (h : sleepsOn threads accepts tid = true) :
    ∃ t, threads.lookup tid = some t ∧ t.waitsOn accepts = true := by
  unfold sleepsOn at h
  cases ht : threads.lookup tid with
  | none => simp [ht] at h
  | some t => exact ⟨t, rfl, by simpa [ht] using h⟩

theorem lookup_wakeAll_of_sleepsOn
    (h : sleepsOn threads accepts tid = true) (mem : Memory) (retval : Nat) :
    ∃ t, threads.lookup tid = some t ∧
      (threads.wakeAll mem retval accepts).lookup tid = some (t.wake mem retval) := by
  obtain ⟨t, ht, hwaits⟩ := lookup_of_sleepsOn h
  refine ⟨t, ht, ?_⟩
  simp [lookup_wakeAll, ht, hwaits]

theorem lookup_wakeFirst_of_firstOn
    (h : firstOn threads accepts tid = true) (mem : Memory) (retval : Nat) :
    ∃ t, threads.lookup tid = some t ∧
      (threads.wakeFirst mem retval (fun _ => true) accepts).2.lookup tid =
        some (t.wake mem retval) := by
  unfold firstOn at h
  simp only [Bool.and_eq_true, decide_eq_true_eq] at h
  obtain ⟨hsleeps, hfirst⟩ := h
  obtain ⟨t, ht, -⟩ := lookup_of_sleepsOn hsleeps
  have htid : t.tid = tid := by simpa using List.find?_some ht
  refine ⟨t, ht, ?_⟩
  subst htid
  simp only [Threads.wakeFirst, Bool.true_and]
  exact Lib.find?_modifyFirst_of_first Thread.tid (wake_tid mem retval) (hfirst.trans ht) ht

/-- The threads that sleep on an accepted target. -/
def sleepers (threads : Threads) (accepts : WaitTarget → Bool) : List Thread :=
  threads.filter (·.waitsOn accepts)

theorem waitsOn_wake (mem : Memory) (retval : Nat) (accepts : WaitTarget → Bool) (t : Thread) :
    (t.wake mem retval).waitsOn accepts = false := by
  simp [Thread.wake, Thread.waitsOn]

section Sleepers

variable {threads : Threads} {accepts : WaitTarget → Bool} {t : Thread}

/-- While at most one thread sleeps on a target, an update of it decides who does. -/
theorem sleepers_update {f : Thread → Thread} {tid : Nat} (ht : threads.lookup tid = some t)
    (halone : sleepers threads accepts = if t.waitsOn accepts then [t] else []) :
    sleepers (threads.update tid f) accepts = if (f t).waitsOn accepts then [f t] else [] :=
  Lib.filter_modifyFirst_of_alone ht halone

theorem find?_of_sleepers (h : sleepers threads accepts = [t]) :
    threads.find? (·.waitsOn accepts) = some t := by
  rw [← List.head?_filter]
  exact congrArg List.head? h

theorem waitsOn_of_sleepers (h : sleepers threads accepts = [t]) : t.waitsOn accepts = true :=
  List.find?_some (find?_of_sleepers h)

/-- Waking the only sleeper leaves none. -/
theorem sleepers_wakeFirst (h : sleepers threads accepts = [t]) (mem : Memory) (retval : Nat) :
    sleepers (threads.wakeFirst mem retval (fun _ => true) accepts).2 accepts = [] := by
  have halone : threads.filter (·.waitsOn accepts) = if t.waitsOn accepts then [t] else [] := by
    rw [waitsOn_of_sleepers h]
    exact h
  simp only [sleepers, Threads.wakeFirst, Bool.true_and]
  rw [Lib.filter_modifyFirst_of_alone (find?_of_sleepers h) halone, waitsOn_wake]
  rfl

/-- A waker finds someone exactly if somebody sleeps. -/
theorem wakeFirst_fst (mem : Memory) (retval : Nat) :
    (threads.wakeFirst mem retval (fun _ => true) accepts).1 = !(sleepers threads accepts).isEmpty := by
  rw [Bool.eq_iff_iff]
  simp [Threads.wakeFirst, sleepers, List.filter_eq_nil_iff]

/-- Waking the only sleeper wakes the thread found under its tid. -/
theorem lookup_wakeFirst_of_sleepers {tid : Nat} (ht : threads.lookup tid = some t)
    (h : sleepers threads accepts = [t]) (mem : Memory) (retval : Nat) :
    (threads.wakeFirst mem retval (fun _ => true) accepts).2.lookup tid =
      some (t.wake mem retval) := by
  have hfirst : firstOn threads accepts tid = true := by
    simp [firstOn, sleepsOn, ht, waitsOn_of_sleepers h, find?_of_sleepers h]
  obtain ⟨t', ht', hwoken⟩ := lookup_wakeFirst_of_firstOn hfirst mem retval
  cases ht'.symm.trans ht
  exact hwoken

end Sleepers

theorem lookup_deliver (vm : Vmm) (mem : Memory) (pipeId tid : Nat)
    {pipes : List (Option PipeState)} {count : Nat}
    (h : deliveredTo vm pipeId tid threads pipes = some count) :
    ∃ t, threads.lookup tid = some t ∧ (deliver vm mem pipeId threads pipes).1.lookup tid =
      some ({ t with blockingRetval := count }.wake mem count) := by
  induction threads generalizing pipes with
  | nil => cases h
  | cons t threads ih =>
    unfold deliveredTo at h
    unfold deliver
    by_cases htid : t.tid = tid
    · rw [if_pos htid] at h
      obtain ⟨bufLen, hreader, rfl⟩ := Option.map_eq_some_iff.mp h
      refine ⟨t, by simp [Threads.lookup, htid], ?_⟩
      simp [Threads.lookup, hreader, wake_tid, htid]
    · rw [if_neg htid] at h
      cases hreader : readerOf vm pipeId t with
      | none =>
        simp only [hreader] at h
        obtain ⟨t', ht', hafter⟩ := ih h
        refine ⟨t', ?_, ?_⟩
        · simpa [Threads.lookup, htid] using ht'
        · simpa [Threads.lookup, htid] using hafter
      | some bufLen =>
        simp only [hreader] at h
        obtain ⟨t', ht', hafter⟩ := ih h
        refine ⟨t', ?_, ?_⟩
        · simpa [Threads.lookup, htid] using ht'
        · simpa [Threads.lookup, wake_tid, htid] using hafter

theorem lookup_wakeupIpcWaiter (ts : Tasks) (pid retval tid : Nat) :
    (ts.wakeupIpcWaiter pid retval).threads.lookup tid =
      if ts.mainTid pid = some tid then
        (ts.threads.lookup tid).map fun t =>
          if t.waitsOn Threads.isIpc then t.wake ts.mem retval else t
      else ts.threads.lookup tid := by
  have htid : ∀ t : Thread,
      (if t.waitsOn Threads.isIpc then t.wake ts.mem retval else t).tid = t.tid := by
    intro t
    split
    · exact wake_tid _ _ t
    · rfl
  unfold Tasks.wakeupIpcWaiter Tasks.onMain
  cases hmain : ts.mainTid pid with
  | none => simp
  | some main =>
    simp only [Threads.wakeupIpcWaiter, Threads.lookup_update htid, Option.some.injEq,
      eq_comm (a := main)]

/-- What a waker does to the record of the thread it wakes. -/
theorem Waker.lookup_apply {tid result : Nat} (h : waker.wakes k tid = some result) :
    ∃ t, k.tasks.threads.lookup tid = some t ∧
      (waker.apply k).tasks.threads.lookup tid = some (waker.woken k.tasks.mem result t) := by
  cases waker with
  | key byte | irq number =>
    simp only [wakes, Option.ite_none_right_eq_some, Option.some.injEq] at h
    obtain ⟨hfirst, rfl⟩ := h
    exact lookup_wakeFirst_of_firstOn hfirst _ _
  | process exitedPid | thread exitedTid | timer now =>
    simp only [wakes, Option.ite_none_right_eq_some, Option.some.injEq] at h
    obtain ⟨hsleeps, rfl⟩ := h
    exact lookup_wakeAll_of_sleepsOn hsleeps _ _
  | ipc pid retval =>
    simp only [wakes, Option.ite_none_right_eq_some, Option.some.injEq] at h
    obtain ⟨⟨hmain, hsleeps⟩, rfl⟩ := h
    obtain ⟨t, ht, hwaits⟩ := lookup_of_sleepsOn hsleeps
    refine ⟨t, ht, ?_⟩
    simp only [Waker.apply, wakeupIpcWaiter, lookup_wakeupIpcWaiter, hmain, if_true, ht,
      Option.map_some, if_pos hwaits]
    rfl
  | pipe pipeId => exact lookup_deliver k.vm k.tasks.mem pipeId tid h

/-- A waker with a fixed result wakes with that result. -/
theorem Waker.eq_of_fixedResult {tid result fixed : Nat} (h : waker.wakes k tid = some result)
    (hfixed : waker.fixedResult = some fixed) : result = fixed := by
  cases waker with
  | pipe pipeId => cases hfixed
  | _ =>
    cases hfixed
    simp only [wakes, Option.ite_none_right_eq_some, Option.some.injEq] at h
    exact h.2.symm

/-! The two sections in either order. -/

/-- Sections that concern other threads. -/
def Apart (tid : Nat) (k k' : Kernel) : Prop :=
  k'.tasks.threads.lookup tid = k.tasks.threads.lookup tid

inductive Order where
  | wakeFirst
  | commitFirst
  deriving DecidableEq

/-- Thread `tid` is woken with a result and its CPU commits its frame, in the given order,
with sections that concern other threads before, between and after. -/
inductive Completes (cpu tid : Nat) (waker : Waker) : Order → Kernel → Nat → Kernel → Prop where
  | wakeFirst {k k₁ k₂ k₃ : Kernel} {result rsp : Nat} (before : Apart tid k k₁)
      (wake : waker.wakes k₁ tid = some result) (between : Apart tid (waker.apply k₁) k₂)
      (current : k₂.tasks.currentUserTid cpu = some tid) (frame : rsp ≠ 0)
      (after : Apart tid (k₂.onTasks (·.commitBlock cpu rsp)) k₃) :
      Completes cpu tid waker .wakeFirst k result k₃
  | commitFirst {k k₁ k₂ k₃ : Kernel} {result rsp : Nat} (before : Apart tid k k₁)
      (current : k₁.tasks.currentUserTid cpu = some tid) (frame : rsp ≠ 0)
      (between : Apart tid (k₁.onTasks (·.commitBlock cpu rsp)) k₂)
      (wake : waker.wakes k₂ tid = some result) (after : Apart tid (waker.apply k₂) k₃) :
      Completes cpu tid waker .commitFirst k result k₃

/-- The two dispatchers. -/
inductive Route where
  | enter
  | timer (ring3 : Bool)
  deriving DecidableEq

def Route.choose (mem : Memory) : Route → Thread → Resumption × Thread
  | .enter => Thread.enter
  | .timer ring3 => Thread.switchTo mem ring3

/-- The thread returns from its call with a value in rax. -/
def Returns (value : Nat) : Resumption → Prop
  | .blocking _ retval => retval = value
  | .kernel _ => False
  | .user context => context.rax = value

theorem lookup_commitBlock {cpu tid rsp : Nat} (hcurrent : k.tasks.currentUserTid cpu = some tid)
    (ht : k.tasks.threads.lookup tid = some t) :
    (k.onTasks (·.commitBlock cpu rsp)).tasks.threads.lookup tid =
      some { t with blockingRsp := rsp } := by
  have hkey : ∀ t : Thread, { t with blockingRsp := rsp }.tid = t.tid := fun _ => rfl
  simp only [onTasks, Tasks.commitBlock, hcurrent, Threads.setBlockingRsp]
  rw [Threads.lookup_update hkey, if_pos rfl, ht]
  rfl

/-- The record a thread is dispatched from. -/
theorem Completes.record {cpu tid result : Nat} {order : Order} {k k' : Kernel}
    (h : Completes cpu tid waker order k result k') (ht : k.tasks.threads.lookup tid = some t) :
    ∃ mem rsp, rsp ≠ 0 ∧ k'.tasks.threads.lookup tid = some
      (match order with
        | .wakeFirst => { waker.woken mem result t with blockingRsp := rsp }
        | .commitFirst => waker.woken mem result { t with blockingRsp := rsp }) := by
  cases h with
  | @wakeFirst k k₁ k₂ k' result rsp before wake between current frame after =>
    obtain ⟨t₁, ht₁, hwoken⟩ := waker.lookup_apply wake
    rw [before, ht] at ht₁
    cases ht₁
    exact ⟨k₁.tasks.mem, rsp, frame,
      after.trans (lookup_commitBlock current (between.trans hwoken))⟩
  | @commitFirst k k₁ k₂ k' result rsp before current frame between wake after =>
    obtain ⟨t₁, ht₁, hwoken⟩ := waker.lookup_apply wake
    rw [between, lookup_commitBlock current (before.trans ht)] at ht₁
    cases ht₁
    exact ⟨k₂.tasks.mem, rsp, frame, after.trans hwoken⟩

/-- Woken with its frame committed, a thread returns the result on either route. -/
theorem returns_woken_committed {rsp : Nat} (hrsp : rsp ≠ 0) (waker : Waker)
    (mem mem' : Memory) (result : Nat) (route : Route) :
    Returns result (route.choose mem' (waker.woken mem result { t with blockingRsp := rsp })).1 := by
  have hwake : ∀ t : Thread, t.blockingRsp = rsp →
      Returns result (route.choose mem' (t.wake mem result)).1 := by
    intro t ht
    have hframe : t.blockingRsp ≠ 0 := ht ▸ hrsp
    cases route with
    | enter => simp [Route.choose, Thread.enter, Thread.wake, Thread.restoreCtxFromBlockingFrame,
        hframe, Returns, Thread.temporaryContext, Thread.blockingFrame]
    | timer ring3 =>
      cases ring3 <;> simp [Route.choose, Thread.switchTo, Thread.wake,
        Thread.restoreCtxFromBlockingFrame, Thread.applyBlockingReturnIfPending, hframe, Returns,
        Thread.temporaryContext, Thread.blockingFrame]
  unfold Waker.woken
  split
  · exact hwake _ rfl
  · exact hwake _ rfl

/-- With a frame and a stored value, the scheduler's route returns the value; the timer's
route does unless it finds a kernel frame. -/
theorem returns_committed_iff (hframe : t.blockingRsp ≠ 0) (mem : Memory)
    (result : Nat) (route : Route) :
    Returns result (route.choose mem t).1 ↔
      t.blockingRetval = result ∧ (route = .enter ∨ t.kernelPreempted = false) := by
  cases route with
  | enter => simp [Route.choose, Thread.enter, hframe, Returns]
  | timer ring3 =>
    cases hpreempted : t.kernelPreempted with
    | true => simp [Route.choose, Thread.switchTo, hpreempted, Returns]
    | false =>
      cases ring3 <;> simp [Route.choose, Thread.switchTo, hpreempted,
        Thread.restoreCtxFromBlockingFrame, Thread.applyBlockingReturnIfPending, hframe, Returns,
        Thread.temporaryContext, Thread.blockingFrame]

/-- A waker that comes before the frame leaves its result only if it stores it. -/
theorem woken_uncommitted (huncommitted : t.blockingRsp = 0) (waker : Waker)
    (mem : Memory) (result : Nat) :
    (waker.woken mem result t).kernelPreempted = t.kernelPreempted ∧
      (waker.woken mem result t).blockingRetval =
        if waker.fixedResult = none then result else t.blockingRetval := by
  unfold Waker.woken
  cases waker.fixedResult with
  | some fixed | none => simp [Thread.wake, Thread.restoreCtxFromBlockingFrame, huncommitted]

/-- A blocked call returns the result it was woken with exactly if its frame was committed
before the wake, or else the waker stored the result, or happens to agree with what
`blocking_retval` held, and no kernel frame left by an interrupt goes before the call's. -/
theorem blocked_call_returns_iff {cpu tid result : Nat} {waker : Waker} {order : Order}
    {k k' : Kernel} {t t' : Thread} {mem : Memory} {route : Route}
    (ht : k.tasks.threads.lookup tid = some t) (huncommitted : t.blockingRsp = 0)
    (h : Completes cpu tid waker order k result k') (ht' : k'.tasks.threads.lookup tid = some t') :
    Returns result (route.choose mem t').1 ↔
      order = .commitFirst ∨
        ((∀ fixed, waker.fixedResult = some fixed → t.blockingRetval = fixed) ∧
          (route = .enter ∨ t.kernelPreempted = false)) := by
  obtain ⟨mem₀, rsp, hrsp, hrecord⟩ := h.record ht
  cases ht'.symm.trans hrecord
  cases order with
  | commitFirst =>
    exact iff_of_true (returns_woken_committed hrsp waker mem₀ mem result route) (.inl rfl)
  | wakeFirst =>
    obtain ⟨hpreempted, hretval⟩ := woken_uncommitted huncommitted waker mem₀ result
    have hstored : (if waker.fixedResult = none then result else t.blockingRetval) = result ↔
        ∀ fixed, waker.fixedResult = some fixed → t.blockingRetval = fixed := by
      cases hfixed : waker.fixedResult with
      | none => simp
      | some fixed =>
        cases h with
        | wakeFirst _ wake =>
          rw [waker.eq_of_fixedResult wake hfixed]
          simp
    apply (returns_committed_iff hrsp mem result route).trans
    simp only [hpreempted, hretval, hstored, reduceCtorEq, false_or]

/-- A process with one thread, which reads the console and finds no key. -/
def readsConsole : List Event :=
  [.async (.spawnProcess (some 4096) 8192 12288 4096 .user 0 0), .async (.launch 1), .enter 0,
    .syscall 0 (.blocking (.read 0 userMin 1 0)), .advance 0 0, .advance 0 0, .advance 0 0]

/-- The reader is asleep, its frame not yet committed. -/
theorem readsConsole_asleep :
    ∃ s t, Lib.Run (fun s e t => s.step e = some t) (System.boot twoThreads 1 fun _ => 0)
        readsConsole s ∧ s.kernel.tasks.threads.lookup 1 = some t ∧ t.blockingRsp = 0 ∧
      s.kernel.tasks.currentUserTid 0 = some 1 ∧ (Waker.key 97).wakes s.kernel 1 = some 97 ∧
      t.blockingRetval = 0 ∧
      ((Waker.key 97).apply s.kernel).tasks.currentUserTid 0 = some 1 ∧
      (Waker.key 97).wakes (s.kernel.onTasks (·.commitBlock 0 69480)) 1 = some 97 :=
  ⟨_, _, Lib.Run.of_foldlM rfl, rfl, rfl, rfl, rfl, rfl, rfl, rfl⟩

/-- A key that comes after the commit is returned. -/
theorem blocked_call_returns_iff_key :
    ∃ s k' t', Lib.Run (fun s e t => s.step e = some t) (System.boot twoThreads 1 fun _ => 0)
        readsConsole s ∧ Completes 0 1 (.key 97) .commitFirst s.kernel 97 k' ∧
      k'.tasks.threads.lookup 1 = some t' ∧
      Returns 97 (Route.enter.choose k'.tasks.mem t').1 := by
  obtain ⟨s, t, run, ht, huncommitted, hcurrent, -, -, -, hwakes⟩ := readsConsole_asleep
  have hcompletes : Completes 0 1 (.key 97) .commitFirst s.kernel 97 _ :=
    .commitFirst rfl hcurrent (by decide) rfl hwakes rfl
  obtain ⟨mem, rsp, -, ht'⟩ := hcompletes.record ht
  exact ⟨s, _, _, run, hcompletes, ht',
    (blocked_call_returns_iff ht huncommitted hcompletes ht').mpr (.inl rfl)⟩

/-- A key that comes before the commit is lost: the call returns zero. -/
theorem key_before_commit_is_lost :
    ∃ s k' t', Lib.Run (fun s e t => s.step e = some t) (System.boot twoThreads 1 fun _ => 0)
        readsConsole s ∧ Completes 0 1 (.key 97) .wakeFirst s.kernel 97 k' ∧
      k'.tasks.threads.lookup 1 = some t' ∧ Returns 0 (Route.enter.choose k'.tasks.mem t').1 ∧
      ¬Returns 97 (Route.enter.choose k'.tasks.mem t').1 := by
  obtain ⟨s, t, run, ht, huncommitted, -, hwakes, hretval, hcurrent, -⟩ := readsConsole_asleep
  have hcompletes : Completes 0 1 (.key 97) .wakeFirst s.kernel 97 _ :=
    .wakeFirst rfl hwakes rfl hcurrent (by decide : 69480 ≠ 0) rfl
  obtain ⟨mem, rsp, hrsp, ht'⟩ := hcompletes.record ht
  obtain ⟨-, hstored⟩ := woken_uncommitted huncommitted (.key 97) mem 97
  refine ⟨s, _, _, run, hcompletes, ht', ?_, ?_⟩
  · rw [returns_committed_iff hrsp]
    exact ⟨hstored.trans hretval, .inl rfl⟩
  · rw [returns_committed_iff hrsp]
    intro hreturns
    exact absurd ((hstored.trans hretval).symm.trans hreturns.1) (by decide)

end KazuOS.Kernel
