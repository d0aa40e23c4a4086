import KazuOS.Lib.Run
import KazuOS.Lib.Sweep
import KazuOS.Task.Evolution
import Mathlib.Order.Nat

/-! The turns of one CPU. The timer continues from the thread it interrupted;
`enter_next_process` starts over from the lowest tid whatever ran before. -/
namespace KazuOS.Task

open Lib

/-- A thread a CPU may dispatch. -/
def Threads.ReadyOn (threads : Threads) (cpu tid : Nat) : Prop :=
  tid ≠ 0 ∧ ∃ t ∈ threads, t.tid = tid ∧ t.assignedCpu = cpu ∧ t.state = .ready

namespace RoundRobin

variable {threads : Threads} {cpu tid : Nat} {ts : Tasks}

theorem mem_ready {p : Thread → Bool} :
    tid ∈ ((threads.filter fun t => t.assignedCpu = cpu && t.state = .ready).filter p).map (·.tid) ↔
      ∃ t ∈ threads, t.tid = tid ∧ t.assignedCpu = cpu ∧ t.state = .ready ∧ p t = true := by
  simp only [List.mem_map, List.mem_filter, Bool.and_eq_true, decide_eq_true_eq]
  constructor
  · rintro ⟨t, ⟨⟨ht, hcpu, hready⟩, hp⟩, rfl⟩
    exact ⟨t, ht, rfl, hcpu, hready, hp⟩
  · rintro ⟨t, ht, rfl, hcpu, hready, hp⟩
    exact ⟨t, ⟨⟨ht, hcpu, hready⟩, hp⟩, rfl⟩

/-- The choice of `schedule_next` is the next turn after the position it is given. -/
theorem scheduleNext_follows {cpu pos : Nat} (hne : threads.scheduleNext cpu pos ≠ 0) :
    Follows (threads.ReadyOn cpu) pos (threads.scheduleNext cpu pos) := by
  unfold Threads.scheduleNext at hne ⊢
  dsimp only at hne ⊢
  split
  next tid hmin =>
    obtain ⟨hmem, hleast⟩ := List.min?_eq_some_iff.mp hmin
    obtain ⟨t, ht, rfl, hcpu, hready, hlater⟩ := mem_ready.mp hmem
    have hlater : pos < t.tid := by simpa using hlater
    refine .above ⟨by omega, t, ht, rfl, hcpu, hready⟩ hlater ?_
    rintro r ⟨-, u, hu, rfl, hucpu, huready⟩ hulater
    exact hleast u.tid (mem_ready.mpr ⟨u, hu, rfl, hucpu, huready, by simpa using hulater⟩)
  next hnone =>
    rw [hnone] at hne
    dsimp only at hne
    cases hmin : ((threads.filter fun t => t.assignedCpu = cpu && t.state = .ready).map
        (·.tid)).min? with
    | none =>
      rw [hmin] at hne
      exact absurd rfl hne
    | some tid =>
      rw [hmin] at hne
      obtain ⟨hmem, hleast⟩ := List.min?_eq_some_iff.mp hmin
      rw [← List.filter_true (threads.filter _)] at hmem hleast
      obtain ⟨t, ht, rfl, hcpu, hready, -⟩ := mem_ready.mp hmem
      refine .wraps ⟨hne, t, ht, rfl, hcpu, hready⟩ ?_ ?_
      · rintro r ⟨-, u, hu, rfl, hucpu, huready⟩
        by_contra hlater
        have habove := (mem_ready (p := fun t => pos < t.tid)).mpr
          ⟨u, hu, rfl, hucpu, huready, decide_eq_true (Nat.lt_of_not_le hlater)⟩
        rw [List.min?_eq_none_iff.mp hnone] at habove
        cases habove
      · rintro r ⟨-, u, hu, rfl, hucpu, huready⟩
        exact hleast u.tid (mem_ready.mpr ⟨u, hu, rfl, hucpu, huready, rfl⟩)

/-- The tables of a CPU and the threads it has dispatched so far, oldest first. -/
structure Turns where
  tasks : Tasks
  dispatched : List Nat

inductive Event where
  /-- Threads block, wake, exit and are spawned, on any CPU. -/
  | change (after : Tasks)
  /-- The timer interrupts this CPU. It notes the thread the CPU runs, saves or reaps it and
  wakes sleepers, which leaves `before`, and then takes its decision. -/
  | timer (before : Tasks) (ring3 hasReturnStack : Bool)
  | enter

/-- The position the timer continues from. -/
def Turns.current (s : Turns) (cpu : Nat) : Nat := (s.tasks.currentUserTid cpu).getD 0

/-- A dispatcher's result, and the thread it chose if it entered one. -/
def Turns.record (s : Turns) (tid : Nat) : Option Resumption × Tasks → Turns
  | (some _, after) => ⟨after, s.dispatched ++ [tid]⟩
  | (none, after) => ⟨after, s.dispatched⟩

def step (cpu : Nat) (s : Turns) : Event → Turns
  | .change after => { s with tasks := after }
  | .timer before ring3 hasReturnStack =>
      s.record (before.threads.scheduleNext cpu (s.current cpu))
        (before.timerSwitch cpu (s.current cpu) ring3 hasReturnStack)
  | .enter => s.record (s.tasks.threads.scheduleNext cpu 0) (s.tasks.enterNextProcess cpu)

/-- Between decisions the CPU at most leaves the thread it runs. -/
def Leaves (cpu : Nat) (before after : Tasks) : Prop :=
  after.currentUserTid cpu = before.currentUserTid cpu ∨ after.currentUserTid cpu = none

/-- Every decision finds the thread `x` ready. -/
def Waits (cpu x : Nat) (s : Turns) : Event → Prop
  | .change after => Leaves cpu s.tasks after
  | .timer before _ _ => Leaves cpu s.tasks before ∧ before.threads.ReadyOn cpu x
  | .enter => s.tasks.threads.ReadyOn cpu x

/-- The ready threads of this CPU are all at or below the thread dispatched last, or all above it. -/
def OnOneSide (cpu : Nat) (s : Turns) (threads : Threads) : Prop :=
  ∀ last ∈ s.dispatched.getLast?, (∀ tid, threads.ReadyOn cpu tid → tid ≤ last) ∨
    ∀ tid, threads.ReadyOn cpu tid → last < tid

/-- The condition on a decision that does not continue from the running thread. -/
def Continues (cpu : Nat) (s : Turns) : Event → Prop
  | .change _ => True
  | .timer before _ _ => s.tasks.currentUserTid cpu = none → OnOneSide cpu s before.threads
  | .enter => OnOneSide cpu s s.tasks.threads

/-- What is known of a CPU while `x` waits. -/
structure Fair (cpu x : Nat) (s : Turns) : Prop where
  sweep : Sweep x s.dispatched
  current : ∀ tid, s.tasks.currentUserTid cpu = some tid → ∀ last ∈ s.dispatched.getLast?, tid = last

theorem launch_current (ts : Tasks) (cpu tid : Nat) :
    (ts.launch cpu tid).currentUserTid cpu = some tid := by
  rw [Tasks.launch_eq]
  exact Function.update_self cpu (some tid) ts.currentUserTid

/-- A ready thread is entered, and becomes the CPU's current one. -/
theorem dispatch_enters (choose : Thread → Resumption × Thread)
    (hready : ts.threads.ReadyOn cpu tid) :
    ∃ r, (ts.dispatch cpu tid choose).1 = some r ∧
      (ts.dispatch cpu tid choose).2.currentUserTid cpu = some tid := by
  obtain ⟨-, t, ht, htid, -⟩ := hready
  have hfound : (ts.threads.lookup tid).isSome = true :=
    List.find?_isSome.mpr ⟨t, ht, decide_eq_true htid⟩
  obtain ⟨u, hu⟩ := Option.isSome_iff_exists.mp hfound
  refine ⟨(choose u).1, ?_, launch_current _ cpu tid⟩
  simp only [Tasks.dispatch, hu, Option.map_some]

theorem enterNextProcess_of_ne {cpu : Nat} (hne : ts.threads.scheduleNext cpu 0 ≠ 0) :
    ts.enterNextProcess cpu = ts.dispatch cpu (ts.threads.scheduleNext cpu 0) Thread.enter := by
  unfold Tasks.enterNextProcess
  split
  next hzero => exact absurd hzero hne
  next => rfl

/-- The timer goes back to the code it interrupted in ring 0, or enters the thread. -/
theorem timerSwitch_of_ne {cpu currentTid : Nat} (ring3 hasReturnStack : Bool)
    (hne : ts.threads.scheduleNext cpu currentTid ≠ 0) :
    ts.timerSwitch cpu currentTid ring3 hasReturnStack = (none, ts) ∨
      ts.timerSwitch cpu currentTid ring3 hasReturnStack =
        ts.dispatch cpu (ts.threads.scheduleNext cpu currentTid) (Thread.switchTo ts.mem ring3) := by
  unfold Tasks.timerSwitch
  split
  next hzero => exact absurd hzero hne
  next =>
    split
    next => exact .inl rfl
    next => exact .inr rfl

namespace Fair

variable {cpu x : Nat} {s : Turns}

variable {r : Option Resumption × Tasks}

/-- A turn that enters a thread. -/
theorem enters (h : Fair cpu x s) {threads : Threads} {pos tid : Nat}
    (hfollows : Follows (threads.ReadyOn cpu) pos tid)
    (hpos : ∀ last ∈ s.dispatched.getLast?, pos = last) (hx : threads.ReadyOn cpu x)
    (hsome : ∃ resumption, r.1 = some resumption ∧ r.2.currentUserTid cpu = some tid)
    (hother : x ∉ (s.record tid r).dispatched) : Fair cpu x (s.record tid r) := by
  obtain ⟨result, after⟩ := r
  obtain ⟨resumption, rfl, hcurrent⟩ := hsome
  dsimp only [Turns.record] at hother hcurrent ⊢
  have hne : tid ≠ x := by
    rintro rfl
    simp at hother
  refine ⟨h.sweep.snoc hfollows hpos hx hne, ?_⟩
  intro current hnow last hlast
  rw [hcurrent] at hnow
  have hlast : tid = last := by simpa using hlast
  exact (Option.some.inj hnow).symm.trans hlast

/-- A turn that enters none. -/
theorem stays (h : Fair cpu x s) {tid : Nat} (hnone : r.1 = none)
    (hleaves : Leaves cpu s.tasks r.2) : Fair cpu x (s.record tid r) := by
  obtain ⟨result, after⟩ := r
  subst hnone
  refine ⟨h.sweep, fun current hnow => ?_⟩
  dsimp only [Turns.record] at hnow
  rcases hleaves with hsame | hgone
  · exact h.current current (hsame.symm.trans hnow)
  · cases hgone.symm.trans hnow

/-- A choice from position zero, under the condition, is one from the last turn. -/
theorem restarts {threads : Threads} {tid : Nat} (hfollows : Follows (threads.ReadyOn cpu) 0 tid)
    (hside : OnOneSide cpu s threads) :
    ∃ pos, Follows (threads.ReadyOn cpu) pos tid ∧ ∀ last ∈ s.dispatched.getLast?, pos = last := by
  cases hlast : s.dispatched.getLast? with
  | none => exact ⟨0, hfollows, by simp⟩
  | some last =>
    refine ⟨last, hfollows.restart ?_ (hside last hlast), fun _ h => Option.some.inj h⟩
    exact fun r hr => Nat.pos_of_ne_zero hr.1

theorem enter (h : Fair cpu x s) (hx : s.tasks.threads.ReadyOn cpu x)
    (hcontinues : Continues cpu s .enter) (hother : x ∉ (step cpu s .enter).dispatched) :
    Fair cpu x (step cpu s .enter) := by
  by_cases hnext : s.tasks.threads.scheduleNext cpu 0 = 0
  · apply h.stays
    · rw [Tasks.enterNextProcess, hnext]
      rfl
    · rw [Tasks.enterNextProcess, hnext]
      exact .inr (Function.update_self ..)
  · have hfollows := scheduleNext_follows hnext
    obtain ⟨pos, hpos, hlast⟩ := restarts hfollows hcontinues
    have henters := dispatch_enters Thread.enter hfollows.ready
    rw [← enterNextProcess_of_ne hnext] at henters
    exact h.enters hpos hlast hx henters hother

theorem timer (h : Fair cpu x s) {before : Tasks} {ring3 hasReturnStack : Bool}
    (hleaves : Leaves cpu s.tasks before) (hx : before.threads.ReadyOn cpu x)
    (hcontinues : Continues cpu s (.timer before ring3 hasReturnStack))
    (hother : x ∉ (step cpu s (.timer before ring3 hasReturnStack)).dispatched) :
    Fair cpu x (step cpu s (.timer before ring3 hasReturnStack)) := by
  by_cases hnext : before.threads.scheduleNext cpu (s.current cpu) = 0
  · apply h.stays
    · rw [Tasks.timerSwitch, hnext]
      rfl
    · rw [Tasks.timerSwitch, hnext]
      exact .inr (Function.update_self ..)
  · have hfollows := scheduleNext_follows hnext
    obtain ⟨pos, hpos, hlast⟩ : ∃ pos, Follows (before.threads.ReadyOn cpu) pos
        (before.threads.scheduleNext cpu (s.current cpu)) ∧
        ∀ last ∈ s.dispatched.getLast?, pos = last := by
      cases hcurrent : s.tasks.currentUserTid cpu with
      | none =>
        simp only [Turns.current, hcurrent, Option.getD_none] at hfollows ⊢
        exact restarts hfollows (hcontinues hcurrent)
      | some tid =>
        simp only [Turns.current, hcurrent, Option.getD_some] at hfollows ⊢
        exact ⟨tid, hfollows, h.current tid hcurrent⟩
    rcases timerSwitch_of_ne ring3 hasReturnStack hnext with heq | heq
    · apply h.stays
      · rw [heq]
      · rw [heq]
        exact hleaves
    · have henters := dispatch_enters (Thread.switchTo before.mem ring3) hfollows.ready
      rw [← heq] at henters
      exact h.enters hpos hlast hx henters hother

/-- The step lemma. -/
theorem step (h : Fair cpu x s) {e : Event} (hwaits : Waits cpu x s e)
    (hcontinues : Continues cpu s e) (hother : x ∉ (RoundRobin.step cpu s e).dispatched) :
    Fair cpu x (RoundRobin.step cpu s e) := by
  cases e with
  | change after =>
    refine ⟨h.sweep, fun tid hnow => ?_⟩
    rcases hwaits with hsame | hgone
    · exact h.current tid (hsame.symm.trans hnow)
    · cases hgone.symm.trans hnow
  | timer before ring3 hasReturnStack => exact h.timer hwaits.1 hwaits.2 hcontinues hother
  | enter => exact h.enter hwaits hcontinues hother

end Fair

/-- Turns are never taken back. -/
theorem dispatched_step (cpu : Nat) (s : Turns) (e : Event) :
    ∃ more, (step cpu s e).dispatched = s.dispatched ++ more := by
  have hrecord (tid : Nat) (r : Option Resumption × Tasks) :
      ∃ more, (s.record tid r).dispatched = s.dispatched ++ more := by
    obtain ⟨_ | resumption, after⟩ := r
    · exact ⟨[], (List.append_nil _).symm⟩
    · exact ⟨[tid], rfl⟩
  cases e with
  | change after => exact ⟨[], (List.append_nil _).symm⟩
  | timer before ring3 hasReturnStack => exact hrecord _ _
  | enter => exact hrecord _ _

/-- A thread that every decision finds ready is dispatched before any other thread is
dispatched twice, in every run in which a decision from position zero is only taken while the ready
threads are on one side of the one dispatched last. -/
theorem dispatched_before_second_turn {cpu x : Nat} {ts : Tasks} {s : Turns} {es : List Event}
    (run : Run (fun s e t => t = step cpu s e ∧ Waits cpu x s e ∧ Continues cpu s e) ⟨ts, []⟩ es s)
    (hwaiting : x ∉ s.dispatched) : s.dispatched.Nodup := by
  have hfair : x ∉ s.dispatched → Fair cpu x s := by
    refine run.preserves (I := fun s => x ∉ s.dispatched → Fair cpu x s) ?_ ?_
    · rintro s e t h ⟨rfl, hwaits, hcontinues⟩ hother
      obtain ⟨more, hmore⟩ := dispatched_step cpu s e
      have hbefore : x ∉ s.dispatched := by
        intro hmem
        rw [hmore] at hother
        exact hother (List.mem_append_left _ hmem)
      exact (h hbefore).step hwaits hcontinues hother
    · exact fun _ => ⟨.nil, by simp⟩
  exact (hfair hwaiting).sweep.nodup

/-- Three threads of one CPU, of which the one with the middle tid runs. -/
def threeThreads : Tasks :=
  { Tasks.init 1 (fun _ => 0) with
    threads :=
      [{ Tasks.newThread 3 1 4096 .user 0 with state := .ready },
        { Tasks.newThread 5 1 69632 .user 0 with state := .running },
        { Tasks.newThread 7 1 135168 .user 0 with state := .ready }]
    processes :=
      [kernelProcess,
        { kernelProcess with
          pid := 1, state := .running, privilege := .user, mainTid := some 3, threads := [3, 5, 7] }]
    nextTid := 8
    nextPid := 2
    currentUserPid := fun _ => some 1
    currentUserTid := fun _ => some 5 }

/-- Preempted, the running thread waits for one sweep over the others. -/
theorem dispatched_before_second_turn_threeThreads : ∃ s es,
    Run (fun s e t => t = step 0 s e ∧ Waits 0 5 s e ∧ Continues 0 s e) ⟨threeThreads, []⟩ es s ∧
      s.dispatched = [7, 3] ∧ s.dispatched.Nodup := by
  let first : Event := .timer (threeThreads.preempt 5 5000 true) true true
  let after := step 0 ⟨threeThreads, []⟩ first
  let second : Event := .timer (after.tasks.preempt 7 136000 true) true true
  have hfirst : Waits 0 5 ⟨threeThreads, []⟩ first :=
    ⟨.inl rfl, by decide, _, List.mem_cons_of_mem _ List.mem_cons_self, rfl, rfl, rfl⟩
  have hsecond : Waits 0 5 after second :=
    ⟨.inl rfl, by decide, _, List.mem_cons_of_mem _ List.mem_cons_self, rfl, rfl, rfl⟩
  have run : Run (fun s e t => t = step 0 s e ∧ Waits 0 5 s e ∧ Continues 0 s e)
      ⟨threeThreads, []⟩ [first, second] (step 0 after second) :=
    .cons ⟨rfl, hfirst, fun h => by cases h⟩ (.cons ⟨rfl, hsecond, fun h => by cases h⟩ (.nil _))
  have hturns : (step 0 after second).dispatched = [7, 3] := rfl
  exact ⟨_, _, run, hturns, dispatched_before_second_turn run (by rw [hturns]; decide)⟩

/-- The running thread blocks until the next tick and leaves the CPU. -/
def sleepTick (ts : Tasks) : Tasks := ((ts.blockCurrent 0 .tick).commitBlock 0 5000).leaveCpu 0

theorem leaves_sleepTick (ts : Tasks) : Leaves 0 ts (sleepTick ts) :=
  .inr (by simp only [sleepTick, Tasks.leaveCpu, Tasks.setCurrentUserPid, Tasks.clearCurrentPid,
    Function.update_self, Option.bind_none])

theorem waits_of_any {x : Nat} {s : Turns} (hx : x ≠ 0) (h : (s.tasks.threads.any fun t =>
    t.tid = x && t.assignedCpu = 0 && t.state = .ready) = true) : Waits 0 x s .enter := by
  obtain ⟨t, ht, hmatch⟩ := List.any_eq_true.mp h
  simp only [Bool.and_eq_true, decide_eq_true_eq] at hmatch
  exact ⟨hx, t, ht, hmatch.1.1, hmatch.1.2, hmatch.2⟩

/-- The running thread 5 blocks for a tick. `enter_next_process` dispatches 3, which blocks for
a tick as well and is woken before the next decision; starting over from the lowest tid, that
decision dispatches 3 again, while 7 has been ready all the time. -/
theorem lowest_tid_dispatched_twice : ∃ s es,
    Run (fun s e t => t = step 0 s e ∧ Waits 0 7 s e) ⟨threeThreads, []⟩ es s ∧
      s.dispatched = [3, 3] := by
  obtain ⟨s₁, hs₁⟩ : ∃ s, s = (⟨sleepTick threeThreads, []⟩ : Turns) := ⟨_, rfl⟩
  obtain ⟨s₂, hs₂⟩ : ∃ s, s = step 0 s₁ .enter := ⟨_, rfl⟩
  obtain ⟨s₃, hs₃⟩ : ∃ s, s = (⟨(sleepTick s₂.tasks).wakeTickSleepers, s₂.dispatched⟩ : Turns) :=
    ⟨_, rfl⟩
  have hfirst : Waits 0 7 s₁ .enter := waits_of_any (by decide) (by rw [hs₁]; decide +kernel)
  have hsecond : Waits 0 7 s₃ .enter :=
    waits_of_any (by decide) (by rw [hs₃, hs₂, hs₁]; decide +kernel)
  have hturns : (step 0 s₃ .enter).dispatched = [3, 3] := by
    rw [hs₃, hs₂, hs₁]
    decide +kernel
  refine ⟨step 0 s₃ .enter, [.change (sleepTick threeThreads), .enter,
    .change (sleepTick s₂.tasks).wakeTickSleepers, .enter], ?_, hturns⟩
  exact .cons ⟨hs₁, leaves_sleepTick _⟩ (.cons ⟨hs₂, hfirst⟩
    (.cons ⟨hs₃, leaves_sleepTick _⟩ (.cons ⟨rfl, hsecond⟩ (.nil _))))

/-! A table that stays the same. -/

/-- The threads a CPU may dispatch, by tid and in table order. -/
def readyTids (threads : Threads) (cpu : Nat) : List Nat :=
  (threads.filter fun t => t.assignedCpu = cpu && t.state = .ready).map (·.tid)

theorem scheduleNext_ne_zero {cpu : Nat} (hzero : ∀ t ∈ threads, t.tid ≠ 0)
    (hne : readyTids threads cpu ≠ []) (pos : Nat) : threads.scheduleNext cpu pos ≠ 0 := by
  unfold Threads.scheduleNext
  dsimp only
  split
  next tid hmin =>
    obtain ⟨t, ht, rfl, -⟩ := mem_ready.mp (List.min?_mem hmin)
    exact hzero t ht
  next =>
    obtain ⟨tid, hmin⟩ := Option.ne_none_iff_exists'.mp (mt List.min?_eq_none_iff.mp hne)
    obtain ⟨t, ht, rfl⟩ := List.mem_map.mp (List.min?_mem hmin)
    rw [show ((threads.filter _).map _).min? = some t.tid from hmin]
    exact hzero t (List.mem_filter.mp ht).1

theorem readyOn_iff (hzero : ∀ t ∈ threads, t.tid ≠ 0) :
    threads.ReadyOn cpu tid ↔ tid ∈ readyTids threads cpu := by
  simp only [readyTids, Threads.ReadyOn, List.mem_map, List.mem_filter, Bool.and_eq_true,
    decide_eq_true_eq]
  constructor
  · rintro ⟨-, t, ht, rfl, hcpu, hready⟩
    exact ⟨t, ⟨ht, hcpu, hready⟩, rfl⟩
  · rintro ⟨t, ⟨ht, hcpu, hready⟩, rfl⟩
    exact ⟨hzero t ht, t, ht, rfl, hcpu, hready⟩

/-- Rising tids, in the order of their turns. -/
theorem sorted_readyTids (hnodup : (threads.map (·.tid)).Nodup) (cpu : Nat) :
    ((readyTids threads cpu).mergeSort (· ≤ ·)).Pairwise (· < ·) := by
  have hready : (readyTids threads cpu).Nodup := hnodup.sublist (List.filter_sublist.map _)
  have hle := @List.pairwise_mergeSort Nat (fun a b => decide (a ≤ b))
    (by simpa using fun a b c => Nat.le_trans) (by simpa using Nat.le_total)
    (readyTids threads cpu)
  have hne := (List.mergeSort_perm (readyTids threads cpu) (· ≤ ·)).nodup_iff.mpr hready
  refine (hle.and hne).imp ?_
  rintro a b ⟨hab, hne⟩
  exact Nat.lt_of_le_of_ne (of_decide_eq_true hab) hne

/-- While the ready threads of a CPU stay the same, each has one turn in as many turns as there
are of them, by rising tid from the start on and then from the lowest, and so on again. -/
theorem schedule_next_cycle {threads : Threads} (hnodup : (threads.map (·.tid)).Nodup)
    (hzero : ∀ t ∈ threads, t.tid ≠ 0) {cpu : Nat} (hne : readyTids threads cpu ≠ []) (c : Nat) :
    let next := fun tid => threads.scheduleNext cpu tid
    let count := (readyTids threads cpu).length
    let turns := (List.range count).map fun i => next^[i + 1] c
    turns.Nodup ∧ turns.Perm (readyTids threads cpu) ∧
      (∃ up down, turns = up ++ down ∧ up.Pairwise (· < ·) ∧ down.Pairwise (· < ·) ∧
        (∀ d ∈ up, c < d) ∧ ∀ d ∈ down, d ≤ c) ∧
      ∀ n, next^[n + 1 + count] c = next^[n + 1] c := by
  intro next count turns
  have hperm := List.mergeSort_perm (readyTids threads cpu) (· ≤ ·)
  obtain ⟨cycle, hcycle⟩ : ∃ cycle, cycle = ((readyTids threads cpu).mergeSort (· ≤ ·)).filter
      (c < ·) ++ ((readyTids threads cpu).mergeSort (· ≤ ·)).filter (· ≤ c) := ⟨_, rfl⟩
  have hrot : Rotation (threads.ReadyOn cpu) c cycle := by
    rw [hcycle]
    exact .of_sorted (sorted_readyTids hnodup cpu)
      (fun r => (readyOn_iff hzero).trans hperm.mem_iff.symm) c
  have hall : cycle.Perm (readyTids threads cpu) := by
    refine (List.perm_ext_iff_of_nodup hrot.nodup ?_).mpr fun r => ?_
    · exact hnodup.sublist (List.filter_sublist.map _)
    · rw [← hrot.mem_iff, readyOn_iff hzero]
  have hcount : cycle.length = count := hall.length_eq
  have hcons : cycle ≠ [] := fun hnil => hne (List.Perm.eq_nil (hnil ▸ hall.symm))
  have hnext : ∀ p, Follows (threads.ReadyOn cpu) p (next p) := fun p =>
    scheduleNext_follows (scheduleNext_ne_zero hzero hne p)
  have hturns : turns = cycle := by
    rw [← hrot.turns_eq hcons hnext, hcount]
  rw [hturns]
  refine ⟨hrot.nodup, hall, hrot.order, fun n => ?_⟩
  rw [← hcount]
  exact hrot.periodic hcons hnext n

/-- The three threads ready at once, from the middle one on. -/
theorem schedule_next_cycle_threeThreads :
    let threads : Threads := threeThreads.threads.map fun t => { t with state := .ready }
    ((List.range 3).map fun i => (fun tid => threads.scheduleNext 0 tid)^[i + 1] 5) = [7, 3, 5] ∧
      ∀ n, (fun tid => threads.scheduleNext 0 tid)^[n + 1 + 3] 5 =
        (fun tid => threads.scheduleNext 0 tid)^[n + 1] 5 := by
  intro threads
  have hcycle := @schedule_next_cycle threads (by decide) (by decide) 0 (by decide) 5
  exact ⟨by decide, hcycle.2.2.2⟩

end RoundRobin

end KazuOS.Task
