import KazuOS.Kernel.Sections

/-! Listing the processes and the threads of a process while they come and go. Each call asks for
the least id above the one before, whatever the order of the tables, so a new id can only be
met later and an old one only once. -/
namespace KazuOS.Kernel

open KazuOS.Task KazuOS.Task.Tasks

def nextPidAfter (ts : Tasks) (pid : Nat) : Option Nat :=
  ((ts.processes.filter fun p => p.state ≠ .empty && pid < p.pid).map (·.pid)).min?

def nextThreadInPid (ts : Tasks) (pid prevTid : Nat) : Option Nat :=
  ((ts.threads.filter fun t => t.pid = pid && prevTid < t.tid && t.state ≠ .empty).map
    (·.tid)).min?

/-- SYS_PROCESS_NEXT. -/
def sysProcessNext (ts : Tasks) (arg0 : Nat) : Nat := (nextPidAfter ts arg0).getD Kernel.failure

/-- SYS_THREAD_NEXT. -/
def sysThreadNext (ts : Tasks) (arg0 arg1 : Nat) : Nat :=
  (nextThreadInPid ts arg0 arg1).getD Kernel.failure

def livePids (ts : Tasks) : List Nat :=
  (ts.processes.filter fun p => p.state ≠ .empty).map (·.pid)

def liveTids (pid : Nat) (ts : Tasks) : List Nat :=
  (ts.threads.filter fun t => t.pid = pid && t.state ≠ .empty).map (·.tid)

/-- A listing under way: the id the last call returned, those returned so far, oldest first,
and whether the end has been reported. -/
structure Enumeration where
  kernel : Kernel
  prev : Nat
  visited : List Nat
  ended : Bool

inductive EnumerationEvent where
  /-- Any CPU runs a section of its own. -/
  | run (cpu : Nat) (action : Action)
  | next

/-- One event, with the listing made by `call`. -/
def Enumeration.step (call : Tasks → Nat → Nat) (s : Enumeration) : EnumerationEvent → Enumeration
  | .run cpu action => { s with kernel := action.apply s.kernel cpu }
  | .next =>
      if s.ended then s else
        let id := call s.kernel.tasks s.prev
        if id = Kernel.failure then { s with ended := true }
        else { s with prev := id, visited := s.visited ++ [id] }

def Enumeration.start (k : Kernel) : Enumeration := ⟨k, 0, [], false⟩

def enumerate (call : Tasks → Nat → Nat) (k : Kernel) (events : List EnumerationEvent) :
    Enumeration :=
  events.foldl (Enumeration.step call) (.start k)

/-- The kernel does not change by being asked. -/
def kernelAfter (k : Kernel) (events : List EnumerationEvent) : Kernel :=
  events.foldl (fun k e => match e with
    | .run cpu action => action.apply k cpu
    | .next => k) k

/-- The ids fit their words, so that none is taken for the end. -/
structure IdsFit (ts : Tasks) : Prop where
  pids : ts.nextPid < 2 ^ 64
  tids : ts.nextTid < 2 ^ 64

/-- A call that answers with the least of some ids above its argument, or the end. -/
def ListsAbove (ids : Tasks → List Nat) (call : Tasks → Nat → Nat) (ts : Tasks) : Prop :=
  ∀ prev, (call ts prev = Kernel.failure ∧ ∀ x ∈ ids ts, x ≤ prev) ∨
    (call ts prev ≠ Kernel.failure ∧ call ts prev ∈ ids ts ∧ prev < call ts prev ∧
      ∀ x ∈ ids ts, prev < x → call ts prev ≤ x)

variable {call : Tasks → Nat → Nat} {ids : Tasks → List Nat} {k : Kernel} {ts : Tasks}

theorem lists_min
    (hcall : ∀ prev, call ts prev = (((ids ts).filter (prev < ·)).min?).getD Kernel.failure)
    (hfits : ∀ x ∈ ids ts, x < Kernel.failure) : ListsAbove ids call ts := by
  intro prev
  rw [hcall]
  cases hmin : ((ids ts).filter (prev < ·)).min? with
  | none =>
    refine .inl ⟨rfl, fun x hx => Nat.le_of_not_lt fun hlt => ?_⟩
    have hmem : x ∈ (ids ts).filter (prev < ·) := List.mem_filter.mpr ⟨hx, decide_eq_true hlt⟩
    rw [List.min?_eq_none_iff.mp hmin] at hmem
    cases hmem
  | some id =>
    obtain ⟨hmem, hleast⟩ := List.min?_eq_some_iff.mp hmin
    obtain ⟨hid, hlt⟩ := List.mem_filter.mp hmem
    exact .inr ⟨Nat.ne_of_lt (hfits id hid), hid, of_decide_eq_true hlt, fun x hx hx' =>
      hleast x (List.mem_filter.mpr ⟨hx, decide_eq_true hx'⟩)⟩

theorem lists_sysProcessNext (hd : ts.Distinct) (hn : IdsFit ts) :
    ListsAbove livePids sysProcessNext ts := by
  apply lists_min
  · intro prev
    rw [sysProcessNext, nextPidAfter, livePids, List.filter_map, List.filter_filter]
    simp only [Function.comp_def, Bool.and_comm]
  · intro x hx
    obtain ⟨p, hp, rfl⟩ := List.mem_map.mp hx
    have hlt := hd.freshPids.below p.pid (List.mem_map_of_mem (List.mem_filter.mp hp).1)
    have hfits := hn.pids
    unfold Kernel.failure
    omega

theorem lists_sysThreadNext (hd : ts.Distinct) (hn : IdsFit ts) (pid : Nat) :
    ListsAbove (liveTids pid) (sysThreadNext · pid) ts := by
  apply lists_min
  · intro prev
    rw [sysThreadNext, nextThreadInPid, liveTids, List.filter_map, List.filter_filter]
    simp only [Function.comp_def, Bool.and_assoc, Bool.and_left_comm]
  · intro x hx
    obtain ⟨t, ht, rfl⟩ := List.mem_map.mp hx
    have hlt := hd.tidsBelow (List.mem_filter.mp ht).1
    have hfits := hn.tids
    unfold Kernel.failure
    omega

/-! The listing. -/

/-- What holds of a listing so far. An id in `kept` has been there all the time. -/
structure Enumeration.Sweeps (kept : Nat → Prop) (s : Enumeration) : Prop where
  rising : s.visited.Pairwise (· < ·)
  below : ∀ x ∈ s.visited, x ≤ s.prev
  passed : ∀ x, kept x → x ≤ s.prev → x ∈ s.visited
  complete : s.ended = true → ∀ x, kept x → x ∈ s.visited

namespace Enumeration.Sweeps

variable {kept kept' : Nat → Prop} {s : Enumeration}

theorem mono (h : s.Sweeps kept) (hkept : ∀ x, kept' x → kept x) : s.Sweeps kept' where
  rising := h.rising
  below := h.below
  passed x hx := h.passed x (hkept x hx)
  complete hended x hx := h.complete hended x (hkept x hx)

theorem step (h : s.Sweeps kept) {ids : Tasks → List Nat} {call : Tasks → Nat → Nat}
    (hcall : ListsAbove ids call s.kernel.tasks) (hkept : ∀ x, kept x → x ∈ ids s.kernel.tasks)
    (e : EnumerationEvent) : (Enumeration.step call s e).Sweeps kept := by
  cases e with
  | run cpu action => exact ⟨h.rising, h.below, h.passed, h.complete⟩
  | next =>
    unfold Enumeration.step
    dsimp only
    cases hended : s.ended with
    | true => exact h
    | false =>
      rw [if_neg (by decide)]
      obtain ⟨hend, hnone⟩ | ⟨hid, -, hlt, hleast⟩ := hcall s.prev
      · rw [if_pos hend]
        exact ⟨h.rising, h.below, h.passed, fun _ x hx => h.passed x hx (hnone x (hkept x hx))⟩
      · rw [if_neg hid]
        have hall : ∀ x ∈ s.visited ++ [call s.kernel.tasks s.prev],
            x ≤ call s.kernel.tasks s.prev := by
          intro x hx
          obtain hx | hx := List.mem_append.mp hx
          · exact Nat.le_of_lt (Nat.lt_of_le_of_lt (h.below x hx) hlt)
          · exact Nat.le_of_eq (List.mem_singleton.mp hx)
        refine ⟨?_, hall, ?_, fun hcontra => absurd hcontra (by simp)⟩
        · refine List.pairwise_append.mpr ⟨h.rising, List.pairwise_singleton _ _, ?_⟩
          intro x hx y hy
          rw [List.mem_singleton.mp hy]
          exact Nat.lt_of_le_of_lt (h.below x hx) hlt
        · -- An id that is there cannot lie between the last one and the next.
          intro x hx hle
          by_cases hpassed : x ≤ s.prev
          · exact List.mem_append_left _ (h.passed x hx hpassed)
          · have heq := Nat.le_antisymm hle (hleast x (hkept x hx) (Nat.lt_of_not_le hpassed))
            exact List.mem_append_right _ (List.mem_singleton.mpr heq)

end Enumeration.Sweeps

theorem enumerate_concat (call : Tasks → Nat → Nat) (k : Kernel) (events : List EnumerationEvent)
    (e : EnumerationEvent) :
    enumerate call k (events ++ [e]) = (enumerate call k events).step call e := by
  rw [enumerate, List.foldl_append]
  rfl

theorem enumerate_kernel (call : Tasks → Nat → Nat) (k : Kernel) (events : List EnumerationEvent) :
    (enumerate call k events).kernel = kernelAfter k events := by
  induction events using List.reverseRecOn with
  | nil => rfl
  | append_singleton events e ih =>
    have hlast : kernelAfter k (events ++ [e]) = kernelAfter (kernelAfter k events) [e] :=
      List.foldl_append
    rw [enumerate_concat, hlast, ← ih]
    cases e with
    | run cpu action => rfl
    | next =>
      unfold Enumeration.step
      dsimp only
      split
      · rfl
      · split <;> rfl

/-- Ids are distinct, and no thread has the id that starts a listing. -/
structure Issued (ts : Tasks) : Prop where
  distinct : ts.Distinct
  nonzero : ∀ tid ∈ ts.threads.map (·.tid), tid ≠ 0

theorem Issued.change {cpu : Nat} {action : Action} {b : Tasks}
    (h : Issued k.tasks) (hchange : Change k cpu action b) : Issued b := by
  have hspawns : ∀ {t}, Spawns k.tasks b t → ∀ tid ∈ b.threads.map (·.tid), tid ≠ 0 := by
    intro t hspawns tid htid
    rw [hspawns.threads, List.map_append, List.mem_append, List.map_singleton,
      List.mem_singleton, hspawns.tid] at htid
    obtain htid | rfl := htid
    · exact h.nonzero tid htid
    · exact Nat.ne_of_gt h.distinct.tidPositive
  refine ⟨hchange.distinct h.distinct, ?_⟩
  cases hchange with
  | keeps hkeeps => exact hkeeps.tids ▸ h.nonzero
  | spawnsProcess hprocess => exact hspawns hprocess.toSpawns
  | spawnsThread hthread => exact hspawns hthread.toSpawns
  | leaves hends _ _ | ends hends _ _ =>
    exact fun tid htid => h.nonzero tid (hends.tids.subset htid)

theorem Issued.after (h : Issued k.tasks) (events : List EnumerationEvent) :
    Issued (kernelAfter k events).tasks := by
  induction events generalizing k with
  | nil => exact h
  | cons e events ih =>
    cases e with
    | run cpu action => exact ih (h.change (apply_change h.distinct cpu action))
    | next => exact ih h

theorem issued_init (cpuCount : Nat) (mem : Memory) : Issued (Tasks.init cpuCount mem) where
  distinct := ⟨⟨by simp [Tasks.init], by simp [Tasks.init]⟩,
    ⟨by simp [Tasks.init], by simp [Tasks.init, kernelProcess]⟩, Nat.one_pos, Nat.one_pos⟩
  nonzero := by simp [Tasks.init]

/-- An id is there from the first call to the last event. -/
def Throughout (ids : Tasks → List Nat) (k : Kernel) (events : List EnumerationEvent) (x : Nat) :
    Prop :=
  ∀ front, front <+: events → x ∈ ids (kernelAfter k front).tasks

theorem enumerate_sweeps (h : Issued k.tasks)
    (hcall : ∀ ts, ts.Distinct → IdsFit ts → ListsAbove ids call ts)
    (events : List EnumerationEvent)
    (hn : ∀ front, front <+: events → IdsFit (kernelAfter k front).tasks) :
    (enumerate call k events).Sweeps fun x => x ≠ 0 ∧ Throughout ids k events x := by
  induction events using List.reverseRecOn with
  | nil =>
    refine ⟨.nil, by simp [enumerate, Enumeration.start], ?_, fun hended => by cases hended⟩
    exact fun x hx hzero => absurd (Nat.le_zero.mp hzero) hx.1
  | append_singleton events e ih =>
    have hfront : ∀ front, front <+: events → front <+: events ++ [e] :=
      fun front hfront => hfront.trans (List.prefix_append events [e])
    have hsweeps := ih fun front hprefix => hn front (hfront front hprefix)
    have hlists := hcall _ (h.after events).distinct (hn events (List.prefix_append events [e]))
    rw [← enumerate_kernel call] at hlists
    rw [enumerate_concat]
    refine (hsweeps.mono fun x hx => ?_).step hlists (fun x hx => ?_) e
    · exact ⟨hx.1, fun front hprefix => hx.2 front (hfront front hprefix)⟩
    · rw [enumerate_kernel]
      exact hx.2 events (List.prefix_append events [e])

/-- A listing rises, names nothing twice and, once it has reported its end, has named each of the
wanted ids that were there throughout. -/
structure Visits (ids : Tasks → List Nat) (wanted : Nat → Prop) (call : Tasks → Nat → Nat)
    (k : Kernel) (events : List EnumerationEvent) : Prop where
  rising : (enumerate call k events).visited.Pairwise (· < ·)
  nodup : (enumerate call k events).visited.Nodup
  once : (enumerate call k events).ended = true → ∀ x, wanted x → Throughout ids k events x →
    (enumerate call k events).visited.count x = 1

theorem Enumeration.Sweeps.visits {wanted : Nat → Prop} {events : List EnumerationEvent}
    (h : (enumerate call k events).Sweeps fun x => x ≠ 0 ∧ Throughout ids k events x)
    (hwanted : ∀ x, wanted x → Throughout ids k events x → x ≠ 0) :
    Visits ids wanted call k events where
  rising := h.rising
  nodup := h.rising.imp Nat.ne_of_lt
  once hended x hx hkept := List.count_eq_one_of_mem (h.rising.imp Nat.ne_of_lt)
    (h.complete hended x ⟨hwanted x hx hkept, hkept⟩)

/-- At any time after boot, a listing from zero shows every process that stays, but for the
kernel's own entry, and every thread of a process that stays. -/
theorem enumeration_visits (k : Kernel) (cpuCount : Nat) (mem : Memory)
    (before events : List EnumerationEvent) :
    let start := kernelAfter { k with tasks := Tasks.init cpuCount mem } before
    (∀ front, front <+: events → IdsFit (kernelAfter start front).tasks) →
      Visits livePids (· ≠ 0) sysProcessNext start events ∧
        ∀ pid, Visits (liveTids pid) (fun _ => True) (sysThreadNext · pid) start events := by
  intro start hn
  have hissued : Issued start.tasks := (issued_init cpuCount mem).after before
  refine ⟨?_, fun pid => ?_⟩
  · exact (enumerate_sweeps hissued (fun ts hd hn => lists_sysProcessNext hd hn) events hn).visits
      fun x hx _ => hx
  · refine (enumerate_sweeps hissued (fun ts hd hn => lists_sysThreadNext hd hn pid) events
      hn).visits fun x _ hx => ?_
    obtain ⟨t, ht, rfl⟩ := List.mem_map.mp (hx [] (List.nil_prefix))
    exact hissued.nonzero t.tid (List.mem_map_of_mem (List.mem_filter.mp ht).1)

/-- A process appears between two calls, and the listing comes to it. -/
theorem enumeration_visits_spawn :
    let start := { twoThreads with tasks := Tasks.init 1 fun _ => 0 }
    let spawn := EnumerationEvent.run 0 (.async (.spawnProcess (some 4096) 0 0 0 .user 0 0))
    (enumerate sysProcessNext (kernelAfter start [spawn]) [.next, spawn, .next, .next]).visited =
        [1, 2] ∧
      (enumerate sysProcessNext (kernelAfter start [spawn])
        [.next, spawn, .next, .next]).visited.Nodup := by
  intro start spawn
  have hall : ∀ n ≤ 4, (kernelAfter (kernelAfter start [spawn])
      ([.next, spawn, .next, .next].take n)).tasks.nextPid < 2 ^ 64 ∧
      (kernelAfter (kernelAfter start [spawn])
        ([.next, spawn, .next, .next].take n)).tasks.nextTid < 2 ^ 64 := by
    decide +kernel
  have hvisits := enumeration_visits twoThreads 1 (fun _ => 0) [spawn] [.next, spawn, .next, .next]
    fun front hfront => by
      rw [List.prefix_iff_eq_take.mp hfront]
      exact ⟨(hall _ hfront.length_le).1, (hall _ hfront.length_le).2⟩
  exact ⟨by decide +kernel, hvisits.1.nodup⟩

/-- A listing from zero leaves out the kernel's own entry. -/
theorem kernel_entry_not_visited :
    let start := { twoThreads with tasks := Tasks.init 1 fun _ => 0 }
    (enumerate sysProcessNext start [.next]).ended = true ∧ Throughout livePids start [.next] 0 ∧
      (enumerate sysProcessNext start [.next]).visited.count 0 = 0 := by
  intro start
  refine ⟨by decide +kernel, fun front hfront => ?_, by decide +kernel⟩
  have hall : ∀ n ≤ 1, 0 ∈ livePids (kernelAfter start ([.next].take n)).tasks := by
    decide +kernel
  rw [List.prefix_iff_eq_take.mp hfront]
  exact hall _ hfront.length_le

end KazuOS.Kernel
