import KazuOS.Kernel.ExitWait

/-! The last thread of a process takes the process with it. `exit_current` counts and
leaves in one critical section, but SYS_THREAD_EXIT counts in one and leaves in another. -/
namespace KazuOS.Kernel

open KazuOS.Memory KazuOS.Task KazuOS.Task.Tasks

abbrev Shape := Nat × Option Nat × List Nat

/-- The live threads a process lists are its own. -/
structure Owns (ts : Tasks) (shape : Shape) : Prop where
  nodup : shape.2.2.Nodup
  below : ∀ tid ∈ shape.2.2, tid < ts.nextTid
  owned : ∀ t ∈ ts.threads, t.tid ∈ shape.2.2 → t.dead = false → t.pid = shape.1

/-- And unless it is the kernel's, it lists a live one. -/
structure Listed (ts : Tasks) (shape : Shape) : Prop extends Owns ts shape where
  inhabited : shape.1 ≠ 0 → ∃ t ∈ ts.threads, t.tid ∈ shape.2.2 ∧ t.dead = false

structure Accounted (ts : Tasks) : Prop where
  distinct : ts.Distinct
  attributed : ∀ cpu, ts.Attributed cpu
  listed : ∀ shape ∈ ts.processes.map Process.shape, Listed ts shape

/-- The last section of SYS_THREAD_EXIT still finds another live thread. -/
def leavesOthers (s : System) (p : Plan) : Bool :=
  let ts := s.kernel.tasks
  match p.action with
  | .exitThread => ts.currentPid p.cpu = 0 || 1 < ts.liveThreadCount (ts.currentPid p.cpu)
  | _ => true

variable {a b : Tasks} {shape : Shape} {t : Thread} {A : Sleepers} {gone : Nat → Prop} {cpu : Nat}
  {p : Process}

theorem Listed.keeps {A B : Sleepers} (h : Keeps A B a b)
    (hlisted : Listed a shape) : Listed b shape := by
  refine ⟨⟨hlisted.nodup, ?_, ?_⟩, ?_⟩
  · exact h.nextTid ▸ hlisted.below
  · intro t' ht' htid hlive
    obtain ⟨t, ht, hmoves⟩ := Lib.forall₂_mem_right h.threads ht'
    rw [hmoves.pid]
    exact hlisted.owned t ht (hmoves.tid ▸ htid) (hmoves.dead ▸ hlive)
  · intro hpid
    obtain ⟨t, ht, htid, hlive⟩ := hlisted.inhabited hpid
    obtain ⟨t', ht', hmoves⟩ := Lib.forall₂_mem_left h.threads ht
    exact ⟨t', ht', hmoves.tid ▸ htid, hmoves.dead.trans hlive⟩

theorem accounted_keeps {A B : Sleepers} (h : Keeps A B a b) (ha : Accounted a) : Accounted b := by
  constructor
  · exact ha.distinct.keeps h
  · intro cpu
    obtain ⟨htid, hpid⟩ | hattributed := h.current cpu
    · exact (ha.attributed cpu).keeps h htid hpid
    · exact hattributed
  · rw [h.processes]
    exact fun shape hshape => (ha.listed shape hshape).keeps h

/-! A new thread. -/

theorem attributed_spawns (h : Spawns a b t) (ha : a.Attributed cpu) : b.Attributed cpu := by
  intro tid hcurrent
  rw [h.currentTid] at hcurrent
  obtain ⟨hbelow, halive⟩ := ha tid hcurrent
  refine ⟨by rw [h.nextTid]; exact Nat.lt_succ_of_lt hbelow, ?_⟩
  intro t' hlookup hlive
  rw [h.currentPid]
  apply halive t' _ hlive
  have hnew : t.tid ≠ tid := by rw [h.tid]; exact Nat.ne_of_gt hbelow
  rw [h.threads, Threads.lookup, List.find?_append] at hlookup
  simpa [hnew, Threads.lookup] using hlookup

theorem Owns.spawns (h : Spawns a b t) (howns : Owns a shape) : Owns b shape := by
  constructor
  · exact howns.nodup
  · intro tid htid
    rw [h.nextTid]
    exact Nat.lt_succ_of_lt (howns.below tid htid)
  · intro t' ht' htid hlive
    rw [h.threads] at ht'
    obtain ht' | ht' := List.mem_append.mp ht'
    · exact howns.owned t' ht' htid hlive
    · cases List.mem_singleton.mp ht'
      have hbelow := howns.below t.tid htid
      rw [h.tid] at hbelow
      exact absurd hbelow (Nat.lt_irrefl _)

theorem Listed.spawns (h : Spawns a b t) (hlisted : Listed a shape) : Listed b shape := by
  refine ⟨hlisted.toOwns.spawns h, ?_⟩
  intro hpid
  obtain ⟨u, hu, htid, hlive⟩ := hlisted.inhabited hpid
  exact ⟨u, by rw [h.threads]; exact List.mem_append_left _ hu, htid, hlive⟩

/-- The new thread on the list of its process. -/
theorem Owns.enlist (h : Spawns a b t) (hd : a.Distinct) (howns : Owns a shape)
    (hpid : t.pid = shape.1) : Listed b (shape.1, shape.2.1, shape.2.2 ++ [t.tid]) := by
  have hold := howns.spawns h
  refine ⟨⟨?_, ?_, ?_⟩, ?_⟩
  · apply List.Nodup.append howns.nodup (List.nodup_singleton _)
    intro tid htid hnew
    have hbelow := howns.below tid htid
    rw [List.mem_singleton.mp hnew, h.tid] at hbelow
    exact absurd hbelow (Nat.lt_irrefl _)
  · intro tid htid
    obtain htid | htid := List.mem_append.mp htid
    · exact hold.below tid htid
    · cases List.mem_singleton.mp htid
      rw [h.nextTid, h.tid]
      exact Nat.lt_succ_self _
  · intro u hu htid hlive
    obtain htid | htid := List.mem_append.mp htid
    · exact hold.owned u hu htid hlive
    · rw [h.threads] at hu
      obtain hu | hu := List.mem_append.mp hu
      · have hbelow := hd.tidsBelow hu
        rw [List.mem_singleton.mp htid, h.tid] at hbelow
        exact absurd hbelow (Nat.lt_irrefl _)
      · cases List.mem_singleton.mp hu
        exact hpid
  · intro _
    refine ⟨t, ?_, List.mem_append_right _ (List.mem_singleton_self _), h.alive⟩
    rw [h.threads]
    exact List.mem_append_right _ (List.mem_singleton_self t)

theorem accounted_spawnsProcess
    (h : SpawnsProcess a b t p) (hd : b.Distinct) (ha : Accounted a) : Accounted b := by
  refine ⟨hd, fun cpu => attributed_spawns h.toSpawns (ha.attributed cpu), ?_⟩
  intro shape hshape
  rw [h.processes, List.map_append] at hshape
  obtain hshape | hshape := List.mem_append.mp hshape
  · exact (ha.listed shape hshape).spawns h.toSpawns
  · have hempty : Owns a (p.pid, p.mainTid, []) := by
      refine ⟨List.nodup_nil, ?_, ?_⟩
      · intro tid htid
        cases htid
      · intro u _ htid
        cases htid
    have hnew := hempty.enlist h.toSpawns ha.distinct h.owner
    rw [List.mem_singleton.mp hshape, Process.shape, h.listed]
    exact hnew

theorem accounted_spawnsThread (h : SpawnsThread a b t)
    (hd : b.Distinct) (ha : Accounted a) : Accounted b := by
  refine ⟨hd, fun cpu => attributed_spawns h.toSpawns (ha.attributed cpu), ?_⟩
  intro shape hshape
  rw [h.processes, addThreadToProcess, updateProcess,
    Lib.modifyFirst_eq_map Process.pid ha.distinct.pids] at hshape
  simp only [List.map_map, List.mem_map, Function.comp_apply] at hshape
  obtain ⟨p, hp, rfl⟩ := hshape
  have hlisted := ha.listed p.shape (List.mem_map_of_mem hp)
  split
  · rename_i hpid
    exact hlisted.toOwns.enlist h.toSpawns ha.distinct hpid.symm
  · exact hlisted.spawns h.toSpawns

/-! Exits. -/

theorem Owns.ends (h : Ends A gone a b) (howns : Owns a shape) : Owns b shape := by
  constructor
  · exact howns.nodup
  · exact h.nextTid ▸ howns.below
  · intro t' ht' htid hlive
    obtain hdead | ⟨t, ht, hmoves⟩ := h.origin t' ht'
    · cases hlive.symm.trans hdead
    · rw [hmoves.pid]
      exact howns.owned t ht (hmoves.tid ▸ htid) (hmoves.dead ▸ hlive)

/-- A live listed thread that does not go keeps a process inhabited. -/
theorem Listed.ends (h : Ends A gone a b) (howns : Owns b shape)
    (hstays : shape.1 ≠ 0 → ∃ t ∈ a.threads, t.tid ∈ shape.2.2 ∧ t.dead = false ∧ ¬gone t.tid) :
    Listed b shape := by
  refine ⟨howns, ?_⟩
  intro hpid
  obtain ⟨t, ht, htid, hlive, hgone⟩ := hstays hpid
  obtain ⟨t', ht', htid', -, hdead⟩ := h.survives t ht hgone
  exact ⟨t', ht', htid' ▸ htid, hdead.trans hlive⟩

/-- The current thread of a CPU, while it lives, belongs to the current process. -/
theorem currentPid_of_current {a : Tasks} (ha : Accounted a)
    (ht : t ∈ a.threads) (hlive : t.dead = false) (hcurrent : a.currentUserTid cpu = some t.tid) :
    a.currentPid cpu = t.pid := by
  have hpid := (ha.attributed cpu t.tid hcurrent).2 t (ha.distinct.lookup ht) hlive
  simp [currentPid, hpid]

theorem attributed_ends (h : Ends A gone a b)
    (ha : Accounted a) (cpu : Nat) : b.Attributed cpu := by
  obtain ⟨htid, hpid⟩ | hattributed := h.current cpu
  · exact (ha.attributed cpu).ends h ha.distinct.tids htid hpid
  · exact hattributed

theorem live_iff (threads : Threads) (tid : Nat) :
    threads.live tid = true ↔ ∃ t, threads.lookup tid = some t ∧ t.dead = false := by
  unfold Threads.live Threads.state
  cases threads.lookup tid with
  | none => simp
  | some t => cases hstate : t.state <;> simp [Thread.dead, hstate]

/-- Two live entries of a list without duplicates are not the same. -/
theorem exists_other {l : List Nat} (hnodup : l.Nodup) {live : Nat → Bool}
    (hcount : 1 < l.countP live) (tid : Nat) : ∃ other ∈ l, live other = true ∧ other ≠ tid := by
  by_contra hnone
  have hsubset : l.filter live ⊆ [tid] := by
    intro other hother
    obtain ⟨hmem, hlive⟩ := List.mem_filter.mp hother
    by_contra hne
    exact hnone ⟨other, hmem, hlive, by simpa using hne⟩
  have hlength := ((hnodup.filter live).subperm hsubset).length_le
  rw [← List.countP_eq_length_filter] at hlength
  exact absurd hcount (Nat.not_lt.mpr hlength)

theorem process_of_mem {ts : Tasks} (hd : ts.Distinct) (hp : p ∈ ts.processes) :
    ts.process p.pid = some p :=
  Lib.find?_of_mem Process.pid hd.pids hp

/-- Among more than one live thread of a process there is another than the given. -/
theorem exists_other_thread {a : Tasks} (ha : Accounted a) (hp : p ∈ a.processes)
    (hcount : 1 < a.liveThreadCount p.pid) (tid : Nat) :
    ∃ t ∈ a.threads, t.tid ∈ p.threads ∧ t.dead = false ∧ t.tid ≠ tid := by
  unfold liveThreadCount at hcount
  rw [process_of_mem ha.distinct hp] at hcount
  have hnodup := (ha.listed p.shape (List.mem_map_of_mem hp)).nodup
  obtain ⟨other, hmem, hlive, hne⟩ := exists_other hnodup hcount tid
  obtain ⟨t, hlookup, hdead⟩ := (live_iff a.threads other).mp hlive
  obtain ⟨ht, rfl⟩ := mem_of_lookup hlookup
  exact ⟨t, ht, hmem, hdead, hne⟩

theorem Owns.unlist {ts : Tasks} (howns : Owns ts shape) (tid : Nat) :
    Owns ts (unlist tid shape) := by
  constructor
  · exact howns.nodup.filter _
  · intro other hother
    exact howns.below other (List.mem_of_mem_filter hother)
  · intro t ht htid
    exact howns.owned t ht (List.mem_of_mem_filter htid)

theorem accounted_leaves (h : Ends A (fun tid => a.currentUserTid cpu = some tid) a b)
    (shapes : b.processes.map Process.shape =
      Lib.modifyFirst (·.1 = a.currentPid cpu) (Tasks.unlist (a.currentTid cpu))
        (a.processes.map Process.shape))
    (hcount : a.currentPid cpu = 0 ∨ 1 < a.liveThreadCount (a.currentPid cpu))
    (hd : b.Distinct) (ha : Accounted a) : Accounted b := by
  refine ⟨hd, attributed_ends h ha, ?_⟩
  intro shape' hshape'
  have hnodup : ((a.processes.map Process.shape).map (·.1)).Nodup := by
    rw [← pids_eq]
    exact ha.distinct.pids
  rw [shapes, Lib.modifyFirst_eq_map Prod.fst hnodup] at hshape'
  simp only [List.map_map, List.mem_map, Function.comp_apply] at hshape'
  obtain ⟨p, hp, rfl⟩ := hshape'
  have hlisted := ha.listed p.shape (List.mem_map_of_mem hp)
  split
  · rename_i hpid
    apply Listed.ends h ((hlisted.toOwns.unlist _).ends h)
    intro hne
    have hpid : p.pid = a.currentPid cpu := hpid
    have hcount : 1 < a.liveThreadCount p.pid := by
      rw [hpid]
      exact hcount.resolve_left fun hzero => hne (hpid.trans hzero)
    obtain ⟨t, ht, htid, hlive, hother⟩ := exists_other_thread ha hp hcount (a.currentTid cpu)
    refine ⟨t, ht, List.mem_filter.mpr ⟨htid, by simpa using hother⟩, hlive, ?_⟩
    intro hcurrent
    exact hother (by simp [currentTid, hcurrent])
  · rename_i hpid
    apply Listed.ends h (hlisted.toOwns.ends h)
    intro hne
    obtain ⟨t, ht, htid, hlive⟩ := hlisted.inhabited hne
    refine ⟨t, ht, htid, hlive, ?_⟩
    intro hcurrent
    have howner := hlisted.owned t ht htid hlive
    exact hpid (howner.symm.trans (currentPid_of_current ha ht hlive hcurrent).symm)

theorem accounted_ends {k : Kernel} {b : Tasks} (h : Ends A (k.tornDown cpu) k.tasks b)
    (shapes : (b.processes.map Process.shape).Perm
      ((k.tasks.processes.map Process.shape).filter fun shape =>
        shape.1 ≠ k.tasks.currentPid cpu ∨ k.tasks.currentPid cpu = 0))
    (hd : b.Distinct) (ha : Accounted k.tasks) : Accounted b := by
  refine ⟨hd, attributed_ends h ha, ?_⟩
  intro shape hshape
  obtain ⟨hmem, hother⟩ := List.mem_filter.mp (shapes.mem_iff.mp hshape)
  rw [decide_eq_true_eq] at hother
  have hlisted := ha.listed shape hmem
  apply Listed.ends h (hlisted.toOwns.ends h)
  intro hne
  obtain ⟨t, ht, htid, hlive⟩ := hlisted.inhabited hne
  have howner := hlisted.owned t ht htid hlive
  have hpid : t.pid ≠ k.tasks.currentPid cpu := by
    intro heq
    have hsame := howner.symm.trans heq
    obtain hother | hzero := hother
    · exact hother hsame
    · exact hne (hsame.trans hzero)
  refine ⟨t, ht, htid, hlive, ?_⟩
  rintro (hcurrent | ⟨-, p, hp, hlists⟩)
  · exact hpid (currentPid_of_current ha ht hlive hcurrent).symm
  · have hmem := List.mem_of_find?_eq_some hp
    have hfound : p.pid = k.tasks.currentPid cpu := by simpa using List.find?_some hp
    have hown := (ha.listed p.shape (List.mem_map_of_mem hmem)).owned t ht hlists hlive
    exact hpid (hown.trans hfound)

theorem step_accounted {s t : System} {e : Event} (h : s.stepIf leavesOthers e = some t)
    (hs : Accounted s.kernel.tasks) : Accounted t.kernel.tasks := by
  obtain ⟨hstep, htest⟩ := System.stepIf_eq_some h
  have hd := step_distinct hstep hs.distinct
  obtain ⟨p, hplan, hkernel, -⟩ := System.step_eq_some hstep
  rw [hkernel] at hd ⊢
  cases apply_change hs.distinct p.cpu p.action with
  | keeps hkeeps => exact accounted_keeps hkeeps hs
  | spawnsProcess hspawns => exact accounted_spawnsProcess hspawns hd hs
  | spawnsThread hspawns => exact accounted_spawnsThread hspawns hd hs
  | leaves hends shapes cause =>
    apply accounted_leaves hends shapes _ hd hs
    obtain hexit | ⟨-, hcount⟩ := cause
    · have hothers := htest p hplan
      simp only [leavesOthers, hexit, Bool.or_eq_true, decide_eq_true_eq] at hothers
      exact hothers
    · exact .inr hcount
  | ends hends shapes _ => exact accounted_ends hends shapes hd hs

theorem boot_accounted (k : Kernel) (cpuCount : Nat) (mem : Memory) :
    Accounted (System.boot k cpuCount mem).kernel.tasks := by
  refine ⟨boot_distinct k cpuCount mem, ?_, ?_⟩
  · intro cpu tid hcurrent
    cases hcurrent
  · intro shape hshape
    cases List.mem_singleton.mp hshape
    refine ⟨⟨List.nodup_nil, ?_, ?_⟩, ?_⟩
    · intro tid htid
      cases htid
    · intro t ht
      cases ht
    · intro hpid
      exact absurd rfl hpid

/-- In a run in which every SYS_THREAD_EXIT still finds another live thread when it leaves,
every process but the kernel's has a live thread in every state. -/
theorem process_has_live_thread {k : Kernel} {cpuCount : Nat} {mem : Memory} {es : List Event}
    {s : System} (run : Lib.Run (fun s e t => s.stepIf leavesOthers e = some t)
      (System.boot k cpuCount mem) es s) {p : Process} (hp : p ∈ s.kernel.tasks.processes)
    (hpid : p.pid ≠ 0) : 0 < s.kernel.tasks.liveThreadCount p.pid := by
  have hs : Accounted s.kernel.tasks :=
    run.preserves (I := fun s => Accounted s.kernel.tasks) (fun _ _ _ hs h => step_accounted h hs)
      (boot_accounted k cpuCount mem)
  obtain ⟨t, ht, hlists, hlive⟩ := (hs.listed p.shape (List.mem_map_of_mem hp)).inhabited hpid
  unfold liveThreadCount
  rw [process_of_mem hs.distinct hp]
  apply List.countP_pos_iff.mpr
  refine ⟨t.tid, hlists, ?_⟩
  exact (live_iff _ _).mpr ⟨t, hs.distinct.lookup ht, hlive⟩

/-- A process with a thread on each of two CPUs, both of which call SYS_THREAD_EXIT. -/
def callsThreadExit : List Event :=
  [.async (.spawnProcess (some 4096) 8192 12288 4096 .user 0 0), .async (.launch 1), .enter 0,
    .syscall 0 (.threadSpawn (some 69632) 8192 0 16384), .advance 0 0, .advance 0 0, .advance 0 0,
    .enter 1, .syscall 0 .threadExit, .advance 0 0]

/-- One of the two threads has left. -/
theorem process_has_live_thread_one :
    ∃ (s : System) (p : Process), p ∈ s.kernel.tasks.processes ∧ p.pid = 1 ∧
      0 < s.kernel.tasks.liveThreadCount p.pid := by
  have hrun : ∃ s p, (callsThreadExit ++ [Event.advance 0 0, .advance 0 0]).foldlM
      (System.stepIf leavesOthers) (System.boot twoThreads 2 fun _ => 0) = some s ∧
      s.kernel.tasks.processes.getLast? = some p ∧ p.pid = 1 := ⟨_, _, rfl, rfl, rfl⟩
  obtain ⟨s, p, hrun, hlast, hpid⟩ := hrun
  have hp := List.mem_of_getLast? hlast
  exact ⟨s, p, hp, hpid, process_has_live_thread (Lib.Run.of_foldlM hrun) hp (by simp [hpid])⟩

/-- Both threads count two live threads before either leaves: the process stays without
a thread, and no exit is left to tear it down. -/
theorem both_threads_leave_alone :
    ∃ (s : System) (p : Process), Lib.Run (fun s e t => s.step e = some t)
        (System.boot twoThreads 2 fun _ => 0)
        (callsThreadExit ++ [.syscall 1 .threadExit, .advance 1 0, .advance 0 0, .advance 1 0,
          .advance 0 0, .advance 1 0]) s ∧
      p ∈ s.kernel.tasks.processes ∧ p.pid = 1 ∧ s.kernel.tasks.liveThreadCount p.pid = 0 ∧
      s.kernel.tasks.threads = [] ∧ s.control.running 0 = none ∧ s.control.running 1 = none :=
  ⟨_, _, Lib.Run.of_foldlM rfl, List.mem_of_getLast? rfl, rfl, rfl, rfl, rfl, rfl⟩

end KazuOS.Kernel
