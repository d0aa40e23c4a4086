import KazuOS.Task.Evolution

/-! Creation and end of threads and processes in the tables: a new id is handed out, or
the threads of one exit go. -/
namespace KazuOS.Task.Tasks

variable {A B : Sleepers} {a b c ts : Tasks}

theorem Keeps.tids (h : Keeps A B a b) : b.threads.map (·.tid) = a.threads.map (·.tid) := by
  have hmap : ∀ {l l' : Threads}, List.Forall₂ (Thread.Moves A B) l l' →
      l'.map (·.tid) = l.map (·.tid) := by
    intro l l' h
    induction h with
    | nil => rfl
    | cons hmoves _ ih => simp [hmoves.tid, ih]
  exact hmap h.threads

theorem pids_eq (ts : Tasks) :
    ts.processes.map (·.pid) = (ts.processes.map Process.shape).map (·.1) := by
  rw [List.map_map]
  rfl

theorem Distinct.keeps (h : Keeps A B a b) (hd : a.Distinct) : b.Distinct := by
  constructor
  · rw [h.tids, h.nextTid]
    exact hd.freshTids
  · rw [pids_eq, h.processes, h.nextPid, ← pids_eq]
    exact hd.freshPids
  · exact h.nextTid ▸ hd.tidPositive
  · exact h.nextPid ▸ hd.pidPositive

/-! Creation. -/

/-- One new thread with the next id. -/
structure Spawns (a b : Tasks) (t : Thread) : Prop where
  threads : b.threads = a.threads ++ [t]
  tid : t.tid = a.nextTid
  alive : t.dead = false
  target : t.waitTarget = .none
  nextTid : b.nextTid = a.nextTid + 1
  currentTid : b.currentUserTid = a.currentUserTid
  currentPid : b.currentUserPid = a.currentUserPid

/-- The new thread is the main thread of a new process. -/
structure SpawnsProcess (a b : Tasks) (t : Thread) (p : Process) : Prop extends Spawns a b t where
  processes : b.processes = a.processes ++ [p]
  pid : p.pid = a.nextPid
  owner : t.pid = p.pid
  listed : p.threads = [t.tid]
  nextPid : b.nextPid = a.nextPid + 1
  parent : p.parent = 0

/-- The new thread joins a process. -/
structure SpawnsThread (a b : Tasks) (t : Thread) : Prop extends Spawns a b t where
  processes : b.processes = (a.addThreadToProcess t.pid t.tid).processes
  nextPid : b.nextPid = a.nextPid

theorem update_concat_fresh (hd : ts.Distinct) {t : Thread} (ht : t.tid = ts.nextTid)
    (f : Thread → Thread) :
    Threads.update (ts.threads ++ [t]) ts.nextTid f = ts.threads ++ [f t] := by
  apply Lib.modifyFirst_concat
  · intro u hu
    simpa using Nat.ne_of_lt (hd.tidsBelow hu)
  · simpa using ht

/-- The thread the next creation pushes, with the context it starts from. -/
def startThread (ts : Tasks) (pid stackBase : Nat) (privilege : PrivilegeLevel)
    (context : UserContext) : Thread :=
  { newThread ts.nextTid pid stackBase privilege (ts.nextAssignCpu % max ts.cpuCount 1) with
    userContext := context }

theorem spawnUserProcess_some (hd : ts.Distinct) (stackBase entry userStackTop cr3 : Nat)
    (privilege : PrivilegeLevel) (argc argv : Nat) :
    ts.spawnUserProcess (some stackBase) entry userStackTop cr3 privilege argc argv =
      (ts.nextPid,
        { ((ts.createKernelThread (some stackBase) 0 entry 0 privilege).2.createProcess privilege
            ts.nextTid).2 with
          threads := ts.threads ++ [ts.startThread ts.nextPid stackBase privilege
            (startContext entry userStackTop cr3 argc argv)] }) := by
  unfold spawnUserProcess
  split
  · rename_i hcreate
    exact absurd (congrArg Prod.fst hcreate) (Nat.ne_of_gt hd.tidPositive)
  · rename_i hcreate
    cases hcreate
    split
    · rename_i hcreate
      exact absurd (congrArg Prod.fst hcreate) (Nat.ne_of_gt hd.pidPositive)
    · rename_i hcreate
      cases hcreate
      simp only [createKernelThread, createProcess, Threads.setUserContext, Threads.setThreadPid,
        startThread]
      rw [update_concat_fresh hd rfl, update_concat_fresh hd rfl]
      simp only [newThread]

/-- A new process has one thread, its main thread. -/
theorem spawnUserProcess_starts (hd : ts.Distinct) (stackBase entry userStackTop cr3 : Nat)
    (privilege : PrivilegeLevel) (argc argv : Nat) :
    ∃ t p, SpawnsProcess ts
        (ts.spawnUserProcess (some stackBase) entry userStackTop cr3 privilege argc argv).2 t p ∧
      p.mainTid = some t.tid ∧
      (ts.spawnUserProcess (some stackBase) entry userStackTop cr3 privilege argc argv).1 = p.pid ∧
      t.userContext = startContext entry userStackTop cr3 argc argv := by
  rw [spawnUserProcess_some hd]
  exact ⟨ts.startThread ts.nextPid stackBase privilege
    (startContext entry userStackTop cr3 argc argv), _,
    ⟨⟨rfl, rfl, rfl, rfl, rfl, rfl, rfl⟩, rfl, rfl, rfl, rfl, rfl, rfl⟩, rfl, rfl, rfl⟩

theorem spawnUserProcess_cases (hd : ts.Distinct) (stack : Option Nat)
    (entry userStackTop cr3 : Nat) (privilege : PrivilegeLevel) (argc argv : Nat) :
    (ts.spawnUserProcess stack entry userStackTop cr3 privilege argc argv).2 = ts ∨
      ∃ t p, SpawnsProcess ts
        (ts.spawnUserProcess stack entry userStackTop cr3 privilege argc argv).2 t p := by
  cases stack with
  | none => exact .inl rfl
  | some stackBase =>
    obtain ⟨t, p, hspawns, -⟩ :=
      spawnUserProcess_starts hd stackBase entry userStackTop cr3 privilege argc argv
    exact .inr ⟨t, p, hspawns⟩

theorem createUserThread_some (hd : ts.Distinct) (stackBase pid entry userStackTop cr3 : Nat)
    (privilege : PrivilegeLevel) (argc argv : Nat) :
    ts.createUserThread (some stackBase) pid entry userStackTop cr3 privilege argc argv =
      (ts.nextTid,
        { (ts.createKernelThread (some stackBase) pid entry 0 privilege).2 with
          threads := ts.threads ++ [ts.startThread pid stackBase privilege
            (startContext entry userStackTop cr3 argc argv)] }) := by
  unfold createUserThread
  split
  · rename_i hcreate
    exact absurd (congrArg Prod.fst hcreate) (Nat.ne_of_gt hd.tidPositive)
  · rename_i hcreate
    cases hcreate
    simp only [createKernelThread, Threads.setUserContext, startThread]
    rw [update_concat_fresh hd rfl]

theorem spawnUserThread_cases (hd : ts.Distinct) (cpu : Nat) (stack : Option Nat)
    (entry arg stackTop : Nat) :
    (ts.spawnUserThread cpu stack entry arg stackTop).2 = ts ∨
      ∃ t, SpawnsThread ts (ts.spawnUserThread cpu stack entry arg stackTop).2 t := by
  unfold spawnUserThread
  dsimp only
  split
  · exact .inl rfl
  split
  · exact .inl rfl
  rename_i cr3 _
  cases stack with
  | none => exact .inl rfl
  | some stackBase =>
    rw [createUserThread_some hd]
    split
    · rename_i hcreate
      exact absurd (congrArg Prod.fst hcreate) (Nat.ne_of_gt hd.tidPositive)
    · rename_i hcreate
      cases hcreate
      refine .inr ⟨(ts.startThread (ts.currentPid cpu) stackBase
        (ts.privilegeLevel (ts.currentPid cpu)) (startContext entry stackTop cr3 arg 0)).setReady,
        ⟨?_, rfl, rfl, rfl, rfl, rfl, rfl⟩, rfl, rfl⟩
      simp only [Threads.setReady]
      exact update_concat_fresh hd rfl _

/-! Exits. -/

/-- The threads in `gone` may end; sleepers in `A` may be woken. -/
structure Ends (A : Sleepers) (gone : Nat → Prop) (a b : Tasks) : Prop where
  tids : (b.threads.map (·.tid)).Sublist (a.threads.map (·.tid))
  origin : ∀ t' ∈ b.threads, t'.dead = true ∨ ∃ t ∈ a.threads, Thread.Moves A nobody t t'
  survives : ∀ t ∈ a.threads, ¬gone t.tid →
    ∃ t' ∈ b.threads, t'.tid = t.tid ∧ t'.pid = t.pid ∧ t'.dead = t.dead
  nextTid : b.nextTid = a.nextTid
  nextPid : b.nextPid = a.nextPid
  current : ∀ cpu, (b.currentUserTid cpu = a.currentUserTid cpu ∧
    b.currentUserPid cpu = a.currentUserPid cpu) ∨ b.Attributed cpu

variable {gone gone' : Nat → Prop}

theorem Keeps.ends (h : Keeps A nobody a b) : Ends A gone a b := by
  constructor
  · rw [h.tids]
  · intro t' ht'
    exact .inr (Lib.forall₂_mem_right h.threads ht')
  · intro t ht _
    obtain ⟨t', ht', hmoves⟩ := Lib.forall₂_mem_left h.threads ht
    exact ⟨t', ht', hmoves.tid, hmoves.pid, hmoves.dead⟩
  · exact h.nextTid
  · exact h.nextPid
  · exact h.current

variable {tid : Nat} {cpu : Nat}

theorem Attributed.ends (h : Ends A gone a b) (hnodup : (a.threads.map (·.tid)).Nodup)
    (hattributed : a.Attributed cpu) (htid : b.currentUserTid cpu = a.currentUserTid cpu)
    (hpid : b.currentUserPid cpu = a.currentUserPid cpu) : b.Attributed cpu := by
  intro tid hcurrent
  obtain ⟨hbelow, halive⟩ := hattributed tid (htid ▸ hcurrent)
  refine ⟨h.nextTid ▸ hbelow, ?_⟩
  intro t' hlookup hdead
  obtain ⟨hmem, rfl⟩ := mem_of_lookup hlookup
  obtain hdead' | ⟨t, ht, hmoves⟩ := h.origin t' hmem
  · cases hdead.symm.trans hdead'
  · rw [hpid, hmoves.pid]
    apply halive t
    · rw [hmoves.tid]
      exact Lib.find?_of_mem Thread.tid hnodup ht
    · exact hmoves.dead ▸ hdead

theorem Ends.trans (h : Ends A gone a b) (h' : Ends A gone b c)
    (hnodup : (a.threads.map (·.tid)).Nodup) : Ends A gone a c := by
  constructor
  · exact h'.tids.trans h.tids
  · intro t'' ht''
    obtain hdead | ⟨t', ht', hmoves'⟩ := h'.origin t'' ht''
    · exact .inl hdead
    · obtain hdead | ⟨t, ht, hmoves⟩ := h.origin t' ht'
      · exact .inl (hmoves'.dead.trans hdead)
      · exact .inr ⟨t, ht, hmoves.trans hmoves'⟩
  · intro t ht hgone
    obtain ⟨t', ht', htid, hpid, hdead⟩ := h.survives t ht hgone
    obtain ⟨t'', ht'', htid', hpid', hdead'⟩ := h'.survives t' ht' (htid ▸ hgone)
    exact ⟨t'', ht'', htid'.trans htid, hpid'.trans hpid, hdead'.trans hdead⟩
  · exact h'.nextTid.trans h.nextTid
  · exact h'.nextPid.trans h.nextPid
  · intro cpu
    obtain ⟨htid, hpid⟩ | hattributed := h'.current cpu
    · obtain ⟨htid', hpid'⟩ | hattributed := h.current cpu
      · exact .inl ⟨htid.trans htid', hpid.trans hpid'⟩
      · exact .inr (hattributed.ends h' (h.tids.nodup hnodup) htid hpid)
    · exact .inr hattributed

theorem Ends.mono (h : Ends A gone a b) (hA : ∀ tid w, A tid w → B tid w)
    (hgone : ∀ tid, gone tid → gone' tid) : Ends B gone' a b :=
  ⟨h.tids, fun t' ht' => (h.origin t' ht').imp_right fun ⟨t, ht, hmoves⟩ =>
    ⟨t, ht, hmoves.mono hA fun _ _ h => h⟩,
    fun t ht hstays => h.survives t ht fun h => hstays (hgone _ h), h.nextTid, h.nextPid, h.current⟩

/-- Dropping threads from the table. -/
theorem ends_filter {p : Thread → Bool} (hp : ∀ t ∈ ts.threads, p t = false → gone t.tid) :
    Ends A gone ts { ts with threads := ts.threads.filter p } := by
  constructor
  · exact (List.filter_sublist).map _
  · intro t ht
    exact .inr ⟨t, List.mem_of_mem_filter ht, Thread.Moves.refl t⟩
  · intro t ht hgone
    refine ⟨t, List.mem_filter.mpr ⟨ht, ?_⟩, rfl, rfl, rfl⟩
    by_contra hfalse
    exact hgone (hp t ht (by simpa using hfalse))
  · rfl
  · rfl
  · exact fun _ => .inl ⟨rfl, rfl⟩

theorem ends_setState_exited (hgone : gone tid) :
    Ends A gone ts { ts with threads := ts.threads.setState tid .exited } := by
  have hcases : List.Forall₂ (fun t t' => t' = t ∨ t.tid = tid ∧ t' = { t with state := .exited })
      ts.threads (ts.threads.setState tid .exited) := by
    apply Lib.forall₂_modifyFirst
    · exact fun t => .inl rfl
    · intro t ht
      exact .inr ⟨by simpa using List.find?_some ht, rfl⟩
  constructor
  · have htids : (ts.threads.setState tid .exited).map (·.tid) = ts.threads.map (·.tid) := by
      apply Lib.map_key_modifyFirst
      intro t
      rfl
    rw [htids]
  · intro t' ht'
    obtain ⟨t, ht, rfl | ⟨-, rfl⟩⟩ := Lib.forall₂_mem_right hcases ht'
    · exact .inr ⟨t', ht, Thread.Moves.refl t'⟩
    · exact .inl rfl
  · intro t ht hstays
    obtain ⟨t', ht', rfl | ⟨htid, -⟩⟩ := Lib.forall₂_mem_left hcases ht
    · exact ⟨t', ht', rfl, rfl, rfl⟩
    · exact absurd (htid ▸ hgone) hstays
  · rfl
  · rfl
  · exact fun _ => .inl ⟨rfl, rfl⟩

/-- Neither processes nor stacks matter to who ends. -/
theorem Ends.processes (h : Ends A gone a b) (processes : List Process) :
    Ends A gone a { b with processes } :=
  ⟨h.tids, h.origin, h.survives, h.nextTid, h.nextPid, h.current⟩

theorem Ends.deferFreeKernelStack (h : Ends A gone a b) (cpu stackBase : Nat) :
    Ends A gone a (b.deferFreeKernelStack cpu stackBase) :=
  ⟨h.tids, h.origin, h.survives, h.nextTid, h.nextPid, h.current⟩

/-- Marking a thread as exited and waking its joiners, as every exit does. -/
theorem ends_exitThread (hnodup : (ts.threads.map (·.tid)).Nodup) (hgone : gone tid) :
    Ends (sleepersOn (.tid tid)) gone ts
      { ts with threads := (ts.threads.setState tid .exited).wakeupThreadWaiters ts.mem tid } := by
  have hexited : Ends (sleepersOn (.tid tid)) gone ts
      { ts with threads := ts.threads.setState tid .exited } := ends_setState_exited hgone
  exact hexited.trans (keeps_wakeAll_on ts.mem 0 (.tid tid) _).ends hnodup

theorem ends_removeThread (hgone : gone tid) :
    Ends A gone ts { ts with threads := ts.threads.removeThread tid } := by
  apply ends_filter
  intro t _ ht
  have htid : t.tid = tid := by simpa using ht
  rwa [htid]

theorem currentUserTid_of_currentTid (h : ts.currentTid cpu ≠ 0) :
    ts.currentUserTid cpu = some (ts.currentTid cpu) := by
  unfold currentTid at h ⊢
  cases hcurrent : ts.currentUserTid cpu with
  | none =>
    rw [hcurrent] at h
    exact absurd rfl h
  | some tid => rfl

theorem ends_exitCurrentThread (hnodup : (ts.threads.map (·.tid)).Nodup) (cpu : Nat) :
    Ends (sleepersOn (.tid (ts.currentTid cpu))) (fun tid => ts.currentUserTid cpu = some tid) ts
      (ts.exitCurrentThread cpu) := by
  have hlisted : Ends (sleepersOn (.tid (ts.currentTid cpu)))
      (fun tid => ts.currentUserTid cpu = some tid) ts
      (ts.removeThreadFromProcess (ts.currentPid cpu) (ts.currentTid cpu)) :=
    (Keeps.refl ts).ends.processes _
  have huser := hlisted.trans (keeps_clearCurrentUser _ cpu (ts.currentPid cpu)).ends hnodup
  have hcleared := huser.trans (keeps_clearCurrentPid _ cpu).ends hnodup
  unfold exitCurrentThread
  dsimp only
  split
  · rename_i htid
    have hgone := currentUserTid_of_currentTid htid
    have hexited := hcleared.trans (ends_exitThread (hcleared.tids.nodup hnodup) hgone) hnodup
    exact (hexited.trans (ends_removeThread hgone) hnodup).deferFreeKernelStack _ _
  · exact hcleared

theorem exitCurrentThread_processes (ts : Tasks) (cpu : Nat) :
    (ts.exitCurrentThread cpu).processes =
      (ts.removeThreadFromProcess (ts.currentPid cpu) (ts.currentTid cpu)).processes := by
  have hclear : ∀ (ts : Tasks) pid, (ts.clearCurrentUser cpu pid).processes = ts.processes := by
    intro ts pid
    unfold clearCurrentUser
    split
    · rfl
    · rfl
  unfold exitCurrentThread
  dsimp only
  split
  · exact hclear _ _
  · exact hclear _ _

/-- A thread struck off the list of a process. -/
def unlist (tid : Nat) (shape : Nat × Option Nat × List Nat) : Nat × Option Nat × List Nat :=
  (shape.1, shape.2.1, shape.2.2.filter (· ≠ tid))

theorem exitCurrentThread_shapes (ts : Tasks) (cpu : Nat) :
    (ts.exitCurrentThread cpu).processes.map Process.shape =
      Lib.modifyFirst (·.1 = ts.currentPid cpu) (unlist (ts.currentTid cpu))
        (ts.processes.map Process.shape) := by
  rw [exitCurrentThread_processes]
  apply Lib.map_modifyFirst
  · exact fun _ => rfl
  · exact fun _ => rfl

theorem foldl_removeThread (tids : List Nat) (threads : Threads) :
    tids.foldl Threads.removeThread threads = threads.filter (fun t => t.tid ∉ tids) := by
  induction tids generalizing threads with
  | nil => simp
  | cons tid tids ih =>
    rw [List.foldl_cons, ih, Threads.removeThread, List.filter_filter]
    apply List.filter_congr
    intro t _
    by_cases ht : t.tid = tid <;> simp [ht]

/-- Removing a process drops the threads it lists. -/
theorem ends_removeProcess (ts : Tasks) {pid : Nat}
    (hgone : ∀ p, ts.process pid = some p → ∀ tid ∈ p.threads, gone tid) :
    Ends A gone ts (ts.removeProcess pid) := by
  unfold removeProcess
  split
  · rename_i pos p _ hp
    have hfilter : Ends A gone ts
        { ts with threads := ts.threads.filter (fun t => t.tid ∉ p.threads) } := by
      apply ends_filter
      intro t _ ht
      exact hgone p hp t.tid (by simpa using ht)
    rw [foldl_removeThread]
    exact hfilter.processes _
  · exact (Keeps.refl ts).ends

/-- What is left of the processes when one of them is removed. -/
theorem removeProcess_shapes (hpids : (ts.processes.map (·.pid)).Nodup) (pid : Nat) :
    ((ts.removeProcess pid).processes.map Process.shape).Perm
      ((ts.processes.map Process.shape).filter (·.1 ≠ pid)) := by
  have hfilter : ∀ processes : List Process, pid ∉ processes.map (·.pid) →
      (processes.map Process.shape).filter (·.1 ≠ pid) = processes.map Process.shape := by
    intro processes hpid
    apply List.filter_eq_self.mpr
    intro shape hshape
    obtain ⟨p, hp, rfl⟩ := List.mem_map.mp hshape
    have hne : p.pid ≠ pid := fun h => hpid (h ▸ List.mem_map_of_mem hp)
    exact decide_eq_true hne
  unfold removeProcess process
  obtain ⟨hidx, -, hnone⟩ | ⟨pos, p, hidx, hfind, hget⟩ :=
    Lib.findIdx?_find?_cases (fun p : Process => decide (p.pid = pid)) ts.processes
  · rw [hidx, hfilter]
    intro hmem
    obtain ⟨p, hp, hpid⟩ := List.mem_map.mp hmem
    simpa [hpid] using hnone p hp
  · rw [hidx, hfind]
    have hperm := Lib.perm_swapRemove hget
    have hpid : p.pid = pid := by simpa using List.find?_some hfind
    have hnodup := (hperm.map (·.pid)).nodup_iff.mp hpids
    rw [List.map_cons, List.nodup_cons, hpid] at hnodup
    have hshapes := (hperm.map Process.shape).filter (·.1 ≠ pid)
    rw [List.map_cons, List.filter_cons_of_neg (by simp [Process.shape, hpid]),
      hfilter _ hnodup.1] at hshapes
    exact hshapes.symm

end KazuOS.Task.Tasks
