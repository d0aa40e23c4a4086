import KazuOS.Kernel.PipeRefs
import KazuOS.Kernel.Reclaim

/-! Every call on descriptors is a sequence of sections, none of which upsets the counts as
long as no other call comes between them. -/
namespace KazuOS.Kernel

open KazuOS.Task KazuOS.Lib

variable {k : Kernel}

/-- The counts match, and no process that is still to come has descriptors. -/
structure Sane (k : Kernel) : Prop where
  refs : k.RefsMatch
  unused : ∀ pid, k.tasks.nextPid ≤ pid → entriesOf (k.table pid) = []

/-- Pids are not used twice. -/
theorem nextPid_section (e : PipeSection) (hsound : e.Sound k) :
    k.tasks.nextPid ≤ (e.apply k).tasks.nextPid := by
  cases e with
  | create => exact (congrArg Tasks.nextPid k.createPipe_tasks).ge
  | allocFd pid entry => exact (congrArg Tasks.nextPid (k.installs_allocFd pid entry).tasks).ge
  | allocFdAt pid fd entry =>
    exact (congrArg Tasks.nextPid (k.installs_allocFdAt pid fd entry).tasks).ge
  | setFd pid fd entry => exact (congrArg Tasks.nextPid (k.setFd_tasks pid fd entry)).ge
  | freeFd pid fd => exact (keeps_freeFd k pid fd).nextPid.ge
  | closeAll pid => exact (keeps_closeAll k pid).nextPid.ge
  | write id data => exact (congrArg Tasks.nextPid (k.writePipe_tasks id data)).ge
  | read id maxLen => exact Nat.le_refl _
  | readEnd cpu id bufPtr bufLen =>
    exact (@keeps_readPipeEnd k _ cpu id bufPtr bufLen rfl).nextPid.ge
  | notify id => exact Nat.le_refl _
  | other k' => exact hsound

variable {pid : Nat}

theorem table_of_unused (h : entriesOf (k.table pid) = []) :
    k.table pid = none ∨ k.table pid = some [] := by
  cases htable : k.table pid with
  | none => exact .inl rfl
  | some entries =>
    rw [htable] at h
    exact .inr (congrArg some h)

/-- Sections that install nothing leave an empty table empty. -/
theorem unused_section (e : PipeSection) (hsound : e.Sound k) (hpid : k.tasks.nextPid ≤ pid)
    (h : entriesOf (k.table pid) = []) : entriesOf ((e.apply k).table pid) = [] := by
  by_cases he : e.table = some pid
  · cases e with
    | allocFd p entry | allocFdAt p fd entry =>
      cases he
      exact absurd hsound.1 (Nat.not_lt.mpr hpid)
    | setFd p fd entry =>
      cases he
      obtain htable | htable := table_of_unused h
      · simpa [PipeSection.apply, setFd, htable] using h
      · simpa [PipeSection.apply, setFd, htable] using h
    | freeFd p fd =>
      cases he
      obtain htable | htable := table_of_unused h
      · simpa [PipeSection.apply, freeFd, htable] using h
      · simpa [PipeSection.apply, freeFd, htable] using h
    | closeAll p =>
      cases he
      obtain htable | htable := table_of_unused h
      · simpa [PipeSection.apply, closeAll, htable] using h
      · simp only [PipeSection.apply, closeAll, htable, List.foldl_nil]
        rw [table_setTable_self htable]
        rfl
    | create => cases he
    | write id data => cases he
    | read id maxLen => cases he
    | readEnd cpu id bufPtr bufLen => cases he
    | notify id => cases he
    | other k' => cases he
  · rw [table_section e he]
    exact h

theorem sane_section (e : PipeSection) (h : k.Sane) (hsound : e.Sound k) : (e.apply k).Sane := by
  constructor
  · exact refsMatch_section e h.refs hsound
  · intro pid hpid
    have hbefore := (nextPid_section e hsound).trans hpid
    exact unused_section e hsound hbefore (h.unused pid hbefore)

/-! Calls. -/

/-- One after the other, without another call between them, sound sections lead from the
first kernel to the second. -/
def Composed (k k' : Kernel) : Prop := ∃ es, Run SoundStep k es k'

namespace Composed

theorem refl (k : Kernel) : Composed k k := ⟨[], .nil k⟩

theorem trans {k' k'' : Kernel} (h : Composed k k') (h' : Composed k' k'') : Composed k k'' := by
  obtain ⟨es, run⟩ := h
  obtain ⟨es', run'⟩ := h'
  exact ⟨es ++ es', run.append run'⟩

theorem single {e : PipeSection} (hsound : e.Sound k) : Composed k (e.apply k) :=
  ⟨[e], .cons ⟨hsound, rfl⟩ (.nil _)⟩

variable {k' : Kernel}

/-- Pipes and descriptors are left alone. -/
theorem other (hpipes : k'.pipes = k.pipes) (htables : k'.tables = k.tables)
    (hpid : k.tasks.nextPid ≤ k'.tasks.nextPid) : Composed k k' := by
  have happly : (PipeSection.other k').apply k = k' := by
    simp only [PipeSection.apply, ← hpipes, ← htables]
  exact happly ▸ single (e := .other k') hpid

theorem sane (h : Composed k k') (hsane : k.Sane) : k'.Sane := by
  obtain ⟨es, run⟩ := h
  refine run.preserves ?_ hsane
  rintro k e k' h ⟨hsound, rfl⟩
  exact sane_section e h hsound

end Composed

variable {entry : FdEntry} {id : Nat}

/-- Counting a reference takes no pipe away. -/
theorem isSome_pipeClone (h : (k.pipe id).isSome = true) (entry : FdEntry) :
    ((k.pipeClone entry).pipe id).isSome = true := by
  have hupdate : ∀ j (f : PipeState → PipeState),
      ((k.updatePipe j fun p => some (f p)).pipe id).isSome = true := by
    intro j f
    rw [pipe_updatePipe]
    split
    · rename_i hj
      rw [← hj, Option.isSome_bind]
      simpa using h
    · exact h
  cases entry with
  | pipeWrite j => exact hupdate j _
  | pipeRead j => exact hupdate j _
  | _ => exact h

theorem isSome_allocFd (h : (k.pipe id).isSome = true) (pid : Nat) (entry : FdEntry) :
    ((k.allocFd pid entry).2.pipe id).isSome = true := by
  obtain hsame | hcloned := (k.installs_allocFd pid entry).pipe
  · rwa [hsame]
  · rw [hcloned]
    exact isSome_pipeClone h entry

theorem composed_freeFd (k : Kernel) (pid fd : Nat) : Composed k (k.freeFd pid fd).2 :=
  .single (e := .freeFd pid fd) trivial

theorem composed_freeFd? (k : Kernel) (pid : Nat) (fd : Option Nat) :
    Composed k (k.freeFd? pid fd) := by
  cases fd with
  | none => exact .refl k
  | some fd => exact k.composed_freeFd pid fd

theorem composed_allocFd (hpid : pid < k.tasks.nextPid)
    (halive : k.Alive entry) : Composed k (k.allocFd pid entry).2 :=
  .single (e := .allocFd pid entry) ⟨hpid, halive⟩

theorem composed_sysPipe {cpu : Nat} (hcaller : k.callerPid cpu < k.tasks.nextPid)
    (outPtr : Nat) : Composed k (k.sysPipe cpu outPtr).2 := by
  let caller := k.callerPid cpu
  let id := k.createPipe.1
  let created := k.createPipe.2
  let reading := (created.allocFd caller (.pipeRead id)).2
  let writing := (reading.allocFd caller (.pipeWrite id)).2
  have hcreate : Composed k created := .single (e := .create) trivial
  have hlive : (created.pipe id).isSome = true := by
    rw [pipe_createPipe, if_pos rfl]
    rfl
  have hread : Composed created reading := by
    apply composed_allocFd
    · rwa [createPipe_tasks]
    · rintro e ⟨⟩
      exact hlive
  have hwrite : Composed reading writing := by
    apply composed_allocFd
    · rwa [(installs_allocFd _ _ _).tasks, createPipe_tasks]
    · rintro e ⟨⟩
      exact isSome_allocFd hlive _ _
  have hboth : Composed k writing := (hcreate.trans hread).trans hwrite
  unfold sysPipe
  dsimp only
  split
  · exact hboth
  · exact (hboth.trans (composed_freeFd? _ _ _)).trans (composed_freeFd? _ _ _)

theorem composed_sysClose (k : Kernel) (cpu fd : Nat) : Composed k (k.sysClose cpu fd).2 := by
  have hfree := k.composed_freeFd (k.callerPid cpu) fd
  unfold sysClose
  split
  · rename_i k' heq
    rwa [heq] at hfree
  · rename_i k' heq
    rwa [heq] at hfree

/-! New processes. -/

theorem entryAt_eq (k : Kernel) (pid fd : Nat) :
    k.entryAt pid fd = (entriesOf (k.table pid))[fd]?.getD .empty := by
  unfold entryAt getFd
  cases k.table pid with
  | none => rfl
  | some entries => rfl

theorem padded_getD (entries : List FdEntry) (fd j : Nat) :
    (padded entries fd)[j]?.getD .empty = entries[j]?.getD .empty := by
  unfold padded
  by_cases hlt : j < entries.length
  · rw [List.getElem?_append_left hlt]
  · rw [List.getElem?_append_right (Nat.le_of_not_lt hlt),
      List.getElem?_eq_none (Nat.le_of_not_lt hlt), List.getElem?_replicate]
    split
    · rfl
    · rfl

theorem entryAt_allocFdAt (k : Kernel) {pid fd fd' : Nat} (entry : FdEntry) (hne : fd' ≠ fd) :
    (k.allocFdAt pid fd entry).2.entryAt pid fd' = k.entryAt pid fd' := by
  have htable : (k.ensureTable pid).table pid = some (entriesOf (k.table pid)) := by
    rw [table_ensureTable, if_pos rfl]
  rw [entryAt_eq, entryAt_eq]
  unfold allocFdAt
  split
  · rfl
  · have hcloned := (table_congr (pipeClone_tables (k.ensureTable pid) entry) pid).trans htable
    dsimp only
    rw [htable]
    dsimp only
    rw [table_setTable_self hcloned]
    change ((padded (entriesOf (k.table pid)) fd).set fd entry)[fd']?.getD .empty = _
    rw [List.getElem?_set_ne (Ne.symm hne), padded_getD]

/-- A process that is being set up: it has nothing yet at some of its descriptors. -/
structure Installing (k : Kernel) (pid : Nat) (free : List Nat) : Prop where
  sane : k.Sane
  known : pid < k.tasks.nextPid
  free : ∀ fd ∈ free, k.entryAt pid fd = .empty

theorem Installing.install {pid fd : Nat} {free : List Nat}
    (h : k.Installing pid (fd :: free)) (hfd : fd ∉ free) (halive : k.Alive entry) :
    Composed k (k.allocFdAt pid fd entry).2 ∧
      (k.allocFdAt pid fd entry).2.Installing pid free := by
  have hempty := h.free fd List.mem_cons_self
  have hcomposed : Composed k (k.allocFdAt pid fd entry).2 :=
    .single (e := .allocFdAt pid fd entry) ⟨h.known, halive, by rw [hempty]; rfl⟩
  refine ⟨hcomposed, hcomposed.sane h.sane, ?_, ?_⟩
  · rw [(k.installs_allocFdAt pid fd entry).tasks]
    exact h.known
  · intro fd' hfd'
    have hne : fd' ≠ fd := fun heq => hfd (heq ▸ hfd')
    rw [entryAt_allocFdAt k entry hne]
    exact h.free fd' (List.mem_cons_of_mem fd hfd')

theorem alive_of_pipeEnd (entry : FdEntry) (h : entry.pipeEnd = none) : k.Alive entry := by
  intro e he
  rw [h] at he
  cases he

theorem alive_stdioEntry (h : k.Sane) (caller fd : Nat) (console : FdEntry)
    (hconsole : console.pipeEnd = none) : k.Alive (k.stdioEntry caller fd console) := by
  unfold stdioEntry
  split
  · exact alive_of_pipeEnd console hconsole
  · cases hfd : k.getFd caller fd with
    | none => exact alive_of_pipeEnd console hconsole
    | some entry => exact h.refs.alive (mem_descriptors hfd)

theorem installing_consoleStdio (h : k.Installing pid [0, 1, 2, 3]) :
    Composed k (k.consoleStdio pid) ∧ (k.consoleStdio pid).Installing pid [3] := by
  obtain ⟨hcomposed₀, h₀⟩ := h.install (by decide) (alive_of_pipeEnd .consoleIn rfl)
  obtain ⟨hcomposed₁, h₁⟩ := h₀.install (by decide) (alive_of_pipeEnd .consoleOut rfl)
  obtain ⟨hcomposed₂, h₂⟩ := h₁.install (by decide) (alive_of_pipeEnd .consoleOut rfl)
  exact ⟨(hcomposed₀.trans hcomposed₁).trans hcomposed₂, h₂⟩

theorem installing_inheritStdio (h : k.Installing pid [2, 0, 1, 3])
    (caller stdinFd stdoutFd : Nat) :
    Composed k (k.inheritStdio pid caller stdinFd stdoutFd) ∧
      (k.inheritStdio pid caller stdinFd stdoutFd).Installing pid [3] := by
  obtain ⟨hcomposed₂, h₂⟩ := h.install (by decide) (alive_of_pipeEnd .consoleOut rfl)
  obtain ⟨hcomposed₀, h₀⟩ :=
    h₂.install (by decide) (alive_stdioEntry h₂.sane caller stdinFd .consoleIn rfl)
  obtain ⟨hcomposed₁, h₁⟩ :=
    h₀.install (by decide) (alive_stdioEntry h₀.sane caller stdoutFd .consoleOut rfl)
  exact ⟨(hcomposed₂.trans hcomposed₀).trans hcomposed₁, h₁⟩

theorem installing_installStdio (h : ∀ free, k.Installing pid free)
    (caller stdinFd stdoutFd : Nat) :
    Composed k (k.installStdio pid caller stdinFd stdoutFd) ∧
      (k.installStdio pid caller stdinFd stdoutFd).Installing pid [3] := by
  unfold installStdio
  split
  · exact installing_consoleStdio (h _)
  · exact installing_inheritStdio (h _) caller stdinFd stdoutFd

theorem composed_inheritCtty (h : k.Installing pid [3]) (caller stdioPack : Nat) :
    Composed k (k.inheritCtty pid caller stdioPack) := by
  unfold inheritCtty
  split
  · split
    · rename_i tty hfd
      exact (h.install (by decide) (h.sane.refs.alive (mem_descriptors hfd))).1
    · exact .refl k
  · exact .refl k

/-- The pid of a new process is the next one. -/
theorem spawnUserProcess_pid (ts : Tasks) (stack : Option Nat) (entry userStackTop cr3 : Nat)
    (privilege : PrivilegeLevel) (argc argv : Nat) {ts' : Tasks}
    (h : ts.spawnUserProcess stack entry userStackTop cr3 privilege argc argv = (pid, ts')) :
    ts.nextPid ≤ ts'.nextPid ∧ (pid ≠ 0 → pid = ts.nextPid ∧ ts'.nextPid = ts.nextPid + 1) := by
  have hthread : (ts.createKernelThread stack 0 entry 0 privilege).2.nextPid = ts.nextPid := by
    unfold Tasks.createKernelThread
    cases stack with
    | none => rfl
    | some base => rfl
  unfold Tasks.spawnUserProcess at h
  split at h
  · rename_i ts₁ hcreate
    rw [hcreate] at hthread
    cases h
    exact ⟨hthread.ge, fun hpid => absurd rfl hpid⟩
  · rename_i tid ts₁ _ hcreate
    rw [hcreate] at hthread
    dsimp only at hthread
    unfold Tasks.createProcess at h
    split at h
    · rename_i hprocess
      obtain ⟨-, rfl⟩ := Prod.mk.inj hprocess
      cases h
      exact ⟨by simp [hthread], fun hpid => absurd rfl hpid⟩
    · rename_i hprocess
      cases hprocess
      cases h
      exact ⟨by simp [hthread], fun _ => ⟨hthread, by simp [hthread]⟩⟩

theorem composed_spawnUser (k : Kernel) (loaded : Option Loaded) :
    Composed k (k.spawnUser loaded).2 := by
  cases loaded with
  | none => exact .refl k
  | some l =>
    have hspawn := spawnUserProcess_pid k.tasks l.stack l.entry l.userStackTop l.cr3 .user l.argc
      l.argv rfl
    unfold spawnUser spawnKxe
    dsimp only
    split
    · exact .other rfl rfl hspawn.1
    · exact .other rfl rfl hspawn.1

theorem spawnUser_pid {loaded : Option Loaded} (h : (k.spawnUser loaded).1 ≠ 0) :
    (k.spawnUser loaded).1 = k.tasks.nextPid ∧
      (k.spawnUser loaded).2.tasks.nextPid = k.tasks.nextPid + 1 := by
  cases loaded with
  | none => exact absurd rfl h
  | some l =>
    have hspawn := spawnUserProcess_pid k.tasks l.stack l.entry l.userStackTop l.cr3 .user l.argc
      l.argv rfl
    unfold spawnUser spawnKxe at h ⊢
    dsimp only at h ⊢
    split at h
    · exact absurd rfl h
    · rename_i hpid
      rw [if_neg hpid]
      exact hspawn.2 h

theorem spawnUser_tables (k : Kernel) (loaded : Option Loaded) :
    (k.spawnUser loaded).2.tables = k.tables := by
  unfold spawnUser spawnKxe
  split
  · rfl
  · dsimp only
    split
    · rfl
    · rfl

/-- A new process has no descriptors. -/
theorem installing_spawnUser (h : k.Sane) (loaded : Option Loaded)
    (hpid : (k.spawnUser loaded).1 ≠ 0) (free : List Nat) :
    (k.spawnUser loaded).2.Installing (k.spawnUser loaded).1 free := by
  obtain ⟨hnext, hcount⟩ := spawnUser_pid hpid
  refine ⟨(k.composed_spawnUser loaded).sane h, ?_, ?_⟩
  · rw [hnext, hcount]
    exact Nat.lt_succ_self _
  · intro fd _
    rw [entryAt_eq, hnext, table_congr (k.spawnUser_tables loaded),
      h.unused k.tasks.nextPid (Nat.le_refl _)]
    rfl

theorem composed_onTasks (k : Kernel) {f : Tasks → Tasks} (hf : (f k.tasks).nextPid = k.tasks.nextPid) :
    Composed k (k.onTasks f) :=
  .other rfl rfl hf.ge

theorem onMain_nextPid (ts : Tasks) (pid : Nat) (f : Threads → Nat → Threads) :
    (ts.onMain pid f).nextPid = ts.nextPid := by
  unfold Tasks.onMain
  split
  · rfl
  · rfl

theorem setReady_nextPid (ts : Tasks) (pid : Nat) : (ts.setReady pid).nextPid = ts.nextPid :=
  onMain_nextPid _ _ _

theorem composed_sysExec (h : k.Sane) (cpu ptr len : Nat) (loaded : Option Loaded)
    (stdioPack : Nat) : Composed k (k.sysExec cpu ptr len loaded stdioPack).2 := by
  have hspawn := k.composed_spawnUser loaded
  have hnew := installing_spawnUser h loaded
  unfold sysExec
  split
  · exact .refl k
  · split
    · exact .refl k
    · dsimp only
      generalize k.spawnUser loaded = spawned at hspawn hnew
      obtain ⟨pid, k₁⟩ := spawned
      dsimp only at hspawn hnew ⊢
      split
      · exact hspawn
      · rename_i hpid
        obtain ⟨hcomposed, hinstalling⟩ := installing_installStdio (hnew hpid) (k.callerPid cpu)
          (stdioPack % 2 ^ 16) (stdioPack / 2 ^ 16 % 2 ^ 16)
        generalize k₁.installStdio pid (k.callerPid cpu) (stdioPack % 2 ^ 16)
          (stdioPack / 2 ^ 16 % 2 ^ 16) = k₂ at hcomposed hinstalling
        split
        · exact hspawn.trans hcomposed
        · have hparent : Composed k₂ (k₂.onTasks (·.setParent pid (k.callerPid cpu))) :=
            k₂.composed_onTasks rfl
          have hctty := composed_inheritCtty (k := k₂.onTasks (·.setParent pid (k.callerPid cpu)))
            ⟨hparent.sane hinstalling.sane, hinstalling.known, hinstalling.free⟩
            (k.callerPid cpu) stdioPack
          apply (hspawn.trans hcomposed).trans
          apply (hparent.trans hctty).trans
          exact composed_onTasks (f := (·.setReady pid)) _ (setReady_nextPid _ pid)

/-! Reading and writing. -/

theorem composed_readPipeEnd (k : Kernel) (cpu id bufPtr bufLen : Nat) :
    Composed k (k.readPipeEnd cpu id bufPtr bufLen).2 :=
  .single (e := .readEnd cpu id bufPtr bufLen) trivial

theorem composed_getRaw (k : Kernel) : Composed k k.getRaw.2 := by
  unfold getRaw
  dsimp only
  split
  · exact .refl k
  · exact .other rfl rfl (Nat.le_refl _)

theorem composed_blockMain (k : Kernel) (cpu : Nat) (target : WaitTarget) :
    Composed k (k.blockMain cpu target) := by
  have hpid := (keeps_blockMain k cpu target).nextPid
  unfold blockMain at hpid ⊢
  split
  · rename_i pid hcaller
    rw [hcaller] at hpid
    exact .other rfl rfl hpid.ge
  · exact .refl k

theorem composed_readConsole (k : Kernel) (cpu : Nat) : Composed k (k.readConsole cpu).2 := by
  have hkey : Composed k (if k.kbdLockedOut cpu = true then (none, k) else k.getRaw).2 := by
    split
    · exact .refl k
    · exact k.composed_getRaw
  unfold readConsole
  split
  · rename_i ch k' heq
    rwa [heq] at hkey
  · rename_i k' heq
    rw [heq] at hkey
    exact hkey.trans (composed_blockMain k' cpu .keyboard)

/-- A file's offset is written back to the descriptor it was read through. -/
theorem composed_setFd {pid fd node generation offset : Nat}
    (hfd : k.getFd pid fd = some (.file node generation offset)) (offset' : Nat) :
    Composed k (k.setFd pid fd (.file node generation offset')).2 := by
  apply Composed.single (e := .setFd pid fd (.file node generation offset'))
  refine ⟨rfl, ?_⟩
  rw [entryAt, hfd]
  rfl

theorem composed_readFile {pid fd node generation offset : Nat}
    (hfd : k.getFd pid fd = some (.file node generation offset)) (count : Nat) :
    Composed k (k.readFile pid fd node generation offset count).2 := by
  have hset := composed_setFd hfd (offset + count)
  obtain ⟨entries, htable, hentry⟩ := Option.bind_eq_some_iff.mp hfd
  obtain ⟨hlt, -⟩ := List.getElem?_eq_some_iff.mp hentry
  unfold setFd at hset
  unfold readFile
  rw [htable] at hset ⊢
  split
  · exact .refl k
  · simpa [hlt] using hset

theorem composed_sysRead (k : Kernel) (cpu fd bufPtr bufLen available : Nat) :
    Composed k (k.sysRead cpu fd bufPtr bufLen available).2 := by
  unfold sysRead
  split
  · exact .refl k
  · split
    · exact .refl k
    · split
      · exact k.composed_readConsole cpu
      · exact k.composed_readPipeEnd cpu _ bufPtr bufLen
      · rename_i hfd
        exact composed_readFile hfd _
      · exact .refl k
      · exact .refl k

theorem sendAudio_eq (k : Kernel) (command : UInt8) (data : List UInt8) :
    ∃ tasks channels, (k.sendAudio command data).2 = { k with tasks, channels } := by
  unfold sendAudio trySendReliable
  split
  · split
    · exact ⟨_, _, rfl⟩
    · split
      · exact ⟨_, _, rfl⟩
      · split
        · exact ⟨_, _, rfl⟩
        · unfold enqueue
          split
          · exact ⟨_, _, rfl⟩
          · exact ⟨_, _, rfl⟩
  · exact ⟨_, _, rfl⟩

theorem composed_sendAudio (k : Kernel) (command : UInt8) (data : List UInt8) :
    Composed k (k.sendAudio command data).2 := by
  have hpid := (keeps_sendAudio k command data).nextPid
  obtain ⟨tasks, channels, heq⟩ := k.sendAudio_eq command data
  rw [heq] at hpid ⊢
  exact .other rfl rfl hpid.ge

theorem composed_audioWrite (k : Kernel) (buf : List UInt8) : Composed k (k.audioWrite buf).2 := by
  have hsend := k.composed_sendAudio 2 buf
  unfold audioWrite
  split
  · exact .refl k
  · split
    · rename_i k' heq
      rwa [heq] at hsend
    · rename_i k' _ heq
      rwa [heq] at hsend

theorem composed_writeDevice (fuel : Nat) (k : Kernel) (data : List UInt8) :
    Composed k (writeDevice fuel k data).2 := by
  induction fuel generalizing k data with
  | zero => exact .refl k
  | succ fuel ih =>
    have hchunk := k.composed_audioWrite (data.take deviceChunk)
    unfold writeDevice
    split
    · exact .refl k
    · dsimp only
      split
      · rename_i k' heq
        rwa [heq] at hchunk
      · rename_i written k' _ heq
        rw [heq] at hchunk
        split
        · exact hchunk
        · exact hchunk.trans (ih k' _)

theorem composed_writePipeEnd (k : Kernel) (id : Nat) (data : List UInt8) :
    Composed k (FileKernel.writePipeEnd k id data).2 := by
  have hwrite : Composed k (k.writePipe id data).2 := .single (e := .write id data) trivial
  exact hwrite.trans (.single (e := .notify id) trivial)

/-! The end of a process. -/

theorem clearCurrentUser_nextPid (ts : Tasks) (cpu pid : Nat) :
    (ts.clearCurrentUser cpu pid).nextPid = ts.nextPid := by
  unfold Tasks.clearCurrentUser
  split
  · rfl
  · rfl

theorem exitCurrentThread_nextPid (ts : Tasks) (cpu : Nat) :
    (ts.exitCurrentThread cpu).nextPid = ts.nextPid := by
  unfold Tasks.exitCurrentThread
  dsimp only
  split
  · exact clearCurrentUser_nextPid _ _ _
  · exact clearCurrentUser_nextPid _ _ _

theorem removeProcess_nextPid (ts : Tasks) (pid : Nat) :
    (ts.removeProcess pid).nextPid = ts.nextPid := by
  unfold Tasks.removeProcess
  split
  · rfl
  · rfl

theorem teardown_nextPid (k : Kernel) (cpu : Nat) :
    (k.teardown cpu).tasks.nextPid = k.tasks.nextPid := by
  have hwithout : (k.withoutProcess cpu).nextPid = k.tasks.nextPid := by
    unfold withoutProcess
    dsimp only
    split
    · rfl
    · rename_i hpid
      rw [← (keeps_released k cpu hpid).nextPid]
      generalize (k.released cpu).tasks = ts
      exact removeProcess_nextPid ts _
  rw [teardown_tasks, ← hwithout]
  generalize k.withoutProcess cpu = ts
  have hcleared : (ts.clearCurrentPid cpu).nextPid = ts.nextPid := rfl
  dsimp only
  split
  · exact hcleared
  · exact hcleared

/-- Giving back memory leaves descriptors alone. -/
theorem freeMemory_tables (k : Kernel) (cpu pid : Nat) :
    (k.freeMemory cpu pid).pipes = k.pipes ∧ (k.freeMemory cpu pid).tables = k.tables := by
  obtain ⟨tasks, vm, pmm, shmObjects, freedBuffers, activeCr3, heq⟩ := k.freeMemory_eq cpu pid
  rw [heq]
  exact ⟨rfl, rfl⟩

theorem releaseFramebuffer_tables (k : Kernel) (cpu pid : Nat) :
    let held := (k.releaseFramebuffer pid).onTasks (·.clearCurrentUser cpu pid)
    held.pipes = k.pipes ∧ held.tables = k.tables ∧ held.tasks.nextPid = k.tasks.nextPid := by
  obtain ⟨fbOwner, keyboard, heq⟩ := k.releaseFramebuffer_eq pid
  rw [heq]
  exact ⟨rfl, rfl, clearCurrentUser_nextPid _ _ _⟩

theorem composed_releaseIrqForPid (k : Kernel) (pid : Nat) :
    Composed k (k.releaseIrqForPid pid) := by
  have hpid := (keeps_releaseIrqForPid k pid).nextPid
  obtain ⟨tasks, channels, audioOnline, driverIrq, heq⟩ := k.releaseIrqForPid_eq pid
  rw [heq] at hpid ⊢
  exact .other rfl rfl hpid.ge

/-- The descriptors of the process are closed in one section. What comes before and after
does not touch them. -/
theorem composed_detach (k : Kernel) (cpu pid : Nat) : Composed k (k.detach cpu pid) := by
  obtain ⟨hpipes, htables, hpid⟩ := k.releaseFramebuffer_tables cpu pid
  have hheld := Composed.other hpipes htables hpid.ge
  unfold detach
  generalize (k.releaseFramebuffer pid).onTasks (·.clearCurrentUser cpu pid) = held at hheld
  have hclosed : Composed held (held.closeAll pid) := .single (e := .closeAll pid) trivial
  exact (hheld.trans hclosed).trans (composed_releaseIrqForPid _ pid)

theorem composed_teardown (k : Kernel) (cpu : Nat) : Composed k (k.teardown cpu) := by
  have hnext := k.teardown_nextPid cpu
  by_cases hpid : k.tasks.currentPid cpu = 0
  · refine .other ?_ ?_ hnext.ge
    · simp only [teardown, hpid, if_true]
      split
      · rfl
      · rfl
    · simp only [teardown, hpid, if_true]
      split
      · rfl
      · rfl
  · have hkilled := Tasks.keeps_killChildren k.tasks (k.tasks.currentPid cpu)
    have hchildren : Composed k (k.onTasks (·.killChildren (k.tasks.currentPid cpu))) :=
      k.composed_onTasks hkilled.nextPid
    have hdisowned : Composed k (k.disowned cpu) := hchildren.trans (composed_detach _ _ _)
    have hdetached : (k.disowned cpu).tasks.nextPid = k.tasks.nextPid :=
      (keeps_detach _ _ _).nextPid.trans hkilled.nextPid
    obtain ⟨tasks, hteardown⟩ := teardown_eq k hpid
    obtain ⟨hpipes, htables⟩ := (k.disowned cpu).freeMemory_tables cpu (k.tasks.currentPid cpu)
    rw [hteardown] at hnext ⊢
    generalize (k.disowned cpu).freeMemory cpu (k.tasks.currentPid cpu) = freed at *
    exact hdisowned.trans (.other hpipes htables (hdetached.trans hnext.symm).le)

theorem composed_exitCurrent (k : Kernel) (cpu : Nat) : Composed k (k.exitCurrent cpu) := by
  unfold exitCurrent exitSelf
  dsimp only
  split
  · rename_i k' heq
    split at heq
    · cases heq
      exact k.composed_onTasks (exitCurrentThread_nextPid _ _)
    · cases heq
  · rename_i k' heq
    split at heq
    · cases heq
    · cases heq
      exact k.composed_teardown cpu

end KazuOS.Kernel
