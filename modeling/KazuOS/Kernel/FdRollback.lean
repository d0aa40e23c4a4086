import KazuOS.Fs.Handles
import KazuOS.Kernel.FileOffsets

/-! Calls that end with a new descriptor. The pipe or the file is made first, so a full table of
descriptors is found out too late. -/
namespace KazuOS

open KazuOS.Lib

namespace Kernel

variable {k : Kernel} {pid fd : Nat}

/-- No descriptor can be added to the table of a process. -/
def Full (k : Kernel) (pid : Nat) : Prop :=
  maxFd ≤ (entriesOf (k.table pid)).length ∧ .empty ∉ entriesOf (k.table pid)

instance : Decidable (k.Full pid) := inferInstanceAs (Decidable (_ ∧ _))

theorem full_congr {k' : Kernel} (h : entriesOf (k'.table pid) = entriesOf (k.table pid)) :
    k'.Full pid ↔ k.Full pid := by
  unfold Full
  rw [h]

/-- A descriptor is refused by a full table and by no other. -/
theorem allocFd_split (k : Kernel) (pid : Nat) (entry : FdEntry) :
    (k.Full pid ∧ (k.allocFd pid entry).1 = none ∧
      entriesOf ((k.allocFd pid entry).2.table pid) = entriesOf (k.table pid) ∧
      ∀ j, (k.allocFd pid entry).2.pipe j = k.pipe j) ∨
    (¬k.Full pid ∧ ∃ fd, (k.allocFd pid entry).1 = some fd ∧
      (fd < (entriesOf (k.table pid)).length ∨ fd < maxFd) ∧
      ∀ j, (k.allocFd pid entry).2.pipe j = (k.pipeClone entry).pipe j) := by
  have htable : (k.ensureTable pid).table pid = some (entriesOf (k.table pid)) := by
    rw [table_ensureTable, if_pos rfl]
  have hensured : ∀ j, (k.ensureTable pid).pipe j = k.pipe j := by
    obtain ⟨tables, heq⟩ := k.ensureTable_eq pid
    intro j
    rw [heq]
    rfl
  have hcloned := k.pipe_installed pid entry
  unfold allocFd Full
  dsimp only
  rw [htable]
  dsimp only
  split
  · rename_i i hfind
    obtain ⟨hlt, hempty, -⟩ := List.findIdx?_eq_some_iff_getElem.mp hfind
    refine .inr ⟨fun hfull => hfull.2 ?_, i, rfl, .inl hlt, hcloned _⟩
    rw [← of_decide_eq_true hempty]
    exact List.getElem_mem hlt
  · rename_i hfind
    split
    · rename_i hroom
      refine .inr ⟨fun hfull => ?_, _, rfl, .inr hroom, hcloned _⟩
      exact absurd hfull.1 (Nat.not_le.mpr hroom)
    · rename_i hroom
      refine .inl ⟨⟨Nat.le_of_not_lt hroom, fun hmem => ?_⟩, rfl, ?_, hensured⟩
      · have hnot := List.findIdx?_eq_none_iff.mp hfind _ hmem
        simp at hnot
      · rw [htable]
        rfl

/-! Pipes. -/

/-- If SYS_PIPE fails, pipes and the descriptors of the caller are as they were. A place past the
end of a table counts as empty. -/
structure PipeUndone (k : Kernel) (cpu outPtr : Nat) : Prop where
  pipes : (k.sysPipe cpu outPtr).1 = failure →
    ∀ id, (k.sysPipe cpu outPtr).2.pipe id = k.pipe id
  descriptors : (k.sysPipe cpu outPtr).1 = failure → ∀ fd,
    (k.sysPipe cpu outPtr).2.entryAt (k.callerPid cpu) fd = k.entryAt (k.callerPid cpu) fd

variable {entry : FdEntry} {k' : Kernel}

theorem Takes.entryAt (h : Takes k k' pid fd entry) (fd' : Nat) :
    k'.entryAt pid fd' = if fd' = fd then entry else k.entryAt pid fd' := by
  unfold Kernel.entryAt
  split
  · rename_i hfd
    rw [hfd, h.taken]
    rfl
  · rename_i hfd
    rw [h.others pid fd' fun heq => hfd heq.2]

theorem Takes.entryAt_before (h : Takes k k' pid fd entry) : k.entryAt pid fd = .empty := by
  unfold Kernel.entryAt
  cases hold : k.getFd pid fd with
  | none => rfl
  | some old => exact h.empty old hold

theorem entryAt_freeFd (k : Kernel) (pid fd fd' : Nat) :
    (k.freeFd pid fd).2.entryAt pid fd' = if fd' = fd then .empty else k.entryAt pid fd' := by
  unfold entryAt
  split
  · rename_i hfd
    subst hfd
    cases hafter : (k.freeFd pid fd').2.getFd pid fd' with
    | none => rfl
    | some entry => exact getFd_freeFd_self hafter
  · rename_i hfd
    rw [getFd_freeFd_ne fun heq => hfd heq.2]

theorem pipe_freeFd (h : k.getFd pid fd = some entry) (j : Nat) :
    (k.freeFd pid fd).2.pipe j = (k.closeEntry entry).pipe j := by
  obtain ⟨entries, htable, hentry⟩ := Option.bind_eq_some_iff.mp h
  unfold freeFd
  simp only [htable, hentry]
  rfl

/-- All pipes but one are those of `k`. -/
def Beside (k : Kernel) (id : Nat) (pipe : Option PipeState) (k' : Kernel) : Prop :=
  ∀ j, k'.pipe j = if j = id then pipe else k.pipe j

section Beside

variable {id : Nat} {p : Option PipeState} {k₁ k₂ : Kernel}

theorem Beside.congr (h : Beside k id p k₁) (hsame : ∀ j, k₂.pipe j = k₁.pipe j) :
    Beside k id p k₂ :=
  fun j => (hsame j).trans (h j)

theorem Beside.updatePipe (h : Beside k id p k₁) (f : PipeState → Option PipeState) :
    Beside k id (p.bind f) (k₁.updatePipe id f) := by
  intro j
  rw [pipe_updatePipe, h id, if_pos rfl, h j]
  split
  · rfl
  · rfl

/-- A pipe that goes leaves nothing to wake readers with. -/
theorem Beside.notify (h : Beside k id none k₁) : Beside k id none (k₁.notifyPipeReaders id) := by
  intro j
  rw [pipe_notifyPipeReaders, h id, if_pos rfl, h j]
  split
  · rfl
  · rfl

theorem Beside.back (h : Beside k id none k₁) (hfree : k.pipe id = none) (j : Nat) :
    k₁.pipe j = k.pipe j := by
  rw [h j]
  split
  · rename_i hj
    rw [hj, hfree]
  · rfl

end Beside

theorem sysPipe_eq (k : Kernel) (cpu outPtr : Nat) :
    k.sysPipe cpu outPtr =
      let caller := k.callerPid cpu
      let first := k.createPipe.2.allocFd caller (.pipeRead k.createPipe.1)
      let second := first.2.allocFd caller (.pipeWrite k.createPipe.1)
      if first.1.isSome ∧ second.1.isSome ∧
          (outPtr = 0 ∨ second.2.validateRange cpu outPtr 16 true) then (0, second.2)
      else (failure, (second.2.freeFd? caller first.1).freeFd? caller second.1) := rfl

section Undo

variable {id r w : Nat} {k₁ k₂ k₃ : Kernel}

/-- The pipe goes with its only descriptor. -/
theorem undo_read (hread : Takes k₁ k₂ pid r (.pipeRead id))
    (hgets : ∀ fd, k₃.getFd pid fd = k₂.getFd pid fd) (hpipe : Beside k id (some ⟨[], 0, 1⟩) k₃) :
    Beside k id none (k₃.freeFd pid r).2 ∧
      ∀ fd, (k₃.freeFd pid r).2.entryAt pid fd = k₁.entryAt pid fd := by
  constructor
  · have hclosed := hpipe.updatePipe fun p => dropUnreferenced { p with readRefs := p.readRefs - 1 }
    exact hclosed.congr (pipe_freeFd ((hgets r).trans hread.taken))
  · intro fd
    have hkept : k₃.entryAt pid fd = k₂.entryAt pid fd := congrArg (·.getD .empty) (hgets fd)
    rw [entryAt_freeFd, hkept, hread.entryAt]
    split
    · rename_i hfd
      rw [hfd, hread.entryAt_before]
    · rfl

/-- The pipe goes with the second of its descriptors. -/
theorem undo_both (hread : Takes k₁ k₂ pid r (.pipeRead id))
    (hwrite : Takes k₂ k₃ pid w (.pipeWrite id)) (hpipe : Beside k id (some ⟨[], 1, 1⟩) k₃) :
    Beside k id none ((k₃.freeFd pid r).2.freeFd pid w).2 ∧
      ∀ fd, ((k₃.freeFd pid r).2.freeFd pid w).2.entryAt pid fd = k₁.entryAt pid fd := by
  have hne : r ≠ w := by
    rintro rfl
    cases (hwrite.empty _ hread.taken)
  have hreads : k₃.getFd pid r = some (.pipeRead id) :=
    (hwrite.others pid r fun heq => hne heq.2).trans hread.taken
  have hwrites : (k₃.freeFd pid r).2.getFd pid w = some (.pipeWrite id) :=
    (getFd_freeFd_ne fun heq => hne heq.2.symm).trans hwrite.taken
  constructor
  · have hhalf := (hpipe.updatePipe
      fun p => dropUnreferenced { p with readRefs := p.readRefs - 1 }).congr (pipe_freeFd hreads)
    have hclosed := hhalf.updatePipe fun p => dropUnreferenced { p with writeRefs := p.writeRefs - 1 }
    exact (Beside.notify hclosed).congr (pipe_freeFd hwrites)
  · intro fd
    rw [entryAt_freeFd, entryAt_freeFd, hwrite.entryAt, hread.entryAt]
    split
    · rename_i hfd
      have hbefore := hwrite.entryAt_before
      rw [hread.entryAt, if_neg hne.symm] at hbefore
      rw [hfd, hbefore]
    · split
      · rename_i hfd
        rw [hfd, hread.entryAt_before]
      · rfl

end Undo

/-- Once the first descriptor is there, all that follows can be undone. -/
theorem pipe_undone_of_first (k : Kernel) (cpu : Nat) {r : Nat}
    (hfirst : (k.createPipe.2.allocFd (k.callerPid cpu) (.pipeRead k.createPipe.1)).1 = some r)
    (hpipe : ∀ j, (k.createPipe.2.allocFd (k.callerPid cpu) (.pipeRead k.createPipe.1)).2.pipe j =
      (k.createPipe.2.pipeClone (.pipeRead k.createPipe.1)).pipe j) (outPtr : Nat) :
    k.PipeUndone cpu outPtr := by
  have hcreated : Beside k k.createPipe.1 (some ⟨[], 0, 0⟩) k.createPipe.2 := k.pipe_createPipe
  have hopened := (hcreated.updatePipe fun p => some { p with readRefs := p.readRefs + 1 }).congr hpipe
  obtain ⟨r', hr', hread⟩ | ⟨hnone, -⟩ :=
    allocFd_takes k.createPipe.2 (k.callerPid cpu) (.pipeRead k.createPipe.1)
  swap
  · rw [hnone] at hfirst
    cases hfirst
  obtain rfl : r' = r := Option.some.inj (hr'.symm.trans hfirst)
  have hsame : ∀ fd, k.createPipe.2.entryAt (k.callerPid cpu) fd = k.entryAt (k.callerPid cpu) fd :=
    fun fd => congrArg (·.getD .empty) (getFd_congr (table_congr k.createPipe_tables _) fd)
  suffices h : (k.sysPipe cpu outPtr).1 = failure →
      Beside k k.createPipe.1 none (k.sysPipe cpu outPtr).2 ∧ ∀ fd,
        (k.sysPipe cpu outPtr).2.entryAt (k.callerPid cpu) fd =
          k.createPipe.2.entryAt (k.callerPid cpu) fd from
    ⟨fun hfailed id => (h hfailed).1.back k.createPipe_free id,
      fun hfailed fd => ((h hfailed).2 fd).trans (hsame fd)⟩
  rw [sysPipe_eq]
  dsimp only
  generalize k.createPipe.2.allocFd (k.callerPid cpu) (.pipeRead k.createPipe.1) = first at *
  obtain ⟨answer, k₂⟩ := first
  obtain rfl : answer = some r' := hfirst
  dsimp only at hopened hread ⊢
  -- what there is to undo depends on the second descriptor
  have hsecond := allocFd_split k₂ (k.callerPid cpu) (.pipeWrite k.createPipe.1)
  have htakes := allocFd_takes k₂ (k.callerPid cpu) (.pipeWrite k.createPipe.1)
  generalize k₂.allocFd (k.callerPid cpu) (.pipeWrite k.createPipe.1) = second at *
  obtain ⟨answer, k₃⟩ := second
  dsimp only at hsecond htakes ⊢
  obtain ⟨-, rfl, -, hpipes⟩ | ⟨-, w, rfl, -, hpipes⟩ := hsecond
  · obtain ⟨w, hw, -⟩ | ⟨-, hgets⟩ := htakes
    · cases hw
    · exact fun _ => undo_read hread (hgets _) (hopened.congr hpipes)
  · obtain ⟨w', hw, hwrite⟩ | ⟨hw, -⟩ := htakes
    swap
    · cases hw
    obtain rfl := Option.some.inj hw
    have hboth :=
      (hopened.updatePipe fun p => some { p with writeRefs := p.writeRefs + 1 }).congr hpipes
    split
    · exact fun hzero => absurd (show 0 = failure from hzero) (by decide)
    · exact fun _ => undo_both hread hwrite hboth

/-- SYS_PIPE leaks a pipe just if the first descriptor is refused: nothing is closed then, and a pipe
without descriptors is freed by closing one. -/
theorem pipe_undone_iff (k : Kernel) (cpu outPtr : Nat) :
    k.PipeUndone cpu outPtr ↔ ¬k.Full (k.callerPid cpu) := by
  have hfull : k.createPipe.2.Full (k.callerPid cpu) ↔ k.Full (k.callerPid cpu) :=
    full_congr (congrArg entriesOf (table_congr k.createPipe_tables _))
  obtain ⟨hno, hfirst, hkept, hpipe⟩ | ⟨hroom, r, hfirst, -, hpipe⟩ :=
    allocFd_split k.createPipe.2 (k.callerPid cpu) (.pipeRead k.createPipe.1)
  · refine iff_of_false (fun h => ?_) fun h => h (hfull.mp hno)
    obtain ⟨-, hsecond, -, hpipe'⟩ | ⟨hroom, -⟩ := allocFd_split
      (k.createPipe.2.allocFd (k.callerPid cpu) (.pipeRead k.createPipe.1)).2 (k.callerPid cpu)
      (.pipeWrite k.createPipe.1)
    swap
    · exact hroom ((full_congr hkept).mpr hno)
    have hleft := h.pipes
    rw [sysPipe_eq] at hleft
    dsimp only at hleft
    rw [hfirst, hsecond, if_neg fun hboth => nomatch hboth.1] at hleft
    have hgone := ((hpipe' _).trans (hpipe _)).symm.trans (hleft rfl k.createPipe.1)
    rw [k.createPipe_free, k.pipe_createPipe, if_pos rfl] at hgone
    cases hgone
  · exact iff_of_true (pipe_undone_of_first k cpu hfirst hpipe outPtr) (mt hfull.mpr hroom)

/-- With 1024 descriptors open. -/
theorem full_table_leaks_pipe :
    let k : Kernel := { twoThreads with tables := [none, some (List.replicate maxFd .consoleIn)] }
    (k.sysPipe 0 0).1 = failure ∧ k.pipe 0 = none ∧ (k.sysPipe 0 0).2.pipe 0 = some ⟨[], 0, 0⟩ := by
  decide +kernel

end Kernel

/-! Files. -/

/-- Emptying a file that has no data changes nothing. -/
theorem Fs.Table.contents_truncate_iff {nodes : Table}
    (hdistinct : (nodes.nodes.map Node.path).Nodup) (h : Handle) :
    (nodes.truncate h).contents = nodes.contents ↔
      ¬∃ n, live nodes h = some n ∧ n.isDir = false ∧ n.data ≠ [] := by
  unfold truncate
  split
  · rename_i hnone
    simp [hnone]
  rename_i n hlive
  simp only [hlive, Option.some.injEq, exists_eq_left', not_and, not_not]
  split
  · rename_i hdir
    simp [hdir]
  rename_i hdir
  rw [Bool.not_eq_true] at hdir
  have slot := Arena.live_eq_some.mp hlive
  rw [setData, (contents_write hdistinct slot []).2, Function.update_eq_self_iff,
    contents_of_slot hdistinct slot, Node.content]
  simp [hdir, eq_comm]

namespace FileKernel

open Kernel

/-- If SYS_CREATE fails, the same paths exist with the same contents. -/
def FilesKept (s : FileKernel) (cpu ptr : Nat) (bytes : List UInt8) : Prop :=
  (s.sysCreate cpu ptr bytes).1 = failure →
    (s.sysCreate cpu ptr bytes).2.nodes.contents = s.nodes.contents

/-- There is no descriptor left for a file that can be made, or that has data. -/
def LosesFile (s : FileKernel) (cpu ptr : Nat) (bytes : List UInt8) : Prop :=
  s.Full (s.callerPid cpu) ∧ ∃ path, readUserPath s.toKernel cpu ptr bytes = some path ∧
    ((∃ h nodes, s.nodes.create path = (.ok h, nodes)) ∨
      (s.nodes.create path).1 = .error .alreadyExists ∧ ∃ h len n,
        s.nodes.lookup s.devices path = .ok (.file h len) ∧ s.nodes.live h = some n ∧
        n.isDir = false ∧ n.data ≠ [])

variable {s : FileKernel} {cpu : Nat}

theorem install_split (hsize : (entriesOf (s.table (s.callerPid cpu))).length < 2 ^ 64)
    (entry : FdEntry) :
    (s.install cpu entry).2.nodes = s.nodes ∧
      ((s.install cpu entry).1 = failure ↔ s.Full (s.callerPid cpu)) := by
  have hsplit := allocFd_split s.toKernel (s.callerPid cpu) entry
  unfold install
  generalize s.allocFd (s.callerPid cpu) entry = result at hsplit ⊢
  obtain ⟨answer, k⟩ := result
  obtain ⟨hfull, rfl, -⟩ | ⟨hroom, fd, rfl, hlt, -⟩ := hsplit
  · exact ⟨rfl, iff_of_true rfl hfull⟩
  · refine ⟨rfl, iff_of_false ?_ hroom⟩
    intro (heq : fd = Kernel.failure)
    unfold maxFd at hlt
    unfold Kernel.failure at heq
    omega

/-- A file system that has a file of a new name shows it. -/
theorem contents_create_ne (hdistinct : (s.nodes.nodes.map Fs.Node.path).Nodup) {path : Fs.Path}
    {h : Fs.Handle} {nodes : Fs.Table} (hok : s.nodes.create path = (.ok h, nodes)) :
    nodes.contents ≠ s.nodes.contents := by
  obtain ⟨e, herror⟩ | ⟨-, -, hfresh, -, hmade⟩ := Fs.Table.make_cases s.nodes path false
  · cases herror.symm.trans hok
  · obtain rfl : (s.nodes.insert ⟨path, false, []⟩).2 = nodes :=
      congrArg Prod.snd (hmade.symm.trans hok)
    rw [(Fs.Table.contents_insert hdistinct hfresh).2]
    intro hsame
    have hold : s.nodes.contents path = none := Fs.contentsOf_eq_none.mpr hfresh
    have hnew := congrFun hsame path
    rw [hold, Function.update_self] at hnew
    cases hnew

/-- A failed SYS_CREATE changes files just if only the descriptor was missing. -/
theorem files_kept_iff (hdistinct : (s.nodes.nodes.map Fs.Node.path).Nodup)
    (hsize : (entriesOf (s.table (s.callerPid cpu))).length < 2 ^ 64) (ptr : Nat)
    (bytes : List UInt8) : s.FilesKept cpu ptr bytes ↔ ¬s.LosesFile cpu ptr bytes := by
  unfold FilesKept LosesFile sysCreate
  cases hpath : readUserPath s.toKernel cpu ptr bytes with
  | none => exact iff_of_true (fun _ => rfl) fun h => nomatch h.2
  | some path =>
    simp only [Option.some.injEq, exists_eq_left']
    cases hcreate : s.nodes.create path with
    | mk answer nodes =>
      cases answer with
      | ok h =>
        have hne := contents_create_ne hdistinct hcreate
        obtain ⟨hnodes, hfailed⟩ := install_split (s := { s with nodes }) hsize (fileEntry h 0)
        dsimp only
        rw [hnodes, hfailed]
        constructor
        · rintro hkept ⟨hfull, -⟩
          exact hne (hkept hfull)
        · intro hnot hfull
          exact absurd ⟨hfull, .inl ⟨h, nodes, rfl⟩⟩ hnot
      | error e =>
        obtain rfl : s.nodes = nodes := by
          obtain ⟨e', herror⟩ | ⟨-, -, -, -, hmade⟩ := Fs.Table.make_cases s.nodes path false
          · exact congrArg Prod.snd (herror.symm.trans hcreate)
          · cases hmade.symm.trans hcreate
        by_cases he : e = .alreadyExists
        · subst he
          dsimp only
          split
          · rename_i h len hlookup
            have hsame := Fs.Table.contents_truncate_iff hdistinct h
            obtain ⟨hnodes, hfailed⟩ :=
              install_split (s := { s with nodes := s.nodes.truncate h }) hsize (fileEntry h 0)
            rw [hnodes, hfailed, hsame, hlookup]
            constructor
            · rintro hkept ⟨hfull, ⟨h', nodes, hok⟩ | ⟨-, h', len', n, hfile, hdata⟩⟩
              · cases hok
              · cases hfile
                exact hkept hfull ⟨n, hdata⟩
            · rintro hnot hfull ⟨n, hdata⟩
              exact hnot ⟨hfull, .inr ⟨rfl, h, len, n, rfl, hdata⟩⟩
          · rename_i hother
            refine iff_of_true (fun _ => rfl) ?_
            rintro ⟨-, ⟨h', nodes, hok⟩ | ⟨-, h', len', n, hfile, -⟩⟩
            · cases hok
            · exact hother h' len' hfile
        · refine iff_of_true (fun _ => ?_) ?_
          · cases e <;> first | rfl | exact absurd rfl he
          · rintro ⟨-, ⟨h', nodes, hok⟩ | ⟨hexists, -⟩⟩
            · cases hok
            · cases hexists
              exact he rfl

/-- A file in a directory that does not exist. -/
theorem files_kept_iff_noParent :
    (OffsetSystem.oneFile.sysCreate 0 0x8000000000 [47, 98, 47, 99]).1 = Kernel.failure ∧
      OffsetSystem.oneFile.FilesKept 0 0x8000000000 [47, 98, 47, 99] := by
  refine ⟨by decide, (files_kept_iff (by decide) (by decide) _ _).mpr ?_⟩
  rintro ⟨hfull, -⟩
  exact absurd hfull (by decide)

/-- With all descriptors taken, the file has lost its data. -/
theorem refused_create_empties_file :
    let s : FileKernel := { OffsetSystem.oneFile with
      tables := [none, some (List.replicate maxFd .consoleIn)] }
    (s.sysCreate 0 0x8000000000 [47, 97]).1 = Kernel.failure ∧
      s.nodes.contents [47, 97] = some ⟨false, [1, 2, 3, 4]⟩ ∧
      (s.sysCreate 0 0x8000000000 [47, 97]).2.nodes.contents [47, 97] = some ⟨false, []⟩ := by
  decide +kernel

end FileKernel

end KazuOS
