import KazuOS.Kernel.PipeSections

/-! A pipe counts the descriptors of either kind that name it. The counts are kept in
`pipe_clone` and `close_entry`, and a descriptor that is overwritten is not closed. -/
namespace KazuOS

/-- What a descriptor can hold of a pipe. -/
inductive PipeEnd where
  | write (id : Nat)
  | read (id : Nat)
  deriving DecidableEq, Repr

def PipeEnd.id : PipeEnd → Nat
  | .write id => id
  | .read id => id

def FdEntry.pipeEnd : FdEntry → Option PipeEnd
  | .pipeWrite id => some (.write id)
  | .pipeRead id => some (.read id)
  | _ => none

namespace Kernel

open KazuOS.Task KazuOS.Lib

/-- The count of one end of a pipe. -/
def endRefs (pipe : Option PipeState) : PipeEnd → Nat
  | .write _ => pipe.elim 0 PipeState.writeRefs
  | .read _ => pipe.elim 0 PipeState.readRefs

/-- The counts of all pipes; one that does not exist has none. -/
def refs (k : Kernel) (e : PipeEnd) : Nat := endRefs (k.pipe e.id) e

def entriesOf (table : Option (List FdEntry)) : List FdEntry := table.getD []

/-- The entries of all descriptor tables. -/
def descriptors (k : Kernel) : List FdEntry := k.tables.flatMap entriesOf

def ends (entries : List FdEntry) : List PipeEnd := entries.filterMap FdEntry.pipeEnd

def RefsMatch (k : Kernel) : Prop := Counted k.refs (ends k.descriptors)

/-- A descriptor of a pipe names one that exists. -/
def Alive (k : Kernel) (entry : FdEntry) : Prop :=
  ∀ e, entry.pipeEnd = some e → (k.pipe e.id).isSome = true

variable {k : Kernel}

/-! Counts. -/

variable {entry : FdEntry} {pid j : Nat} {held : List PipeEnd} {k' : Kernel}
  {entries : List FdEntry} {id : Nat}

/-- Bytes do not count. -/
theorem refs_congr {f : PipeState → PipeState}
    (h : ∀ j, k'.pipe j = if j = id then (k.pipe id).map f else k.pipe j)
    (hwrite : ∀ p, (f p).writeRefs = p.writeRefs) (hread : ∀ p, (f p).readRefs = p.readRefs) :
    k'.refs = k.refs := by
  funext e
  unfold refs
  rw [h e.id]
  split
  · rename_i he
    rw [he]
    cases k.pipe id with
    | none => rfl
    | some p =>
      cases e with
      | write j => exact hwrite p
      | read j => exact hread p
  · rfl

theorem refs_notifyPipeReaders (k : Kernel) (id : Nat) : (k.notifyPipeReaders id).refs = k.refs :=
  refs_congr (k.pipe_notifyPipeReaders id) (fun _ => rfl) fun _ => rfl

theorem refs_readPipe (k : Kernel) (id maxLen : Nat) : (k.readPipe id maxLen).2.refs = k.refs :=
  refs_congr (k.pipe_readPipe id maxLen) (fun _ => rfl) fun _ => rfl

theorem refs_writePipe (k : Kernel) (id : Nat) (data : List UInt8) :
    (k.writePipe id data).2.refs = k.refs :=
  refs_congr (k.pipe_writePipe id data) (fun _ => rfl) fun _ => rfl

/-- A new pipe has no references yet, and its place had none. -/
theorem refs_createPipe (k : Kernel) : k.createPipe.2.refs = k.refs := by
  funext e
  unfold refs
  rw [pipe_createPipe]
  split
  · rename_i he
    rw [he, createPipe_free]
    cases e with
    | write j => rfl
    | read j => rfl
  · rfl

theorem endRefs_none (e : PipeEnd) : endRefs none e = 0 := by
  cases e with
  | write j => rfl
  | read j => rfl

/-- An update of a pipe that changes one of its counts. -/
theorem refs_updatePipe {f : PipeState → Option PipeState} {e : PipeEnd} {g : Nat → Nat}
    (hnone : k.pipe e.id = none → g 0 = 0)
    (hf : ∀ p e', e'.id = e.id →
      endRefs (f p) e' = if e' = e then g (endRefs (some p) e') else endRefs (some p) e') :
    (k.updatePipe e.id f).refs = Function.update k.refs e (g (k.refs e)) := by
  funext e'
  rw [Function.update_apply]
  unfold refs
  rw [pipe_updatePipe]
  by_cases hid : e'.id = e.id
  · rw [if_pos hid, hid]
    cases hp : k.pipe e.id with
    | none => simp [endRefs_none, hnone hp]
    | some p =>
      rw [Option.bind_some, hf p e' hid]
      split
      · rename_i he
        rw [he]
      · rfl
  · rw [if_neg hid, if_neg]
    intro he
    exact hid (congrArg PipeEnd.id he)

theorem refs_cloneWrite (h : (k.pipe id).isSome = true) :
    (k.cloneWrite id).refs = Function.update k.refs (.write id) (k.refs (.write id) + 1) := by
  apply refs_updatePipe (e := .write id) (g := (· + 1))
  · intro hnone
    rw [PipeEnd.id] at hnone
    simp [hnone] at h
  · rintro p (j | j) hid
    · simp [endRefs, show j = id from hid]
    · rfl

theorem refs_cloneRead (h : (k.pipe id).isSome = true) :
    (k.cloneRead id).refs = Function.update k.refs (.read id) (k.refs (.read id) + 1) := by
  apply refs_updatePipe (e := .read id) (g := (· + 1))
  · intro hnone
    rw [PipeEnd.id] at hnone
    simp [hnone] at h
  · rintro p (j | j) hid
    · rfl
    · simp [endRefs, show j = id from hid]

theorem endRefs_dropUnreferenced (p : PipeState) (e : PipeEnd) :
    endRefs (dropUnreferenced p) e = endRefs (some p) e := by
  unfold dropUnreferenced
  split
  · rename_i hzero
    cases e with
    | write j => exact hzero.1.symm
    | read j => exact hzero.2.symm
  · rfl

theorem refs_closeWrite (k : Kernel) (id : Nat) :
    (k.closeWrite id).refs = Function.update k.refs (.write id) (k.refs (.write id) - 1) := by
  apply refs_updatePipe (e := .write id) (g := (· - 1))
  · exact fun _ => rfl
  · rintro p e' hid
    rw [endRefs_dropUnreferenced]
    cases e' with
    | write j => simp [endRefs, show j = id from hid]
    | read j => rfl

theorem refs_closeRead (k : Kernel) (id : Nat) :
    (k.closeRead id).refs = Function.update k.refs (.read id) (k.refs (.read id) - 1) := by
  apply refs_updatePipe (e := .read id) (g := (· - 1))
  · exact fun _ => rfl
  · rintro p e' hid
    rw [endRefs_dropUnreferenced]
    cases e' with
    | write j => rfl
    | read j => simp [endRefs, show j = id from hid]

/-- Installing a descriptor and counting it. -/
theorem counted_pipeClone (h : Counted k.refs held)
    (halive : k.Alive entry) : Counted (k.pipeClone entry).refs (ends [entry] ++ held) := by
  cases entry with
  | pipeWrite id =>
    have hlive : (k.pipe id).isSome = true := halive (.write id) rfl
    rw [pipeClone, refs_cloneWrite hlive]
    exact h.retain
  | pipeRead id =>
    have hlive : (k.pipe id).isSome = true := halive (.read id) rfl
    rw [pipeClone, refs_cloneRead hlive]
    exact h.retain
  | _ => exact h

/-- Closing one. -/
theorem counted_closeEntry
    (h : Counted k.refs (ends [entry] ++ held)) : Counted (k.closeEntry entry).refs held := by
  cases entry with
  | pipeWrite id =>
    rw [closeEntry, refs_notifyPipeReaders, refs_closeWrite]
    exact h.release
  | pipeRead id =>
    rw [closeEntry, refs_closeRead]
    exact h.release
  | _ => exact h

theorem ends_append (l l' : List FdEntry) : ends (l ++ l') = ends l ++ ends l' :=
  List.filterMap_append

theorem counted_closeEntries (entries : List FdEntry) {k : Kernel}
    (h : Counted k.refs (ends entries ++ held)) :
    Counted (entries.foldl closeEntry k).refs held := by
  induction entries generalizing k with
  | nil => exact h
  | cons entry entries ih =>
    apply ih
    apply counted_closeEntry
    rwa [← List.append_assoc, ← ends_append]

/-- An entry of a table is alive where the counts match. -/
theorem RefsMatch.alive (h : k.RefsMatch) (hmem : entry ∈ k.descriptors) : k.Alive entry := by
  intro e he
  have hpos : 0 < k.refs e := h.pos (List.mem_filterMap.mpr ⟨entry, hmem, he⟩)
  unfold refs at hpos
  cases hp : k.pipe e.id with
  | none =>
    rw [hp, endRefs_none] at hpos
    exact absurd hpos (Nat.lt_irrefl 0)
  | some p => rfl

/-! Tables. -/

/-- The entry at a place of a table; places past its end are empty. -/
def entryAt (k : Kernel) (pid fd : Nat) : FdEntry := (k.getFd pid fd).getD .empty

theorem mem_descriptors {pid fd : Nat} (h : k.getFd pid fd = some entry) :
    entry ∈ k.descriptors := by
  obtain ⟨entries, htable, hentry⟩ := Option.bind_eq_some_iff.mp h
  apply List.mem_flatMap.mpr
  refine ⟨some entries, List.mem_of_getElem? (Option.join_eq_some_iff.mp htable), ?_⟩
  exact List.mem_of_getElem? hentry

/-- All entries apart from those of one table. -/
theorem perm_descriptors {pid : Nat} (h : k.table pid = some entries) :
    ∃ rest, k.descriptors.Perm (entries ++ rest) ∧
      ∀ entries', (k.setTable pid entries').descriptors.Perm (entries' ++ rest) := by
  obtain ⟨others, hperm, hset⟩ := perm_set (Option.join_eq_some_iff.mp h)
  refine ⟨others.flatMap entriesOf, hperm.flatMap_right _, ?_⟩
  intro entries'
  exact (hset (some entries')).flatMap_right _

theorem perm_ends {l l' : List FdEntry} (h : l.Perm l') : (ends l).Perm (ends l') :=
  h.filterMap FdEntry.pipeEnd

/-- The tables up to that of a pid. -/
def grownTables (k : Kernel) (pid : Nat) : List (Option (List FdEntry)) :=
  k.tables ++ List.replicate (pid + 1 - k.tables.length) none

theorem grownTables_join (k : Kernel) (pid j : Nat) : (k.grownTables pid)[j]?.join = k.table j := by
  unfold grownTables table
  by_cases hj : j < k.tables.length
  · rw [List.getElem?_append_left hj]
  · rw [List.getElem?_append_right (Nat.le_of_not_lt hj),
      List.getElem?_eq_none (Nat.le_of_not_lt hj), List.getElem?_replicate]
    split
    · rfl
    · rfl

theorem lt_length_grownTables (k : Kernel) (pid : Nat) : pid < (k.grownTables pid).length := by
  unfold grownTables
  rw [List.length_append, List.length_replicate]
  omega

theorem tables_ensureTable (k : Kernel) (pid : Nat) :
    (k.ensureTable pid).tables = (k.grownTables pid).set pid (some (entriesOf (k.table pid))) := by
  have htable := k.grownTables_join pid pid
  unfold grownTables at htable ⊢
  simp only [ensureTable, htable]
  cases h : k.table pid with
  | none => rfl
  | some entries =>
    rw [h] at htable
    obtain ⟨hlt, hget⟩ := List.getElem?_eq_some_iff.mp (Option.join_eq_some_iff.mp htable)
    exact (hget ▸ List.set_getElem_self hlt).symm

theorem table_ensureTable (k : Kernel) (pid j : Nat) :
    (k.ensureTable pid).table j =
      if j = pid then some (entriesOf (k.table pid)) else k.table j := by
  rw [table, tables_ensureTable]
  split
  · rename_i hj
    rw [hj, List.getElem?_set_self (k.lt_length_grownTables pid)]
    rfl
  · rename_i hj
    rw [List.getElem?_set_ne (Ne.symm hj), grownTables_join]

theorem descriptors_ensureTable (k : Kernel) (pid : Nat) :
    (k.ensureTable pid).descriptors = k.descriptors := by
  have hentry : ((k.grownTables pid).map entriesOf)[pid]? = some (entriesOf (k.table pid)) := by
    have hlt := k.lt_length_grownTables pid
    rw [List.getElem?_map, List.getElem?_eq_getElem hlt, ← k.grownTables_join pid pid,
      List.getElem?_eq_getElem hlt]
    rfl
  obtain ⟨hlt, hget⟩ := List.getElem?_eq_some_iff.mp hentry
  have hset : ((k.grownTables pid).map entriesOf).set pid (entriesOf (k.table pid)) =
      (k.grownTables pid).map entriesOf := hget ▸ List.set_getElem_self hlt
  unfold descriptors
  rw [tables_ensureTable, List.flatMap_def, List.map_set]
  change (((k.grownTables pid).map entriesOf).set pid (entriesOf (k.table pid))).flatten = _
  rw [hset, ← List.flatMap_def, grownTables, List.flatMap_append]
  simp [entriesOf]

/-- Replacing an entry of a table. -/
theorem perm_ends_set {i : Nat} {old : FdEntry} (h : entries[i]? = some old) (new : FdEntry) :
    (ends [new] ++ ends entries).Perm (ends [old] ++ ends (entries.set i new)) := by
  obtain ⟨rest, hold, hnew⟩ := perm_set h
  have hswap : (new :: old :: rest).Perm (old :: new :: rest) := List.Perm.swap _ _ _
  rw [← ends_append, ← ends_append]
  apply perm_ends
  exact ((hold.cons new).trans hswap).trans ((hnew new).symm.cons old)

/-- A table is replaced while the counts follow. -/
theorem refsMatch_setTable {pid : Nat} {entries entries' : List FdEntry}
    (h : k.RefsMatch) (htable : k.table pid = some entries) (htables : k'.tables = k.tables)
    (hcounts : ∀ held, Counted k.refs (ends entries ++ held) →
      Counted k'.refs (ends entries' ++ held)) :
    (k'.setTable pid entries').RefsMatch := by
  obtain ⟨rest, hperm, hset⟩ := perm_descriptors htable
  have hdescriptors : (k'.setTable pid entries').descriptors =
      (k.setTable pid entries').descriptors := by
    simp only [descriptors, setTable, htables]
  have hbefore : Counted k.refs (ends entries ++ ends rest) := by
    rw [← ends_append]
    exact h.perm (perm_ends hperm)
  have hafter := hcounts (ends rest) hbefore
  rw [← ends_append] at hafter
  unfold RefsMatch
  rw [hdescriptors]
  exact hafter.perm (perm_ends (hset entries').symm)

/-- Installing a descriptor over an entry that is not one of a pipe. -/
theorem counted_install {i : Nat}
    {old entry : FdEntry} (hold : entries[i]? = some old) (hend : old.pipeEnd = none)
    (halive : k.Alive entry) (h : Counted k.refs (ends entries ++ held)) :
    Counted (k.pipeClone entry).refs (ends (entries.set i entry) ++ held) := by
  have hclone := counted_pipeClone h halive
  rw [← List.append_assoc] at hclone
  have hends : ends [old] = [] := List.filterMap_cons_none hend
  have hperm := perm_ends_set hold entry
  rw [hends, List.nil_append] at hperm
  exact hclone.perm (hperm.append_right held)

theorem refsMatch_ensureTable (h : k.RefsMatch) (pid : Nat) : (k.ensureTable pid).RefsMatch := by
  unfold RefsMatch
  rw [descriptors_ensureTable]
  obtain ⟨tables, heq⟩ := k.ensureTable_eq pid
  rw [heq]
  exact h

theorem alive_ensureTable (h : k.Alive entry) (pid : Nat) : (k.ensureTable pid).Alive entry := by
  obtain ⟨tables, heq⟩ := k.ensureTable_eq pid
  rw [heq]
  exact h

theorem refsMatch_allocFd (h : k.RefsMatch) (halive : k.Alive entry)
    (pid : Nat) : (k.allocFd pid entry).2.RefsMatch := by
  have hensured := refsMatch_ensureTable h pid
  have halive' := alive_ensureTable halive pid
  unfold allocFd
  dsimp only
  rw [table_ensureTable, if_pos rfl]
  dsimp only
  have htable : (k.ensureTable pid).table pid = some (entriesOf (k.table pid)) := by
    rw [table_ensureTable, if_pos rfl]
  generalize entriesOf (k.table pid) = entries at htable
  split
  · rename_i i hfree
    obtain ⟨hlt, hempty, -⟩ := List.findIdx?_eq_some_iff_getElem.mp hfree
    have hold : entries[i]? = some .empty := by
      rw [List.getElem?_eq_getElem hlt, of_decide_eq_true hempty]
    exact refsMatch_setTable hensured htable (pipeClone_tables _ _) fun held hcounted =>
      counted_install hold rfl halive' hcounted
  · split
    · refine refsMatch_setTable hensured htable (pipeClone_tables _ _) ?_
      intro held hcounted
      have hclone := counted_pipeClone hcounted halive'
      rw [← List.append_assoc, ← ends_append] at hclone
      exact hclone.perm ((perm_ends List.perm_append_comm).append_right held)
    · exact hensured

/-- A table long enough for a descriptor. -/
def padded (entries : List FdEntry) (fd : Nat) : List FdEntry :=
  entries ++ List.replicate (fd + 1 - entries.length) .empty

theorem padded_getElem? (entries : List FdEntry) (fd : Nat) :
    (padded entries fd)[fd]? = some (entries[fd]?.getD .empty) := by
  unfold padded
  by_cases hlt : fd < entries.length
  · rw [List.getElem?_append_left hlt, List.getElem?_eq_getElem hlt]
    rfl
  · rw [List.getElem?_append_right (Nat.le_of_not_lt hlt),
      List.getElem?_eq_none (Nat.le_of_not_lt hlt), List.getElem?_replicate, if_pos (by omega)]
    rfl

theorem ends_padded (entries : List FdEntry) (fd : Nat) : ends (padded entries fd) = ends entries := by
  unfold padded
  rw [ends_append]
  simp [ends, FdEntry.pipeEnd]

theorem refsMatch_allocFdAt {pid fd : Nat} (h : k.RefsMatch) (halive : k.Alive entry)
    (hfree : (k.entryAt pid fd).pipeEnd = none) : (k.allocFdAt pid fd entry).2.RefsMatch := by
  have htable : (k.ensureTable pid).table pid = some (entriesOf (k.table pid)) := by
    rw [table_ensureTable, if_pos rfl]
  unfold allocFdAt
  split
  · exact h
  · dsimp only
    rw [htable]
    refine refsMatch_setTable (refsMatch_ensureTable h pid) htable (pipeClone_tables _ _) ?_
    intro held hcounted
    rw [← ends_padded _ fd] at hcounted
    refine counted_install (padded_getElem? _ fd) ?_ (alive_ensureTable halive pid) hcounted
    unfold entryAt getFd at hfree
    cases htable : k.table pid with
    | none => rfl
    | some entries =>
      rw [htable] at hfree
      exact hfree

theorem closeEntry_tables (k : Kernel) (entry : FdEntry) :
    (k.closeEntry entry).tables = k.tables := by
  obtain ⟨tasks, pipes, heq⟩ := k.closeEntry_eq entry
  rw [heq]

theorem closeEntries_tables (entries : List FdEntry) (k : Kernel) :
    (entries.foldl closeEntry k).tables = k.tables := by
  induction entries generalizing k with
  | nil => rfl
  | cons entry entries ih => exact (ih (k.closeEntry entry)).trans (k.closeEntry_tables entry)

theorem refsMatch_freeFd (h : k.RefsMatch) (pid fd : Nat) : (k.freeFd pid fd).2.RefsMatch := by
  unfold freeFd
  split
  · exact h
  · rename_i entries htable
    split
    · rename_i entry hentry
      refine refsMatch_setTable h htable (k.closeEntry_tables entry) ?_
      intro held hcounted
      apply counted_closeEntry
      rw [← List.append_assoc]
      exact hcounted.perm ((perm_ends_set hentry .empty).append_right held)
    · exact h

theorem refsMatch_closeAll (h : k.RefsMatch) (pid : Nat) : (k.closeAll pid).RefsMatch := by
  unfold closeAll
  split
  · rename_i entries htable
    exact refsMatch_setTable h htable (closeEntries_tables entries k) fun held hcounted =>
      counted_closeEntries entries hcounted
  · exact h

/-- Moving the offset of a file. -/
theorem refsMatch_setFd {pid fd : Nat} (h : k.RefsMatch) (hnew : entry.pipeEnd = none)
    (hold : (k.entryAt pid fd).pipeEnd = none) : (k.setFd pid fd entry).2.RefsMatch := by
  unfold setFd
  split
  · rename_i entries htable
    split
    · rename_i hlt
      refine refsMatch_setTable h htable rfl ?_
      intro held hcounted
      have hget : entries[fd]? = some entries[fd] := List.getElem?_eq_getElem hlt
      have hat : k.entryAt pid fd = entries[fd] := by
        rw [entryAt, getFd, htable, Option.bind_some, hget]
        rfl
      have hperm := perm_ends_set hget entry
      have hnone : ends [entry] = [] := List.filterMap_cons_none hnew
      have hnone' : ends [entries[fd]] = [] := List.filterMap_cons_none (hat ▸ hold)
      rw [hnone, hnone'] at hperm
      exact hcounted.perm (hperm.append_right held)
    · exact h
  · exact h

/-- The counts stay and no descriptor changes. -/
theorem RefsMatch.congr (h : k.RefsMatch) (hrefs : k'.refs = k.refs)
    (htables : k'.tables = k.tables) : k'.RefsMatch := by
  unfold RefsMatch descriptors
  rw [hrefs, htables]
  exact h

theorem refsMatch_readPipeEnd (h : k.RefsMatch) (cpu id bufPtr bufLen : Nat) :
    (k.readPipeEnd cpu id bufPtr bufLen).2.RefsMatch := by
  obtain ⟨tasks, heq⟩ := k.readPipeEnd_eq cpu id bufPtr bufLen
  rw [heq]
  split
  · exact h.congr (k.refs_readPipe id bufLen) rfl
  · exact h

/-- A section of a call that no other call tears apart: it installs descriptors only for
processes that exist and only of pipes that exist, and overwrites no descriptor of a pipe. -/
def PipeSection.Sound (k : Kernel) : PipeSection → Prop
  | .allocFd pid entry => pid < k.tasks.nextPid ∧ k.Alive entry
  | .allocFdAt pid fd entry =>
      pid < k.tasks.nextPid ∧ k.Alive entry ∧ (k.entryAt pid fd).pipeEnd = none
  | .setFd pid fd entry => entry.pipeEnd = none ∧ (k.entryAt pid fd).pipeEnd = none
  | .other k' => k.tasks.nextPid ≤ k'.tasks.nextPid
  | _ => True

def SoundStep (k : Kernel) (e : PipeSection) (k' : Kernel) : Prop := e.Sound k ∧ k' = e.apply k

theorem refsMatch_section (e : PipeSection) (h : k.RefsMatch) (hsound : e.Sound k) :
    (e.apply k).RefsMatch := by
  cases e with
  | create => exact h.congr k.refs_createPipe k.createPipe_tables
  | allocFd pid entry => exact refsMatch_allocFd h hsound.2 pid
  | allocFdAt pid fd entry => exact refsMatch_allocFdAt h hsound.2.1 hsound.2.2
  | setFd pid fd entry => exact refsMatch_setFd h hsound.1 hsound.2
  | freeFd pid fd => exact refsMatch_freeFd h pid fd
  | closeAll pid => exact refsMatch_closeAll h pid
  | write id data => exact h.congr (k.refs_writePipe id data) (k.writePipe_tables id data)
  | read id maxLen => exact h.congr (k.refs_readPipe id maxLen) rfl
  | readEnd cpu id bufPtr bufLen => exact refsMatch_readPipeEnd h cpu id bufPtr bufLen
  | notify id => exact h.congr (k.refs_notifyPipeReaders id) rfl
  | other k' => exact h

/-! Whose table a section changes. -/

def PipeSection.table : PipeSection → Option Nat
  | .allocFd pid _ | .allocFdAt pid _ _ | .setFd pid _ _ | .freeFd pid _ | .closeAll pid => some pid
  | _ => none

theorem table_setTable (k : Kernel) (entries : List FdEntry) (hj : j ≠ pid) :
    (k.setTable pid entries).table j = k.table j := by
  unfold table setTable
  rw [List.getElem?_set_ne (Ne.symm hj)]

theorem table_setTable_self {pid : Nat} {old : List FdEntry} (h : k.table pid = some old)
    (entries : List FdEntry) : (k.setTable pid entries).table pid = some entries := by
  have hlt := (List.getElem?_eq_some_iff.mp (Option.join_eq_some_iff.mp h)).1
  unfold table setTable
  rw [List.getElem?_set_self hlt]
  rfl

theorem table_congr (h : k'.tables = k.tables) (j : Nat) : k'.table j = k.table j := by
  unfold table
  rw [h]

theorem table_setTable_congr (entries : List FdEntry) (hj : j ≠ pid)
    (h : k'.tables = k.tables) : (k'.setTable pid entries).table j = k.table j :=
  (table_setTable k' entries hj).trans (table_congr h j)

theorem table_ensureTable_ne (k : Kernel) (hj : j ≠ pid) :
    (k.ensureTable pid).table j = k.table j := by
  rw [table_ensureTable, if_neg hj]

theorem Installs.table (h : k.Installs pid entry k') (hj : j ≠ pid) : k'.table j = k.table j := by
  cases h with
  | refused => rfl
  | full => exact table_ensureTable_ne k hj
  | installed entries =>
    exact (table_setTable_congr entries hj (pipeClone_tables _ _)).trans (table_ensureTable_ne k hj)

theorem table_freeFd (k : Kernel) (fd : Nat) (hj : j ≠ pid) :
    (k.freeFd pid fd).2.table j = k.table j := by
  unfold freeFd
  split
  · rfl
  · split
    · exact table_setTable_congr _ hj (k.closeEntry_tables _)
    · rfl

theorem table_closeAll (k : Kernel) (hj : j ≠ pid) : (k.closeAll pid).table j = k.table j := by
  unfold closeAll
  split
  · exact table_setTable_congr _ hj (closeEntries_tables _ k)
  · rfl

theorem table_setFd (k : Kernel) (fd : Nat) (entry : FdEntry) (hj : j ≠ pid) :
    (k.setFd pid fd entry).2.table j = k.table j := by
  unfold setFd
  split
  · split
    · exact table_setTable k _ hj
    · rfl
  · rfl

theorem table_section (e : PipeSection) {j : Nat} (hj : e.table ≠ some j) :
    (e.apply k).table j = k.table j := by
  have hne : ∀ {pid}, e.table = some pid → j ≠ pid := by
    intro pid he heq
    exact hj (he.trans (congrArg some heq.symm))
  cases e with
  | create => exact table_congr k.createPipe_tables j
  | allocFd pid entry => exact (k.installs_allocFd pid entry).table (hne rfl)
  | allocFdAt pid fd entry => exact (k.installs_allocFdAt pid fd entry).table (hne rfl)
  | setFd pid fd entry => exact k.table_setFd fd entry (hne rfl)
  | freeFd pid fd => exact k.table_freeFd fd (hne rfl)
  | closeAll pid => exact k.table_closeAll (hne rfl)
  | write id data => exact table_congr (k.writePipe_tables id data) j
  | read id maxLen => rfl
  | readEnd cpu id bufPtr bufLen => exact table_congr (k.readPipeEnd_tables cpu id bufPtr bufLen) j
  | notify id => rfl
  | other k' => rfl

end Kernel

end KazuOS
