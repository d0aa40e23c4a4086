import KazuOS.Kernel.Effects
import KazuOS.Kernel.Descriptors
import KazuOS.Lib.Flow
import KazuOS.Lib.RefCount
import KazuOS.Lib.Slots
import Mathlib.Data.List.ReduceOption

/-! The critical sections that touch pipes or descriptor tables. Syscalls are built from
them, and between two sections of one call those of any other may run. -/
namespace KazuOS.Kernel

open KazuOS.Memory KazuOS.Task KazuOS.Lib

inductive PipeSection where
  | create
  | allocFd (pid : Nat) (entry : FdEntry)
  | allocFdAt (pid fd : Nat) (entry : FdEntry)
  | setFd (pid fd : Nat) (entry : FdEntry)
  | freeFd (pid fd : Nat)
  | closeAll (pid : Nat)
  | write (id : Nat) (data : List UInt8)
  | read (id maxLen : Nat)
  | readEnd (cpu id bufPtr bufLen : Nat)
  | notify (id : Nat)
  | other (k : Kernel)

/-- The last case stands for everything that leaves pipes and descriptors alone. -/
def PipeSection.apply (k : Kernel) : PipeSection → Kernel
  | .create => k.createPipe.2
  | .allocFd pid entry => (k.allocFd pid entry).2
  | .allocFdAt pid fd entry => (k.allocFdAt pid fd entry).2
  | .setFd pid fd entry => (k.setFd pid fd entry).2
  | .freeFd pid fd => (k.freeFd pid fd).2
  | .closeAll pid => k.closeAll pid
  | .write id data => (k.writePipe id data).2
  | .read id maxLen => (k.readPipe id maxLen).2
  | .readEnd cpu id bufPtr bufLen => (k.readPipeEnd cpu id bufPtr bufLen).2
  | .notify id => k.notifyPipeReaders id
  | .other k' => { k' with pipes := k.pipes, tables := k.tables }

/-! What the operations do to each pipe. -/

theorem pipes_kept {pipes : List (Option PipeState)} {id : Nat} {pipe : Option PipeState}
    (h : pipes[id]?.join = pipe) (j : Nat) :
    pipes[j]?.join = if j = id then pipe else pipes[j]?.join := by
  split
  · rename_i hj
    rw [hj, h]
  · rfl

theorem pipe_setPipe {k : Kernel} {id : Nat} {p : PipeState} (hp : k.pipe id = some p)
    (pipe : Option PipeState) (j : Nat) :
    (k.setPipe id pipe).pipe j = if j = id then pipe else k.pipe j :=
  slot_set (lt_of_slot hp) pipe j

theorem pipe_updatePipe (k : Kernel) (id : Nat) (f : PipeState → Option PipeState) (j : Nat) :
    (k.updatePipe id f).pipe j = if j = id then (k.pipe id).bind f else k.pipe j := by
  unfold updatePipe
  cases hp : k.pipe id with
  | none => exact pipes_kept hp j
  | some p => exact pipe_setPipe hp _ j

/-- A new pipe takes a place that is free. -/
theorem createPipe_free (k : Kernel) : k.pipe k.createPipe.1 = none := by
  unfold createPipe
  dsimp only
  cases hfree : k.pipes.findIdx? Option.isNone with
  | none => exact slot_length k.pipes
  | some id => exact (slot_of_findIdx? hfree).2

theorem pipe_createPipe (k : Kernel) (j : Nat) :
    k.createPipe.2.pipe j = if j = k.createPipe.1 then some ⟨[], 0, 0⟩ else k.pipe j := by
  unfold createPipe
  dsimp only
  cases hfree : k.pipes.findIdx? Option.isNone with
  | none => exact slot_concat k.pipes _ j
  | some id => exact slot_set (slot_of_findIdx? hfree).1 _ j

theorem pipe_writePipe (k : Kernel) (id : Nat) (data : List UInt8) (j : Nat) :
    (k.writePipe id data).2.pipe j = if j = id then (k.pipe id).map fun p =>
      { p with data := p.data ++ data.take (k.writePipe id data).1 } else k.pipe j := by
  unfold writePipe
  cases hp : k.pipe id with
  | none => exact pipes_kept hp j
  | some p =>
    dsimp only
    split
    · rw [List.take_zero, Option.map_some, List.append_nil]
      exact pipes_kept hp j
    · rw [pipe_setPipe hp, List.take_length]
      rfl

/-- The pipe without its first bytes. -/
def dropData (n : Nat) (p : PipeState) : PipeState := { p with data := p.data.drop n }

theorem pipes_drain (pipes : List (Option PipeState)) (id maxLen j : Nat) :
    (drain pipes id maxLen).2[j]?.join =
      if j = id then pipes[id]?.join.map (dropData maxLen) else pipes[j]?.join := by
  unfold drain
  cases hp : pipes[id]?.join with
  | none => exact pipes_kept hp j
  | some p => exact slot_set (lt_of_slot hp) _ j

theorem pipe_readPipe (k : Kernel) (id maxLen j : Nat) :
    (k.readPipe id maxLen).2.pipe j =
      if j = id then (k.pipe id).map (dropData maxLen) else k.pipe j :=
  pipes_drain k.pipes id maxLen j

/-! What the operations leave alone. -/

theorem createPipe_eq (k : Kernel) : ∃ pipes, k.createPipe.2 = { k with pipes } := by
  unfold createPipe
  dsimp only
  split
  · exact ⟨_, rfl⟩
  · exact ⟨_, rfl⟩

theorem createPipe_tables (k : Kernel) : k.createPipe.2.tables = k.tables := by
  obtain ⟨pipes, heq⟩ := k.createPipe_eq
  rw [heq]

theorem createPipe_tasks (k : Kernel) : k.createPipe.2.tasks = k.tasks := by
  obtain ⟨pipes, heq⟩ := k.createPipe_eq
  rw [heq]

theorem writePipe_eq (k : Kernel) (id : Nat) (data : List UInt8) :
    ∃ pipes, (k.writePipe id data).2 = { k with pipes } := by
  unfold writePipe
  split
  · split
    · exact ⟨_, rfl⟩
    · exact ⟨_, rfl⟩
  · exact ⟨_, rfl⟩

theorem writePipe_tables (k : Kernel) (id : Nat) (data : List UInt8) :
    (k.writePipe id data).2.tables = k.tables := by
  obtain ⟨pipes, heq⟩ := k.writePipe_eq id data
  rw [heq]

theorem writePipe_tasks (k : Kernel) (id : Nat) (data : List UInt8) :
    (k.writePipe id data).2.tasks = k.tasks := by
  obtain ⟨pipes, heq⟩ := k.writePipe_eq id data
  rw [heq]

/-- A read takes bytes if there are any. Otherwise it may put the caller to sleep. -/
theorem readPipeEnd_eq (k : Kernel) (cpu id bufPtr bufLen : Nat) :
    ∃ tasks, (k.readPipeEnd cpu id bufPtr bufLen).2 = { k with
      tasks
      pipes := if !k.pipeIsEmpty id then (k.readPipe id bufLen).2.pipes else k.pipes } := by
  unfold readPipeEnd
  split
  · exact ⟨k.tasks, rfl⟩
  · split
    · exact ⟨k.tasks, rfl⟩
    · unfold blockMain
      split
      · exact ⟨_, rfl⟩
      · exact ⟨k.tasks, rfl⟩

theorem readPipeEnd_tables (k : Kernel) (cpu id bufPtr bufLen : Nat) :
    (k.readPipeEnd cpu id bufPtr bufLen).2.tables = k.tables := by
  obtain ⟨tasks, heq⟩ := k.readPipeEnd_eq cpu id bufPtr bufLen
  rw [heq]

theorem pipeClone_eq (k : Kernel) (entry : FdEntry) :
    ∃ pipes, k.pipeClone entry = { k with pipes } := by
  have hupdate : ∀ id f, ∃ pipes, k.updatePipe id f = { k with pipes } := by
    intro id f
    unfold updatePipe
    split
    · exact ⟨_, rfl⟩
    · exact ⟨_, rfl⟩
  cases entry with
  | pipeWrite id => exact hupdate id _
  | pipeRead id => exact hupdate id _
  | _ => exact ⟨_, rfl⟩

theorem pipeClone_tables (k : Kernel) (entry : FdEntry) :
    (k.pipeClone entry).tables = k.tables := by
  obtain ⟨pipes, heq⟩ := k.pipeClone_eq entry
  rw [heq]

theorem ensureTable_eq (k : Kernel) (pid : Nat) :
    ∃ tables, k.ensureTable pid = { k with tables } := by
  unfold ensureTable
  dsimp only
  split
  · exact ⟨_, rfl⟩
  · exact ⟨_, rfl⟩

theorem setFd_eq (k : Kernel) (pid fd : Nat) (entry : FdEntry) :
    ∃ tables, (k.setFd pid fd entry).2 = { k with tables } := by
  unfold setFd
  split
  · split
    · exact ⟨_, rfl⟩
    · exact ⟨_, rfl⟩
  · exact ⟨_, rfl⟩

theorem setFd_tasks (k : Kernel) (pid fd : Nat) (entry : FdEntry) :
    (k.setFd pid fd entry).2.tasks = k.tasks := by
  obtain ⟨tables, heq⟩ := k.setFd_eq pid fd entry
  rw [heq]

/-- Installing a descriptor for a process counts it, unless there is no room for it. -/
inductive Installs (k : Kernel) (pid : Nat) (entry : FdEntry) : Kernel → Prop where
  | refused : Installs k pid entry k
  | full : Installs k pid entry (k.ensureTable pid)
  | installed (entries : List FdEntry) :
      Installs k pid entry (((k.ensureTable pid).pipeClone entry).setTable pid entries)

theorem installs_allocFd (k : Kernel) (pid : Nat) (entry : FdEntry) :
    k.Installs pid entry (k.allocFd pid entry).2 := by
  unfold allocFd
  dsimp only
  split
  · exact .full
  · split
    · exact .installed _
    · split
      · exact .installed _
      · exact .full

theorem installs_allocFdAt (k : Kernel) (pid fd : Nat) (entry : FdEntry) :
    k.Installs pid entry (k.allocFdAt pid fd entry).2 := by
  unfold allocFdAt
  split
  · exact .refused
  · dsimp only
    split
    · exact .installed _
    · exact .full

theorem pipe_installed (k : Kernel) (pid : Nat) (entry : FdEntry) (entries : List FdEntry) (j : Nat) :
    (((k.ensureTable pid).pipeClone entry).setTable pid entries).pipe j =
      (k.pipeClone entry).pipe j := by
  obtain ⟨tables, heq⟩ := k.ensureTable_eq pid
  rw [heq]
  cases entry with
  | pipeWrite id | pipeRead id =>
    exact (pipe_updatePipe _ id _ j).trans (k.pipe_updatePipe id _ j).symm
  | _ => rfl

namespace Installs

variable {k k' : Kernel} {pid : Nat} {entry : FdEntry}

theorem tasks (h : k.Installs pid entry k') : k'.tasks = k.tasks := by
  obtain ⟨tables, htables⟩ := k.ensureTable_eq pid
  cases h with
  | refused => rfl
  | full => rw [htables]
  | installed entries =>
    obtain ⟨pipes, hpipes⟩ := (k.ensureTable pid).pipeClone_eq entry
    rw [hpipes, htables]
    rfl

theorem pipe (h : k.Installs pid entry k') :
    (∀ j, k'.pipe j = k.pipe j) ∨ ∀ j, k'.pipe j = (k.pipeClone entry).pipe j := by
  obtain ⟨tables, htables⟩ := k.ensureTable_eq pid
  cases h with
  | refused => exact .inl fun _ => rfl
  | full =>
    rw [htables]
    exact .inl fun _ => rfl
  | installed entries => exact .inr (k.pipe_installed pid entry entries)

end Installs

/-! Waking readers. -/

/-- The buffers of the sleeping readers of a pipe, in the order they are served. -/
def readerLengths (k : Kernel) (id : Nat) : List Nat := k.tasks.threads.filterMap (readerOf k.vm id)

theorem dropData_dropData (m n : Nat) (p : PipeState) :
    dropData n (dropData m p) = dropData (m + n) p := by
  simp only [dropData, List.drop_drop]

theorem pipes_deliver (vm : Vmm) (mem : Task.Memory) (id : Nat) (threads : Threads)
    (pipes : List (Option PipeState)) (j : Nat) :
    (deliver vm mem id threads pipes).2[j]?.join =
      if j = id then
        pipes[id]?.join.map (dropData (threads.filterMap (readerOf vm id)).sum)
      else pipes[j]?.join := by
  induction threads generalizing pipes with
  | nil =>
    have hsame : pipes[id]?.join = pipes[id]?.join.map (dropData 0) := by
      cases pipes[id]?.join with
      | none => rfl
      | some p => rfl
    exact pipes_kept hsame j
  | cons t threads ih =>
    unfold deliver
    cases hreader : readerOf vm id t with
    | none =>
      rw [List.filterMap_cons_none hreader]
      exact ih pipes
    | some bufLen =>
      rw [List.filterMap_cons_some hreader, List.sum_cons]
      have hrest := ih (drain pipes id bufLen).2
      rw [pipes_drain, pipes_drain] at hrest
      refine hrest.trans ?_
      split
      · simp only [if_true, Option.map_map]
        congr 1
        funext p
        exact dropData_dropData _ _ _
      · rfl

theorem pipe_notifyPipeReaders (k : Kernel) (id j : Nat) :
    (k.notifyPipeReaders id).pipe j =
      if j = id then (k.pipe id).map (dropData (k.readerLengths id).sum)
      else k.pipe j :=
  pipes_deliver k.vm k.tasks.mem id k.tasks.threads k.pipes j

/-- A reader that is woken: its buffer, the bytes it gets there, and the pipe when its turn
comes. -/
structure Delivery where
  tid : Nat
  bufLen : Nat
  bytes : List UInt8
  pipe : Option PipeState
  deriving DecidableEq, Repr

def deliveriesFrom (vm : Vmm) (id : Nat) : Threads → List (Option PipeState) → List Delivery
  | [], _ => []
  | t :: threads, pipes =>
      match readerOf vm id t with
      | some bufLen =>
          let (bytes, rest) := drain pipes id bufLen
          ⟨t.tid, bufLen, bytes, pipes[id]?.join⟩ :: deliveriesFrom vm id threads rest
      | none => deliveriesFrom vm id threads pipes

def deliveries (k : Kernel) (id : Nat) : List Delivery :=
  deliveriesFrom k.vm id k.tasks.threads k.pipes

/-- What a reader's call returns, from the reader before and after it is woken: the result
is in its context if its frame was saved by then. -/
def readResult (vm : Vmm) (id : Nat) (t t' : Thread) : Option (Nat × Nat × Nat) :=
  (readerOf vm id t).map fun bufLen =>
    (t.tid, bufLen, if t.blockingRsp = 0 then t'.blockingRetval else t'.userContext.rax)

/-- A thread woken with a count resumes with it. -/
theorem readResult_wake {vm : Vmm} {id : Nat} {t : Thread} {bufLen : Nat}
    (hreader : readerOf vm id t = some bufLen) (mem : Task.Memory) (count : Nat) :
    readResult vm id t ({ t with blockingRetval := count }.wake mem count) =
      some (t.tid, bufLen, count) := by
  unfold readResult Thread.wake Thread.restoreCtxFromBlockingFrame
  rw [hreader, Option.map_some]
  by_cases hrsp : t.blockingRsp = 0
  · simp [hrsp]
  · simp [hrsp, Thread.blockingFrame]

theorem readResults_deliver (vm : Vmm) (mem : Task.Memory) (id : Nat) (threads : Threads)
    (pipes : List (Option PipeState)) :
    (List.zipWith (readResult vm id) threads (deliver vm mem id threads pipes).1).reduceOption =
      (deliveriesFrom vm id threads pipes).map fun d => (d.tid, d.bufLen, d.bytes.length) := by
  induction threads generalizing pipes with
  | nil => rfl
  | cons t threads ih =>
    unfold deliver deliveriesFrom
    cases hreader : readerOf vm id t with
    | none =>
      dsimp only
      rw [List.zipWith_cons_cons, readResult, hreader, ← ih pipes]
      rfl
    | some bufLen =>
      dsimp only
      rw [List.zipWith_cons_cons, readResult_wake hreader, List.map_cons, ← ih]
      rfl

end KazuOS.Kernel
