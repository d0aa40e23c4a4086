import KazuOS.Kernel.State

/-! Pipes and descriptor tables. Both are guarded by the threads lock, because a
write or a close wakes the readers of the pipe. -/
namespace KazuOS.Kernel

open KazuOS.Memory KazuOS.Task

def pipe (k : Kernel) (id : Nat) : Option PipeState := k.pipes[id]?.join

def setPipe (k : Kernel) (id : Nat) (pipe : Option PipeState) : Kernel :=
  { k with pipes := k.pipes.set id pipe }

/-- Create a pipe in the first free slot, or in a new one. -/
def createPipe (k : Kernel) : Nat × Kernel :=
  let fresh : Option PipeState := some ⟨[], 0, 0⟩
  match k.pipes.findIdx? Option.isNone with
  | some id => (id, k.setPipe id fresh)
  | none => (k.pipes.length, { k with pipes := k.pipes ++ [fresh] })

def updatePipe (k : Kernel) (id : Nat) (f : PipeState → Option PipeState) : Kernel :=
  match k.pipe id with
  | some p => k.setPipe id (f p)
  | none => k

def cloneWrite (k : Kernel) (id : Nat) : Kernel :=
  k.updatePipe id fun p => some { p with writeRefs := p.writeRefs + 1 }

def cloneRead (k : Kernel) (id : Nat) : Kernel :=
  k.updatePipe id fun p => some { p with readRefs := p.readRefs + 1 }

/-- A pipe goes when its last descriptor of either kind does. -/
def dropUnreferenced (p : PipeState) : Option PipeState :=
  if p.writeRefs = 0 ∧ p.readRefs = 0 then none else some p

def closeWrite (k : Kernel) (id : Nat) : Kernel :=
  k.updatePipe id fun p => dropUnreferenced { p with writeRefs := p.writeRefs - 1 }

def closeRead (k : Kernel) (id : Nat) : Kernel :=
  k.updatePipe id fun p => dropUnreferenced { p with readRefs := p.readRefs - 1 }

def writePipe (k : Kernel) (id : Nat) (data : List UInt8) : Nat × Kernel :=
  match k.pipe id with
  | some p =>
      if p.readRefs = 0 then (0, k)
      else (data.length, k.setPipe id (some { p with data := p.data ++ data }))
  | none => (0, k)

/-- Take up to `maxLen` bytes off the front of a pipe. -/
def drain (pipes : List (Option PipeState)) (id maxLen : Nat) :
    List UInt8 × List (Option PipeState) :=
  match pipes[id]?.join with
  | some p => (p.data.take maxLen, pipes.set id (some { p with data := p.data.drop maxLen }))
  | none => ([], pipes)

def readPipe (k : Kernel) (id maxLen : Nat) : List UInt8 × Kernel :=
  let (bytes, pipes) := drain k.pipes id maxLen
  (bytes, { k with pipes })

def pipeIsEmpty (k : Kernel) (id : Nat) : Bool :=
  match k.pipe id with
  | some p => p.data.isEmpty
  | none => true

def writerClosed (k : Kernel) (id : Nat) : Bool :=
  match k.pipe id with
  | some p => p.writeRefs = 0
  | none => true

/-- The buffer length of a sleeping reader of the pipe whose buffer is still writable
in its own address space. -/
def readerOf (vm : Vmm) (pipeId : Nat) (t : Thread) : Option Nat :=
  match t.state, t.waitTarget with
  | .sleeping, .pipeRead id bufPtr bufLen =>
      if id = pipeId ∧ validateRangeIn vm (BitVec.ofNat 64 t.userContext.cr3) bufPtr bufLen true
      then some bufLen else none
  | _, _ => none

/-- The loop over the thread table: each reader takes what the pipe still holds. -/
def deliver (vm : Vmm) (mem : Memory) (pipeId : Nat) :
    Threads → List (Option PipeState) → Threads × List (Option PipeState)
  | [], pipes => ([], pipes)
  | t :: threads, pipes =>
      match readerOf vm pipeId t with
      | some bufLen =>
          let (bytes, pipes) := drain pipes pipeId bufLen
          let woken := { t with blockingRetval := bytes.length }.wake mem bytes.length
          let (threads, pipes) := deliver vm mem pipeId threads pipes
          (woken :: threads, pipes)
      | none =>
          let (threads, pipes) := deliver vm mem pipeId threads pipes
          (t :: threads, pipes)

def notifyPipeReaders (k : Kernel) (pipeId : Nat) : Kernel :=
  let (threads, pipes) := deliver k.vm k.tasks.mem pipeId k.tasks.threads k.pipes
  { k.setThreads threads with pipes }

/-! Descriptor tables, one per pid. -/

def maxFd : Nat := 1024

def table (k : Kernel) (pid : Nat) : Option (List FdEntry) := k.tables[pid]?.join

def setTable (k : Kernel) (pid : Nat) (entries : List FdEntry) : Kernel :=
  { k with tables := k.tables.set pid (some entries) }

def ensureTable (k : Kernel) (pid : Nat) : Kernel :=
  let tables := k.tables ++ List.replicate (pid + 1 - k.tables.length) none
  match tables[pid]?.join with
  | some _ => { k with tables }
  | none => { k with tables := tables.set pid (some []) }

def pipeClone (k : Kernel) : FdEntry → Kernel
  | .pipeWrite id => k.cloneWrite id
  | .pipeRead id => k.cloneRead id
  | _ => k

/-- Closing a device descriptor has no effect: the only device is the audio one. -/
def closeEntry (k : Kernel) : FdEntry → Kernel
  | .pipeWrite id => (k.closeWrite id).notifyPipeReaders id
  | .pipeRead id => k.closeRead id
  | _ => k

def getFd (k : Kernel) (pid fd : Nat) : Option FdEntry := (k.table pid).bind (·[fd]?)

def allocFdAt (k : Kernel) (pid fd : Nat) (entry : FdEntry) : Bool × Kernel :=
  if maxFd ≤ fd then (false, k) else
    let k := k.ensureTable pid
    match k.table pid with
    | some entries =>
        let entries := entries ++ List.replicate (fd + 1 - entries.length) .empty
        (true, (k.pipeClone entry).setTable pid (entries.set fd entry))
    | none => (false, k)

def allocFd (k : Kernel) (pid : Nat) (entry : FdEntry) : Option Nat × Kernel :=
  let k := k.ensureTable pid
  match k.table pid with
  | none => (none, k)
  | some entries =>
      match entries.findIdx? (· = .empty) with
      | some i => (some i, (k.pipeClone entry).setTable pid (entries.set i entry))
      | none =>
          if entries.length < maxFd then
            (some entries.length, (k.pipeClone entry).setTable pid (entries ++ [entry]))
          else (none, k)

def freeFd (k : Kernel) (pid fd : Nat) : Bool × Kernel :=
  match k.table pid with
  | none => (false, k)
  | some entries =>
      match entries[fd]? with
      | some entry => (true, (k.closeEntry entry).setTable pid (entries.set fd .empty))
      | none => (false, k)

def closeAll (k : Kernel) (pid : Nat) : Kernel :=
  match k.table pid with
  | some entries => (entries.foldl closeEntry k).setTable pid []
  | none => k

end KazuOS.Kernel
