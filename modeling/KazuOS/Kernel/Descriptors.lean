import KazuOS.Fs.Image
import KazuOS.Kernel.Exit
import KazuOS.Kernel.Blocking

/-! The syscalls on descriptors: pipes, files and devices, and the standard descriptors a
new process inherits. User memory is not modelled, so a call gets the bytes it reads there
as an argument. -/
namespace KazuOS

open KazuOS.Memory KazuOS.Task

namespace Kernel

def setFd (k : Kernel) (pid fd : Nat) (entry : FdEntry) : Bool × Kernel :=
  match k.table pid with
  | some entries =>
      if fd < entries.length then (true, k.setTable pid (entries.set fd entry)) else (false, k)
  | none => (false, k)

/-- Take back a descriptor that was handed out. -/
def freeFd? (k : Kernel) (pid : Nat) : Option Nat → Kernel
  | some fd => (k.freeFd pid fd).2
  | none => k

/-- Both descriptors, or none, of a new pipe. Their numbers go to `outPtr`. -/
def sysPipe (k : Kernel) (cpu outPtr : Nat) : Nat × Kernel :=
  let caller := k.callerPid cpu
  let (pipeId, k) := k.createPipe
  let (readFd, k) := k.allocFd caller (.pipeRead pipeId)
  let (writeFd, k) := k.allocFd caller (.pipeWrite pipeId)
  if readFd.isSome ∧ writeFd.isSome ∧ (outPtr = 0 ∨ k.validateRange cpu outPtr 16 true) then (0, k)
  else (failure, (k.freeFd? caller readFd).freeFd? caller writeFd)

def sysClose (k : Kernel) (cpu fd : Nat) : Nat × Kernel :=
  match k.freeFd (k.callerPid cpu) fd with
  | (true, k) => (0, k)
  | (false, k) => (failure, k)

/-! The audio device takes its data in messages. -/

def deviceChunk : Nat := 8192

def audioWrite (k : Kernel) (buf : List UInt8) : Nat × Kernel :=
  if buf = [] ∨ 8191 < buf.length then (0, k) else
    match k.sendAudio 2 buf with
    | (.ok, k) => (buf.length, k)
    | (_, k) => (0, k)

/-- The loop over the chunks of a buffer. It ends with the first that is not taken. -/
def writeDevice : Nat → Kernel → List UInt8 → Nat × Kernel
  | 0, k, _ => (0, k)
  | fuel + 1, k, data =>
      if data = [] then (0, k) else
        let chunk := data.take deviceChunk
        match k.audioWrite chunk with
        | (0, k) => (0, k)
        | (written, k) =>
            if written < chunk.length then (written, k) else
              let (more, k) := writeDevice fuel k (data.drop deviceChunk)
              (written + more, k)

/-! New processes. -/

/-- A program in an address space of its own: the page tables and free frames once that is
built, and the frames of code and stack. -/
structure Loaded where
  vm : Vmm
  pmm : Pmm
  frames : List (Nat × Nat)
  codeSize : Nat
  stack : Option Nat
  entry : Nat
  userStackTop : Nat
  cr3 : Nat
  argc : Nat
  argv : Nat

def userStackSize : Nat := 0x10000

def setMemoryBytes (ts : Tasks) (pid bytes : Nat) : Tasks :=
  ts.updateProcess pid fun p => { p with memoryBytes := bytes }

/-- `spawn_kxe`, for every privilege. Nothing is loaded if the file is missing or no program, or if
memory is short. -/
def spawnKxe (k : Kernel) (privilege : PrivilegeLevel) : Option Loaded → Nat × Kernel
  | none => (0, k)
  | some l =>
      let (pid, tasks) :=
        k.tasks.spawnUserProcess l.stack l.entry l.userStackTop l.cr3 privilege l.argc l.argv
      if pid = 0 then
        (0, { k with
          tasks
          vm := l.vm
          pmm := l.frames.foldl (fun pmm (phys, pages) => pmm.freeFrames phys pages) l.pmm })
      else
        (pid, { k with
          tasks := setMemoryBytes tasks pid (l.codeSize + userStackSize)
          vm := l.vm
          pmm := l.pmm
          imageAllocs := k.imageAllocs ++ l.frames.map fun (phys, pages) => ⟨pid, phys, pages⟩ })

def spawnUser (k : Kernel) (loaded : Option Loaded) : Nat × Kernel := k.spawnKxe .user loaded

def noFd : Nat := 0xFFFF

/-- A descriptor of the caller, or the console. -/
def stdioEntry (k : Kernel) (caller fd : Nat) (console : FdEntry) : FdEntry :=
  if fd = noFd then console else (k.getFd caller fd).getD console

def consoleStdio (k : Kernel) (pid : Nat) : Kernel :=
  let k := (k.allocFdAt pid 0 .consoleIn).2
  let k := (k.allocFdAt pid 1 .consoleOut).2
  (k.allocFdAt pid 2 .consoleOut).2

def inheritStdio (k : Kernel) (pid caller stdinFd stdoutFd : Nat) : Kernel :=
  let k := (k.allocFdAt pid 2 .consoleOut).2
  let k := (k.allocFdAt pid 0 (k.stdioEntry caller stdinFd .consoleIn)).2
  (k.allocFdAt pid 1 (k.stdioEntry caller stdoutFd .consoleOut)).2

def installStdio (k : Kernel) (pid caller stdinFd stdoutFd : Nat) : Kernel :=
  if stdinFd = noFd ∧ stdoutFd = noFd then k.consoleStdio pid
  else k.inheritStdio pid caller stdinFd stdoutFd

def stdioCtty : Nat := 48

/-- The controlling terminal of a child is the caller's standard input. -/
def inheritCtty (k : Kernel) (pid caller stdioPack : Nat) : Kernel :=
  if stdioPack.testBit stdioCtty then
    match k.getFd caller 0 with
    | some tty => (k.allocFdAt pid 3 tty).2
    | none => k
  else k

def sysExec (k : Kernel) (cpu ptr len : Nat) (loaded : Option Loaded) (stdioPack : Nat) :
    Nat × Kernel :=
  if ptr = 0 ∨ len = 0 then (failure, k)
  else if !k.validateRange cpu ptr len false then (failure, k)
  else
    let stdinFd := stdioPack % 2 ^ 16
    let stdoutFd := stdioPack / 2 ^ 16 % 2 ^ 16
    let caller := k.callerPid cpu
    let (pid, k) := k.spawnUser loaded
    if pid = 0 then (pid, k) else
      let k := k.installStdio pid caller stdinFd stdoutFd
      if pid = failure then (pid, k) else
        let k := k.onTasks (·.setParent pid caller)
        (pid, (k.inheritCtty pid caller stdioPack).onTasks (·.setReady pid))

end Kernel

/-- The kernel with its root filesystem and the names of its devices. -/
structure FileKernel extends Kernel where
  nodes : Fs.Table
  devices : List Fs.Path

namespace FileKernel

open Kernel

def maxPath : Nat := 256

def readUserPath (k : Kernel) (cpu ptr : Nat) (bytes : List UInt8) : Option Fs.Path :=
  if ptr = 0 ∨ bytes = [] ∨ maxPath < bytes.length then none
  else if k.validateRange cpu ptr bytes.length false then (Fs.fromUtf8 bytes).toOption
  else none

def install (s : FileKernel) (cpu : Nat) (entry : FdEntry) : Nat × FileKernel :=
  match s.allocFd (s.callerPid cpu) entry with
  | (some fd, k) => (fd, { s with toKernel := k })
  | (none, k) => (failure, { s with toKernel := k })

def fileEntry (h : Fs.Handle) (offset : Nat) : FdEntry :=
  .file h.node.toNat h.generation.toNat offset

def audioHandle : Nat := 1

def sysOpen (s : FileKernel) (cpu ptr : Nat) (bytes : List UInt8) : Nat × FileKernel :=
  match readUserPath s.toKernel cpu ptr bytes with
  | none => (failure, s)
  | some path =>
      match s.nodes.lookup s.devices path with
      | .ok (.device _) => s.install cpu (.device audioHandle)
      | .ok (.file h _) => s.install cpu (fileEntry h 0)
      | .ok .dir => (failure, s)
      | .error _ => (failure, s)

/-- A file that exists is emptied. -/
def sysCreate (s : FileKernel) (cpu ptr : Nat) (bytes : List UInt8) : Nat × FileKernel :=
  match readUserPath s.toKernel cpu ptr bytes with
  | none => (failure, s)
  | some path =>
      match s.nodes.create path with
      | (.ok h, nodes) => { s with nodes }.install cpu (fileEntry h 0)
      | (.error .alreadyExists, nodes) =>
          match nodes.lookup s.devices path with
          | .ok (.file h _) => { s with nodes := nodes.truncate h }.install cpu (fileEntry h 0)
          | _ => (failure, { s with nodes })
      | (.error _, nodes) => (failure, { s with nodes })

def handleOf (node generation : Nat) : Fs.Handle := ⟨UInt32.ofNat node, UInt32.ofNat generation⟩

/-- What the file behind a descriptor has for a buffer of some length. -/
def available (s : FileKernel) (pid fd len : Nat) : Nat :=
  match s.getFd pid fd with
  | some (.file node generation offset) =>
      (s.nodes.readAt (handleOf node generation) offset len).length
  | _ => 0

def sysRead (s : FileKernel) (cpu fd bufPtr bufLen : Nat) : Nat × FileKernel :=
  let (count, k) :=
    s.toKernel.sysRead cpu fd bufPtr bufLen (s.available (s.callerPid cpu) fd bufLen)
  (count, { s with toKernel := k })

/-- No count is returned if the kernel panics. -/
def writeFile (s : FileKernel) (pid fd node generation offset : Nat) (data : List UInt8) :
    Option Nat × FileKernel :=
  match s.nodes.writeAt (handleOf node generation) offset data with
  | (none, nodes) => (none, { s with nodes })
  | (some count, nodes) =>
      (some count,
        { s with
          toKernel := (s.setFd pid fd (.file node generation (offset + count))).2
          nodes })

def writePipeEnd (k : Kernel) (id : Nat) (data : List UInt8) : Nat × Kernel :=
  let (count, k) := k.writePipe id data
  (count, k.notifyPipeReaders id)

def sysWrite (s : FileKernel) (cpu fd bufPtr : Nat) (data : List UInt8) : Option Nat × FileKernel :=
  if bufPtr = 0 ∨ data = [] then (some 0, s)
  else if !s.validateRange cpu bufPtr data.length false then (some failure, s)
  else
    match s.getFd (s.callerPid cpu) fd with
    | some .consoleOut => (some data.length, s)
    | some (.pipeWrite id) =>
        let (count, k) := writePipeEnd s.toKernel id data
        (some count, { s with toKernel := k })
    | some (.file node generation offset) =>
        s.writeFile (s.callerPid cpu) fd node generation offset data
    | some (.device _) =>
        let (count, k) := writeDevice data.length s.toKernel data
        (some count, { s with toKernel := k })
    | _ => (some failure, s)

/-- The calls that make, use or drop descriptors. A call made by a thread that must not
return is the end of its process. -/
inductive FdCall where
  | pipe (outPtr : Nat)
  | close (fd : Nat)
  | openFile (ptr : Nat) (bytes : List UInt8)
  | create (ptr : Nat) (bytes : List UInt8)
  | read (fd bufPtr bufLen : Nat)
  | write (fd bufPtr : Nat) (data : List UInt8)
  | exec (ptr len : Nat) (loaded : Option Loaded) (stdioPack : Nat)
  | exit

/-- A call of the kernel proper leaves the filesystem alone. -/
def onKernel (s : FileKernel) (f : Kernel → Nat × Kernel) : Option Nat × FileKernel :=
  let (result, k) := f s.toKernel
  (some result, { s with toKernel := k })

def call (s : FileKernel) (cpu : Nat) : FdCall → Option Nat × FileKernel
  | .pipe outPtr => s.onKernel (·.sysPipe cpu outPtr)
  | .close fd => s.onKernel (·.sysClose cpu fd)
  | .openFile ptr bytes =>
      let (result, s) := s.sysOpen cpu ptr bytes
      (some result, s)
  | .create ptr bytes =>
      let (result, s) := s.sysCreate cpu ptr bytes
      (some result, s)
  | .read fd bufPtr bufLen =>
      let (result, s) := s.sysRead cpu fd bufPtr bufLen
      (some result, s)
  | .write fd bufPtr data => s.sysWrite cpu fd bufPtr data
  | .exec ptr len loaded stdioPack => s.onKernel (·.sysExec cpu ptr len loaded stdioPack)
  | .exit => s.onKernel fun k => (exitToKernel, k.exitCurrent cpu)

end FileKernel

end KazuOS
