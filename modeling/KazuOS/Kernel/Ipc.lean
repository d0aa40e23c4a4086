import KazuOS.Kernel.State

/-! Channels, the audio device on top of them, and key bytes. A channel keeps the
pids that wait on it; waking a pid wakes its main thread. -/
namespace KazuOS.Kernel

open KazuOS.Memory KazuOS.Task

def maxChannels : Nat := 32
def maxMsgSize : Nat := 8192
def maxQueue : Nat := 8
def nameLen : Nat := 32

/-- A channel id is its slot's index plus one. -/
def slot (k : Kernel) (channelId : Nat) : Option Channel :=
  if channelId = 0 then none else k.channels[channelId - 1]?.join

def setSlot (k : Kernel) (channelId : Nat) (channel : Option Channel) : Kernel :=
  { k with channels := k.channels.set (channelId - 1) channel }

def wakeupIpcWaiter (k : Kernel) (pid retval : Nat) : Kernel :=
  { k with tasks := k.tasks.wakeupIpcWaiter pid retval }

/-- Put the main thread of a process to sleep on a channel. -/
def sleepOnChannel (k : Kernel) (pid channelId : Nat) : Kernel :=
  { k with tasks := (k.tasks.setWaitTarget pid (.ipc channelId)).setSleeping pid }

def openChannel (k : Kernel) (name : List UInt8) : Nat × Kernel :=
  if name = [] ∨ nameLen < name.length then (failure, k) else
    let named := fun c : Option Channel => (c.map (·.name)) = some name
    match k.channels.findIdx? named, (k.channels.find? named).join with
    | some i, some c => (i + 1, k.setSlot (i + 1) (some { c with refCount := c.refCount + 1 }))
    | _, _ =>
        let channel : Channel := ⟨name, [], [], [], 1⟩
        match k.channels.findIdx? Option.isNone with
        | some i => (i + 1, k.setSlot (i + 1) (some channel))
        | none =>
            if maxChannels ≤ k.channels.length then (failure, k)
            else (k.channels.length + 1, { k with channels := k.channels ++ [some channel] })

inductive SendResult where
  | ok
  | block
  | error
  deriving DecidableEq, Repr

/-- Append a message and wake the receiver that has waited longest. -/
def enqueue (k : Kernel) (channelId : Nat) (c : Channel) (data : List UInt8) : Kernel :=
  match c.recvWaiters with
  | [] => k.setSlot channelId (some { c with queue := c.queue ++ [data] })
  | pid :: waiters =>
      let c := { c with queue := c.queue ++ [data], recvWaiters := waiters }
      (k.setSlot channelId (some c)).wakeupIpcWaiter pid 0

def trySendReliable (k : Kernel) (channelId : Nat) (data : List UInt8) : SendResult × Kernel :=
  if maxMsgSize < data.length then (.error, k) else
    match k.slot channelId with
    | none => (.error, k)
    | some c =>
        if maxQueue ≤ c.queue.length then (.block, k) else (.ok, k.enqueue channelId c data)

/-- The oldest messages make room in a full queue. -/
def trySend (k : Kernel) (channelId : Nat) (data : List UInt8) : SendResult × Kernel :=
  if maxMsgSize < data.length then (.error, k) else
    match k.slot channelId with
    | none => (.error, k)
    | some c =>
        let queue := c.queue.drop (c.queue.length + 1 - maxQueue)
        (.ok, k.enqueue channelId { c with queue } data)

def waitSendSpace (k : Kernel) (channelId pid : Nat) : Bool × Kernel :=
  match k.slot channelId with
  | none => (false, k)
  | some c =>
      if c.queue.length < maxQueue then (false, k)
      else if pid ≠ 0 ∧ pid ∉ c.sendWaiters then
        let c := { c with sendWaiters := c.sendWaiters ++ [pid] }
        (true, (k.setSlot channelId (some c)).sleepOnChannel pid channelId)
      else (true, k)

inductive RecvResult where
  | ok (message : List UInt8)
  | block
  | error
  deriving DecidableEq, Repr

/-- Take the first message off a channel and wake the sender that has waited longest. -/
def dequeue (k : Kernel) (channelId : Nat) (c : Channel) (rest : List (List UInt8)) : Kernel :=
  match c.sendWaiters with
  | [] => k.setSlot channelId (some { c with queue := rest })
  | pid :: waiters =>
      let c := { c with queue := rest, sendWaiters := waiters }
      (k.setSlot channelId (some c)).wakeupIpcWaiter pid 0

def tryRecv (k : Kernel) (channelId bufLen pid : Nat) : RecvResult × Kernel :=
  match k.slot channelId with
  | none => (.error, k)
  | some c =>
      match c.queue with
      | [] =>
          if pid ≠ 0 then
            let c := { c with recvWaiters := c.recvWaiters ++ [pid] }
            (.block, (k.setSlot channelId (some c)).sleepOnChannel pid channelId)
          else (.block, k)
      | message :: rest => (.ok (message.take bufLen), k.dequeue channelId c rest)

def tryRecvNonblock (k : Kernel) (channelId bufLen : Nat) : RecvResult × Kernel :=
  match k.slot channelId with
  | none => (.error, k)
  | some c =>
      match c.queue with
      | [] => (.block, k)
      | message :: rest => (.ok (message.take bufLen), k.dequeue channelId c rest)

def abortSenders (k : Kernel) (channelId : Nat) : Kernel :=
  match k.slot channelId with
  | none => k
  | some c =>
      let k := k.setSlot channelId (some { c with queue := [], sendWaiters := [] })
      c.sendWaiters.foldl (fun k pid => k.wakeupIpcWaiter pid 0) k

def closeChannel (k : Kernel) (channelId : Nat) : Kernel :=
  match k.slot channelId with
  | none => k
  | some c =>
      if 1 < c.refCount then k.setSlot channelId (some { c with refCount := c.refCount - 1 })
      else if c.queue ≠ [] then k.setSlot channelId (some { c with refCount := 0 })
      else k.setSlot channelId none

/-! The audio device. -/

def driverStopped (k : Kernel) : Kernel :=
  { k with audioOnline := false }.abortSenders k.audioChannel

def sendAudio (k : Kernel) (command : UInt8) (data : List UInt8) : SendResult × Kernel :=
  if k.audioOnline then k.trySendReliable k.audioChannel (command :: data) else (.error, k)

/-- The four bytes of a sample rate, lowest first. -/
def frequencyBytes (arg : Nat) : List UInt8 :=
  (List.range 4).map fun i => UInt8.ofNat (arg / 256 ^ i)

def audioStatus : SendResult × Kernel → Nat × Kernel
  | (.ok, k) => (0, k)
  | (_, k) => (failure, k)

def audioIoctl (k : Kernel) (cpu cmd arg : Nat) : Nat × Kernel :=
  match cmd with
  | 0 => audioStatus (k.sendAudio 0 [])
  | 1 => audioStatus (k.sendAudio 3 (frequencyBytes arg))
  | 2 => audioStatus (k.sendAudio 1 [if arg = 1 then 1 else 2])
  | 3 =>
      if k.audioOnline then
        match k.waitSendSpace k.audioChannel (k.callerPid cpu) with
        | (true, k) => (blockToScheduler, k)
        | (false, k) => (0, k)
      else (failure, k)
  | _ => (failure, k)

/-! Key bytes. -/

def bufSize : Nat := 1024

def bufferByte (k : Kernel) (ch : UInt8) : Kernel :=
  let kb := k.keyboard
  let next := (kb.head + 1) % bufSize
  if next = kb.tail then k
  else { k with keyboard := { kb with buf := Function.update kb.buf kb.head ch, head := next } }

def getRaw (k : Kernel) : Option UInt8 × Kernel :=
  let kb := k.keyboard
  if kb.head = kb.tail then (none, k)
  else (some (kb.buf kb.tail), { k with keyboard := { kb with tail := (kb.tail + 1) % bufSize } })

def flushKeyboard (k : Kernel) : Kernel :=
  { k with keyboard := { k.keyboard with head := 0, tail := 0 } }

def kbdLockedOut (k : Kernel) (cpu : Nat) : Bool :=
  match k.fbOwner with
  | some owner => owner ≠ k.callerPid cpu
  | none => false

end KazuOS.Kernel
