import KazuOS.Fs.Path
import KazuOS.Lib.Arena

/-! The writable root filesystem: a flat table of nodes under one lock, so that every
call here is atomic. The kernel heap is taken to be large enough. -/
namespace KazuOS.Fs

open KazuOS.Lib

structure Node where
  path : Path
  isDir : Bool
  data : List UInt8
  deriving DecidableEq, Repr

abbrev Table := Arena Node

/-- Only the root directory, which always exists. -/
def rootOnly : Table := [⟨0, some ⟨root, true, []⟩⟩]

/-- What a descriptor keeps of a file. The position is cut to 32 bits. -/
structure Handle where
  node : UInt32
  generation : UInt32
  deriving DecidableEq, Repr

inductive VfsNode where
  | file (handle : Handle) (len : Nat)
  | dir
  | device (name : Path)
  deriving DecidableEq, Repr

inductive FileType where
  | file
  | directory
  deriving DecidableEq, Repr

def pathCap : Nat := 96

/-- A line of a listing. It has no room for more than the first bytes of a path. -/
structure DirEntry where
  path : List UInt8
  kind : FileType
  len : Nat
  deriving DecidableEq, Repr

def Node.kind (n : Node) : FileType := if n.isDir then .directory else .file

def Node.dirEntry (n : Node) : DirEntry := ⟨n.path.take pathCap, n.kind, n.data.length⟩

namespace Table

/-- The node with a path, its position and its generation. -/
def find (nodes : Table) (path : Path) : Option (Nat × UInt32 × Node) :=
  nodes.position (·.path = path)

/-! Lookups. -/

def lookup (nodes : Table) (devices : List Path) (path : Path) : Except FsError VfsNode := do
  validatePath path
  if asBytes "/dev/" <+: path ∧ path ∈ devices then return .device path
  match find nodes path with
  | none => throw .notFound
  | some (id, generation, n) =>
      if n.isDir then return .dir
      else return .file ⟨UInt32.ofNat id, generation⟩ n.data.length

/-- The loop of `read_dir` with room for so many entries. -/
def children (path : Path) : Nat → List Node → Except FsError (List DirEntry)
  | _, [] => .ok []
  | room, n :: rest =>
      if !isChild path n.path then children path room rest else
        match room with
        | 0 => .error .bufferTooSmall
        | room + 1 => (children path room rest).map (n.dirEntry :: ·)

def readDir (nodes : Table) (path : Path) (room : Nat) : Except FsError (List DirEntry) := do
  validatePath path
  match find nodes path with
  | none => throw .notFound
  | some (_, _, n) =>
      if !n.isDir then throw .notADirectory else children path room nodes.nodes

/-! Reading and writing through a handle. -/

def live (nodes : Table) (h : Handle) : Option Node := Arena.live nodes h.node.toNat h.generation

/-- The bytes copied to a buffer of a given length. -/
def readAt (nodes : Table) (h : Handle) (offset len : Nat) : List UInt8 :=
  match live nodes h with
  | none => []
  | some n =>
      if n.isDir ∨ n.data.length ≤ offset then []
      else (n.data.drop offset).take len

def setData (nodes : Table) (h : Handle) (n : Node) (data : List UInt8) : Table :=
  nodes.put h.node.toNat (some { n with data })

def truncate (nodes : Table) (h : Handle) : Table :=
  match live nodes h with
  | none => nodes
  | some n => if n.isDir then nodes else setData nodes h n []

/-- No count is returned if the end wraps around: the file may have been extended by
then, but its slice is out of order and the kernel panics. -/
def writeAt (nodes : Table) (h : Handle) (offset : Nat) (src : List UInt8) : Option Nat × Table :=
  match live nodes h with
  | none => (some 0, nodes)
  | some n =>
      if n.isDir then (some 0, nodes) else
        let stop := (offset + src.length) % 2 ^ 64
        let data := n.data ++ List.replicate (stop - n.data.length) 0
        if stop < offset then (none, setData nodes h n data)
        else (some src.length, setData nodes h n (data.take offset ++ src ++ data.drop stop))

/-! Making and removing nodes. -/

def make (nodes : Table) (path : Path) (isDir : Bool) : Except FsError Handle × Table :=
  match validatePath path with
  | .error e => (.error e, nodes)
  | .ok () =>
      if path = root then (.error .alreadyExists, nodes)
      else if (find nodes path).isSome then (.error .alreadyExists, nodes)
      else
        match find nodes (parentOf path) with
        | none => (.error .notFound, nodes)
        | some (_, _, parent) =>
            if !parent.isDir then (.error .notADirectory, nodes) else
              let ((id, generation), nodes) := nodes.insert ⟨path, isDir, []⟩
              (.ok ⟨UInt32.ofNat id, generation⟩, nodes)

def create (nodes : Table) (path : Path) : Except FsError Handle × Table := make nodes path false

def mkdir (nodes : Table) (path : Path) : Except FsError Unit × Table :=
  let (result, nodes) := make nodes path true
  (result.map fun _ => (), nodes)

def unlink (nodes : Table) (path : Path) : Except FsError Unit × Table :=
  match validatePath path with
  | .error e => (.error e, nodes)
  | .ok () =>
      match find nodes path with
      | none => (.error .notFound, nodes)
      | some (id, _, n) =>
          if n.isDir then (.error .notAFile, nodes) else (.ok (), nodes.put id none)

def rmdir (nodes : Table) (path : Path) : Except FsError Unit × Table :=
  match validatePath path with
  | .error e => (.error e, nodes)
  | .ok () =>
      if path = root then (.error .notEmpty, nodes) else
        match find nodes path with
        | none => (.error .notFound, nodes)
        | some (id, _, n) =>
            if !n.isDir then (.error .notADirectory, nodes)
            else if nodes.nodes.any fun c => isChild path c.path then (.error .notEmpty, nodes)
            else (.ok (), nodes.put id none)

end Table

end KazuOS.Fs
