import KazuOS.Fs.Handles
import KazuOS.Kernel.FileOffsets

/-! What is in a file. The calls through its handles make a byte string, which nothing else
changes, and descriptors read it piece by piece. -/
namespace KazuOS.Fs

open KazuOS.Lib Table
open Op (Steps call)

/-- What a file should have after a call, by its handle and what it had before. -/
def Op.reference (h : Handle) (data : List UInt8) : Op → List UInt8
  | .writeAt h' offset src => if h' = h then written data offset src else data
  | .truncate h' => if h' = h then [] else data
  | .create _ | .mkdir _ | .unlink _ | .rmdir _ => data

/-- The handle is of a file with that path and these contents. -/
def HasData (nodes : Table) (h : Handle) (path : Path) (data : List UInt8) : Prop :=
  live nodes h = some ⟨path, false, data⟩

variable {nodes nodes' : Table} {h : Handle} {path : Path} {data : List UInt8}

theorem HasData.setData (hdata : HasData nodes h path data) (data' : List UInt8) :
    HasData (setData nodes h ⟨path, false, data⟩ data') h path data' := by
  apply Arena.live_eq_some.mpr
  rw [Table.setData, Arena.getElem?_put, if_pos rfl, Arena.live_eq_some.mp hdata]
  rfl

/-- What is not done through one of its handles does not change what a file should have. -/
theorem Op.reference_other {op : Op} (hwrite : ∀ offset src, op ≠ .writeAt h offset src)
    (htruncate : op ≠ .truncate h) (data : List UInt8) : op.reference h data = data := by
  cases op with
  | writeAt h' offset src =>
    refine if_neg ?_
    rintro rfl
    exact hwrite offset src rfl
  | truncate h' =>
    refine if_neg ?_
    rintro rfl
    exact htruncate rfl
  | create | mkdir | unlink | rmdir => rfl

/-- The calls on the table do to a file what they should. -/
theorem HasData.call (hdata : HasData nodes h path data) {op : Op} (hop : op ≠ .unlink path)
    (hfits : ∀ offset src, op = .writeAt h offset src → offset + src.length < 2 ^ 64) :
    HasData (op.call nodes).2 h path (op.reference h data) := by
  by_cases hwrite : ∃ offset src, op = .writeAt h offset src
  · obtain ⟨offset, src, rfl⟩ := hwrite
    rw [Op.call, Op.reference, if_pos rfl, writeAt_of_live hdata rfl (hfits offset src rfl)]
    exact hdata.setData _
  · by_cases htruncate : op = .truncate h
    · have hcut : truncate nodes h = Table.setData nodes h ⟨path, false, data⟩ [] := by
        unfold truncate
        rw [hdata]
        rfl
      rw [htruncate, Op.call, Op.reference, if_pos rfl, hcut]
      exact hdata.setData []
    · rw [Op.reference_other (fun offset src heq => hwrite ⟨offset, src, heq⟩) htruncate]
      obtain hsame | ⟨h', data', hnode, hgeneration, hthrough, -⟩ :=
        call_node (Arena.live_eq_some.mp hdata) rfl hop
      · exact Arena.live_eq_some.mpr hsame
      · -- Handles are equal with their numbers, so that the call is one of those above.
        obtain rfl : h' = h := by
          cases h
          cases h'
          rw [Handle.mk.injEq]
          exact ⟨UInt32.toNat.inj hnode, hgeneration⟩
        exact absurd hthrough (not_or.mpr ⟨hwrite, htruncate⟩)

theorem HasData.run {ops : List Op} (run : Run Steps nodes ops nodes')
    (hdata : HasData nodes h path data) (hkept : .unlink path ∉ ops)
    (hfits : ∀ offset src, .writeAt h offset src ∈ ops → offset + src.length < 2 ^ 64) :
    HasData nodes' h path (ops.foldl (Op.reference h) data) := by
  induction run generalizing data with
  | nil nodes => exact hdata
  | @cons nodes next nodes' op ops head tail ih =>
    subst head
    refine ih ?_ (fun hmem => hkept (List.mem_cons_of_mem _ hmem))
      fun offset src hmem => hfits offset src (List.mem_cons_of_mem _ hmem)
    apply hdata.call
    · rintro rfl
      exact hkept List.mem_cons_self
    · rintro offset src rfl
      exact hfits offset src List.mem_cons_self

/-- Pieces of a byte string one after another. -/
def consecutive (data : List UInt8) : List Nat → List (List UInt8)
  | [] => []
  | len :: rest => data.take len :: consecutive (data.drop len) rest

/-- Pieces up to the first empty one are all of it. -/
theorem flatten_consecutive {lens : List Nat} (hlens : ∀ len ∈ lens, 0 < len)
    {data : List UInt8} (hend : [] ∈ consecutive data lens) :
    ((consecutive data lens).takeWhile (· ≠ [])).flatten = data := by
  induction lens generalizing data with
  | nil => cases hend
  | cons len rest ih =>
    have hpos := hlens len List.mem_cons_self
    rw [consecutive] at hend ⊢
    by_cases hnil : data = []
    · rw [hnil, List.take_nil, List.takeWhile_cons_of_neg (by simp)]
      rfl
    · have hpiece : data.take len ≠ [] := by
        rw [Ne, List.take_eq_nil_iff]
        rintro (hzero | hnil')
        · omega
        · exact hnil hnil'
      have hrest : [] ∈ consecutive (data.drop len) rest :=
        (List.mem_cons.mp hend).resolve_left (Ne.symm hpiece)
      rw [List.takeWhile_cons_of_pos (by simpa using hpiece), List.flatten_cons,
        ih (fun n hn => hlens n (List.mem_cons_of_mem _ hn)) hrest, List.take_append_drop]

end KazuOS.Fs

namespace KazuOS.FileKernel

open Kernel Fs

/-- What a read of a file copies to the buffer. -/
def bytesRead (s : FileKernel) (pid fd len : Nat) : List UInt8 :=
  match s.getFd pid fd with
  | some (.file node generation offset) =>
      s.nodes.readAt (handleOf node generation) offset len
  | _ => []

/-- Reads of a descriptor one after another: what each returns, and the bytes it copies. -/
def reads (s : FileKernel) (cpu fd : Nat) : List (Nat × Nat) → List (Nat × List UInt8)
  | [] => []
  | (bufPtr, bufLen) :: rest =>
      ((s.sysRead cpu fd bufPtr bufLen).1, s.bytesRead (s.callerPid cpu) fd bufLen) ::
        (s.sysRead cpu fd bufPtr bufLen).2.reads cpu fd rest

/-- A buffer that the caller may have filled. -/
def CanFill (s : FileKernel) (cpu : Nat) (buffer : Nat × Nat) : Prop :=
  buffer.1 ≠ 0 ∧ 0 < buffer.2 ∧ s.validateRange cpu buffer.1 buffer.2 true = true

variable {s : FileKernel} {cpu fd offset : Nat} {h : Handle} {path : Path} {data : List UInt8}

theorem handleOf_toNat (h : Handle) : handleOf h.node.toNat h.generation.toNat = h := by
  simp [handleOf]

theorem bytesRead_file (hfd : s.getFd (s.callerPid cpu) fd = some (fileEntry h offset))
    (hdata : HasData s.nodes h path data) (len : Nat) :
    s.bytesRead (s.callerPid cpu) fd len = (data.drop offset).take len := by
  unfold bytesRead
  rw [hfd, fileEntry]
  dsimp only
  rw [handleOf_toNat, readAt_of_live hdata rfl]

/-- A read moves the offset of the descriptor on, and nothing else. -/
theorem sysRead_file (hfd : s.getFd (s.callerPid cpu) fd = some (fileEntry h offset))
    (hdata : HasData s.nodes h path data) {buffer : Nat × Nat} (hfill : s.CanFill cpu buffer) :
    ∃ tables, s.sysRead cpu fd buffer.1 buffer.2 =
        (((data.drop offset).take buffer.2).length, { s with tables }) ∧
      ({ s with tables } : FileKernel).getFd (s.callerPid cpu) fd =
        some (fileEntry h (offset + ((data.drop offset).take buffer.2).length)) := by
  obtain ⟨hptr, hlen, hvalid⟩ := hfill
  have havailable : s.available (s.callerPid cpu) fd buffer.2 =
      ((data.drop offset).take buffer.2).length := by
    rw [← bytesRead_file hfd hdata]
    unfold available bytesRead
    rw [hfd]
    rfl
  have hmin : min buffer.2 ((data.drop offset).take buffer.2).length =
      ((data.drop offset).take buffer.2).length := by
    rw [List.length_take]
    omega
  have hread : s.sysRead cpu fd buffer.1 buffer.2 =
      ((s.readFile (s.callerPid cpu) fd h.node.toNat h.generation.toNat offset
        ((data.drop offset).take buffer.2).length).1,
        { s with toKernel := (s.readFile (s.callerPid cpu) fd h.node.toNat h.generation.toNat offset
          ((data.drop offset).take buffer.2).length).2 }) := by
    unfold sysRead
    rw [havailable, Kernel.sysRead, if_neg (not_or.mpr ⟨hptr, Nat.ne_of_gt hlen⟩), hvalid]
    simp only [Bool.not_true, Bool.false_eq_true, if_false, hfd, fileEntry, hmin]
  rw [hread]
  generalize ((data.drop offset).take buffer.2).length = count
  unfold readFile
  by_cases hzero : count = 0
  · rw [if_pos hzero, hzero]
    exact ⟨s.tables, rfl, hfd⟩
  · rw [if_neg hzero]
    cases htable : s.table (s.callerPid cpu) with
    | none =>
      rw [getFd, htable] at hfd
      cases hfd
    | some entries =>
      have hlt : fd < entries.length :=
        (List.getElem?_eq_some_iff.mp ((getFd_of_table htable fd).symm.trans hfd)).1
      refine ⟨s.tables.set (s.callerPid cpu)
        (some (entries.set fd (fileEntry h (offset + count)))), rfl, ?_⟩
      exact (getFd_of_table (table_setTable_self htable _) fd).trans (List.getElem?_set_self hlt)

theorem reads_file (hfd : s.getFd (s.callerPid cpu) fd = some (fileEntry h offset))
    (hdata : HasData s.nodes h path data) {buffers : List (Nat × Nat)}
    (hfill : ∀ buffer ∈ buffers, s.CanFill cpu buffer) :
    s.reads cpu fd buffers =
      (consecutive (data.drop offset) (buffers.map (·.2))).map fun piece => (piece.length, piece) := by
  induction buffers generalizing s offset with
  | nil => rfl
  | cons buffer rest ih =>
    obtain ⟨tables, hread, hfd'⟩ := sysRead_file hfd hdata (hfill buffer List.mem_cons_self)
    have hnext : data.drop (offset + ((data.drop offset).take buffer.2).length) =
        (data.drop offset).drop buffer.2 := by
      rw [List.drop_drop, List.length_take, List.length_drop]
      obtain hle | hle := Nat.le_total buffer.2 (data.length - offset)
      · rw [Nat.min_eq_left hle]
      · rw [Nat.min_eq_right hle, List.drop_eq_nil_of_le (by omega),
          List.drop_eq_nil_of_le (by omega)]
    have hrest := @ih { s with tables } _ hfd' hdata
      fun buffer hmem => hfill buffer (List.mem_cons_of_mem _ hmem)
    rw [hnext] at hrest
    rw [reads, hread, bytesRead_file hfd hdata]
    dsimp only
    rw [hrest]
    rfl

/-- A file has what was last written where, through whichever handle and whatever was done to
others; a descriptor reads it from its offset to the end. -/
theorem file_reads_back {nodes nodes' : Table} {ops : List Op} (hdata : HasData nodes h path data)
    (run : Lib.Run Op.Steps nodes ops nodes') (hkept : .unlink path ∉ ops)
    (hfits : ∀ offset src, .writeAt h offset src ∈ ops → offset + src.length < 2 ^ 64) :
    let now := ops.foldl (Op.reference h) data
    (∀ offset len, nodes'.readAt h offset len = (now.drop offset).take len ∧
      (nodes'.readAt h offset len).length = min len (now.length - offset)) ∧
    ∀ (s : FileKernel) (cpu fd offset : Nat) (buffers : List (Nat × Nat)), s.nodes = nodes' →
      s.getFd (s.callerPid cpu) fd = some (fileEntry h offset) →
      (∀ buffer ∈ buffers, s.CanFill cpu buffer) →
      let pieces := consecutive (now.drop offset) (buffers.map (·.2))
      s.reads cpu fd buffers = pieces.map (fun piece => (piece.length, piece)) ∧
        ([] ∈ pieces → (pieces.takeWhile (· ≠ [])).flatten = now.drop offset) := by
  intro now
  have hnow : HasData nodes' h path now := hdata.run run hkept hfits
  refine ⟨fun offset len => ?_, ?_⟩
  · have hread : nodes'.readAt h offset len = (now.drop offset).take len :=
      readAt_of_live hnow rfl offset len
    rw [hread, List.length_take, List.length_drop]
    exact ⟨rfl, rfl⟩
  · rintro s cpu fd offset buffers rfl hfd hfill
    refine ⟨reads_file hfd hnow hfill, flatten_consecutive ?_⟩
    intro len hlen
    obtain ⟨buffer, hmem, rfl⟩ := List.mem_map.mp hlen
    exact (hfill buffer hmem).2.1

/-- An empty file gets a byte beyond its end, and then there is another file. -/
def oneFile : Table := [⟨0, some ⟨root, true, []⟩⟩, ⟨0, some ⟨asBytes "/a", false, []⟩⟩]

def gapFile : Table :=
  (Op.call (Op.call oneFile (.writeAt ⟨1, 0⟩ 2 [5])).2 (.create (asBytes "/b"))).2

/-- A process that has it open. -/
def gapReader : FileKernel :=
  { smallBoot with nodes := gapFile, tables := [none, some [fileEntry ⟨1, 0⟩ 0]] }

theorem file_reads_back_gap : gapFile.readAt ⟨1, 0⟩ 0 8 = [0, 0, 5] ∧
    gapReader.reads 0 0 (List.replicate 3 (0x8000000000, 2)) =
      [(2, [0, 0]), (1, [5]), (0, [])] := by
  have hdata : HasData oneFile ⟨1, 0⟩ (asBytes "/a") [] := by
    unfold HasData
    decide
  have hrun : Lib.Run Op.Steps oneFile [.writeAt ⟨1, 0⟩ 2 [5], .create (asBytes "/b")] gapFile :=
    .cons rfl (.cons rfl (.nil _))
  have hfits : ∀ offset src, .writeAt ⟨1, 0⟩ offset src ∈
      [Op.writeAt ⟨1, 0⟩ 2 [5], .create (asBytes "/b")] → offset + src.length < 2 ^ 64 := by
    intro offset src hmem
    obtain hwrite | hmem := List.mem_cons.mp hmem
    · cases hwrite
      decide
    · cases List.mem_singleton.mp hmem
  have hback := file_reads_back hdata hrun (by decide) hfits
  refine ⟨(hback.1 0 8).1, (hback.2 gapReader 0 0 0 _ rfl (by decide) ?_).1⟩
  intro buffer hmem
  rw [List.eq_of_mem_replicate hmem]
  exact ⟨by decide, by decide, by decide⟩

end KazuOS.FileKernel
