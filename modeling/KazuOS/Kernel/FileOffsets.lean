import KazuOS.Kernel.FdRuns

/-! Reads and writes of files in their sections. A call looks its descriptor up, moves bytes,
and stores the new offset; the descriptor can change hands in between. -/
namespace KazuOS

open KazuOS.Lib

namespace Kernel

variable {k : Kernel} {pid fd : Nat}

/-! One descriptor among all. -/

theorem getFd_congr {k' : Kernel} {pid : Nat} (h : k'.table pid = k.table pid) (fd : Nat) :
    k'.getFd pid fd = k.getFd pid fd := by
  unfold getFd
  rw [h]

theorem getFd_of_table {entries : List FdEntry} (h : k.table pid = some entries) (fd : Nat) :
    k.getFd pid fd = entries[fd]? := by
  unfold getFd
  rw [h]
  rfl

theorem getFd_setFd_ne (entry : FdEntry) {pid' fd' : Nat} (hne : ¬(pid' = pid ∧ fd' = fd)) :
    (k.setFd pid fd entry).2.getFd pid' fd' = k.getFd pid' fd' := by
  by_cases hpid : pid' = pid
  · subst hpid
    have hfd : fd ≠ fd' := fun heq => hne ⟨rfl, heq.symm⟩
    unfold setFd
    split
    · rename_i entries htable
      split
      · rw [getFd_of_table (table_setTable_self htable _), getFd_of_table htable,
          List.getElem?_set_ne hfd]
      · rfl
    · rfl
  · exact getFd_congr (table_setFd k fd entry hpid) fd'

theorem getFd_setFd_self (entry : FdEntry) (h : (k.getFd pid fd).isSome = true) :
    (k.setFd pid fd entry).2.getFd pid fd = some entry := by
  cases htable : k.table pid with
  | none =>
    rw [getFd, htable] at h
    cases h
  | some entries =>
    rw [getFd_of_table htable, isSome_getElem?] at h
    unfold setFd
    simp only [htable, h, if_true]
    rw [getFd_of_table (table_setTable_self htable _), List.getElem?_set_self h]

theorem getFd_freeFd_ne {pid' fd' : Nat} (hne : ¬(pid' = pid ∧ fd' = fd)) :
    (k.freeFd pid fd).2.getFd pid' fd' = k.getFd pid' fd' := by
  by_cases hpid : pid' = pid
  · subst hpid
    have hfd : fd ≠ fd' := fun heq => hne ⟨rfl, heq.symm⟩
    unfold freeFd
    split
    · rfl
    · rename_i entries htable
      split
      · rename_i entry _
        have hclosed := (table_congr (k.closeEntry_tables entry) pid').trans htable
        rw [getFd_of_table (table_setTable_self hclosed _), getFd_of_table htable,
          List.getElem?_set_ne hfd]
      · rfl
  · exact getFd_congr (table_freeFd k fd hpid) fd'

/-- A freed descriptor is empty. -/
theorem getFd_freeFd_self {entry : FdEntry} (h : (k.freeFd pid fd).2.getFd pid fd = some entry) :
    entry = .empty := by
  unfold freeFd at h
  split at h
  · rename_i htable
    rw [getFd, htable] at h
    cases h
  · rename_i entries htable
    split at h
    · rename_i old hold
      have hclosed := (table_congr (k.closeEntry_tables old) pid).trans htable
      have hlt := (List.getElem?_eq_some_iff.mp hold).1
      rw [getFd_of_table (table_setTable_self hclosed _), List.getElem?_set_self hlt] at h
      exact (Option.some.inj h).symm
    · rename_i hnone
      rw [getFd_of_table htable, hnone] at h
      cases h

/-- An installed entry takes a descriptor that held nothing. -/
structure Takes (k k' : Kernel) (pid fd : Nat) (entry : FdEntry) : Prop where
  empty : ∀ old, k.getFd pid fd = some old → old = .empty
  taken : k'.getFd pid fd = some entry
  others : ∀ pid' fd', ¬(pid' = pid ∧ fd' = fd) → k'.getFd pid' fd' = k.getFd pid' fd'

theorem getFd_ensureTable (k : Kernel) (pid pid' fd : Nat) :
    (k.ensureTable pid).getFd pid' fd = k.getFd pid' fd := by
  unfold getFd
  rw [table_ensureTable]
  split
  · rename_i hpid
    rw [hpid]
    cases k.table pid with
    | none => rfl
    | some entries => rfl
  · rfl

theorem allocFd_takes (k : Kernel) (pid : Nat) (entry : FdEntry) :
    (∃ fd, (k.allocFd pid entry).1 = some fd ∧ Takes k (k.allocFd pid entry).2 pid fd entry) ∨
      ((k.allocFd pid entry).1 = none ∧
        ∀ pid' fd', (k.allocFd pid entry).2.getFd pid' fd' = k.getFd pid' fd') := by
  have htable : (k.ensureTable pid).table pid = some (entriesOf (k.table pid)) := by
    rw [table_ensureTable, if_pos rfl]
  have hcloned := (table_congr (pipeClone_tables (k.ensureTable pid) entry) pid).trans htable
  have hbefore : ∀ fd, k.getFd pid fd = (entriesOf (k.table pid))[fd]? := fun fd =>
    (getFd_ensureTable k pid pid fd).symm.trans (getFd_of_table htable fd)
  have hothers : ∀ entries fd, (∀ fd', fd' ≠ fd → entries[fd']? = (entriesOf (k.table pid))[fd']?) →
      ∀ pid' fd', ¬(pid' = pid ∧ fd' = fd) →
        (((k.ensureTable pid).pipeClone entry).setTable pid entries).getFd pid' fd' =
          k.getFd pid' fd' := by
    intro entries fd hsame pid' fd' hne
    by_cases hpid : pid' = pid
    · subst hpid
      rw [getFd_of_table (table_setTable_self hcloned _), hbefore]
      exact hsame fd' fun heq => hne ⟨rfl, heq⟩
    · have htables := table_setTable_congr entries hpid
        (pipeClone_tables (k.ensureTable pid) entry)
      rw [getFd_congr (htables.trans (table_ensureTable_ne k hpid))]
  unfold allocFd
  dsimp only
  rw [htable]
  dsimp only
  split
  · rename_i i hfind
    obtain ⟨hlt, hempty, -⟩ := List.findIdx?_eq_some_iff_getElem.mp hfind
    refine .inl ⟨i, rfl, ?_, ?_, ?_⟩
    · intro old hold
      rw [hbefore, List.getElem?_eq_getElem hlt] at hold
      cases hold
      exact of_decide_eq_true hempty
    · rw [getFd_of_table (table_setTable_self hcloned _), List.getElem?_set_self hlt]
    · exact hothers _ i fun fd' hne => List.getElem?_set_ne (Ne.symm hne)
  · split
    · refine .inl ⟨(entriesOf (k.table pid)).length, rfl, ?_, ?_, ?_⟩
      · intro old hold
        rw [hbefore, List.getElem?_eq_none (Nat.le_refl _)] at hold
        cases hold
      · rw [getFd_of_table (table_setTable_self hcloned _)]
        exact List.getElem?_concat_length
      · apply hothers
        intro fd' hne
        rw [List.getElem?_append]
        split
        · rfl
        · rename_i hge
          have hgt : (entriesOf (k.table pid)).length < fd' :=
            Nat.lt_of_le_of_ne (Nat.le_of_not_lt hge) (Ne.symm hne)
          rw [List.getElem?_eq_none (Nat.le_of_lt hgt), List.getElem?_eq_none]
          exact Nat.sub_pos_of_lt hgt
    · exact .inr ⟨rfl, getFd_ensureTable k pid⟩

end Kernel

/-- What one open, create or pipe call put behind a descriptor, or what a descriptor held at
the start. A number can be given to another open file later, the open file cannot. -/
inductive OpenFile where
  | initial (pid fd : Nat)
  | made (n : Nat)
  deriving DecidableEq

inductive Direction where
  | read (len : Nat)
  | write (data : List UInt8)

def Direction.reads : Direction → Bool
  | .read _ => true
  | .write _ => false

/-- A read or write of a file that has looked its descriptor up. -/
structure Transfer where
  pid : Nat
  fd : Nat
  file : Option OpenFile
  node : Nat
  generation : Nat
  offset : Nat
  direction : Direction
  /-- The bytes moved, once they are. -/
  count : Option Nat

/-- The entry a transfer stores when it has moved `count` bytes. -/
def Transfer.entry (c : Transfer) (count : Nat) : FdEntry :=
  .file c.node c.generation (c.offset + count)

def Transfer.slot (c : Transfer) : Nat × Nat := (c.pid, c.fd)

def Transfer.use (c : Transfer) : (Nat × Nat) × Bool := (c.slot, c.direction.reads)

/-- A read that has returned bytes from `offset` on. -/
structure ReadResult where
  file : Option OpenFile
  offset : Nat
  count : Nat

def Transfer.result (c : Transfer) (count : Nat) : List ReadResult :=
  match c.direction with
  | .read _ => [⟨c.file, c.offset, count⟩]
  | .write _ => []

structure OffsetSystem where
  kernel : FileKernel
  opened : Nat → Nat → Option OpenFile
  made : Nat
  transfers : List Transfer
  reads : List ReadResult

inductive OffsetEvent where
  | look (pid fd : Nat) (direction : Direction)
  | move (i : Nat)
  | writeBack (i : Nat)
  /-- The descriptor of an open, create or pipe call. -/
  | install (pid : Nat) (entry : FdEntry)
  | close (pid fd : Nat)
  /-- Anything that leaves descriptors alone. -/
  | other (k : FileKernel)

namespace OffsetSystem

open Kernel FileKernel

def look (s : OffsetSystem) (pid fd : Nat) (direction : Direction) : Option OffsetSystem :=
  match s.kernel.getFd pid fd with
  | some (.file node generation offset) =>
      some { s with
        transfers := s.transfers ++
          [⟨pid, fd, s.opened pid fd, node, generation, offset, direction, none⟩] }
  | _ => none

/-- A read of nothing returns at once. Nothing comes after a panic. -/
def move (s : OffsetSystem) (i : Nat) (c : Transfer) : Option OffsetSystem :=
  match c.count, c.direction with
  | some _, _ => none
  | none, .read len =>
      let count := (s.kernel.nodes.readAt (handleOf c.node c.generation) c.offset len).length
      if count = 0 then some { s with transfers := s.transfers.eraseIdx i }
      else some { s with transfers := s.transfers.set i { c with count := some count } }
  | none, .write data =>
      match s.kernel.nodes.writeAt (handleOf c.node c.generation) c.offset data with
      | (none, _) => none
      | (some count, nodes) =>
          some { s with
            kernel := { s.kernel with nodes }
            transfers := s.transfers.set i { c with count := some count } }

def setFd (s : OffsetSystem) (pid fd : Nat) (entry : FdEntry) : OffsetSystem :=
  { s with kernel := { s.kernel with toKernel := (s.kernel.setFd pid fd entry).2 } }

def writeBack (s : OffsetSystem) (i : Nat) (c : Transfer) : Option OffsetSystem :=
  c.count.map fun count =>
    { s.setFd c.pid c.fd (c.entry count) with
      transfers := s.transfers.eraseIdx i
      reads := s.reads ++ c.result count }

def setOpened (s : OffsetSystem) (pid fd : Nat) (file : Option OpenFile) :
    Nat → Nat → Option OpenFile := fun pid' fd' =>
  if pid' = pid ∧ fd' = fd then file else s.opened pid' fd'

def install (s : OffsetSystem) (pid : Nat) (entry : FdEntry) : OffsetSystem :=
  let kernel := { s.kernel with toKernel := (s.kernel.allocFd pid entry).2 }
  match (s.kernel.allocFd pid entry).1 with
  | some fd =>
      { s with kernel, opened := s.setOpened pid fd (some (.made s.made)), made := s.made + 1 }
  | none => { s with kernel }

def close (s : OffsetSystem) (pid fd : Nat) : OffsetSystem :=
  { s with
    kernel := { s.kernel with toKernel := (s.kernel.freeFd pid fd).2 }
    opened := s.setOpened pid fd none }

def step (s : OffsetSystem) : OffsetEvent → Option OffsetSystem
  | .look pid fd direction => s.look pid fd direction
  | .move i => s.transfers[i]?.bind (s.move i)
  | .writeBack i => s.transfers[i]?.bind (s.writeBack i)
  | .install pid entry => some (s.install pid entry)
  | .close pid fd => some (s.close pid fd)
  | .other k => some { s with kernel := { k with tables := s.kernel.tables } }

variable {pid fd node generation offset : Nat} {kernel : FileKernel} {c : Transfer} {i : Nat}

/-- A write with nothing in between is the call. -/
theorem write_alone {s : OffsetSystem} (data : List UInt8)
    (hidle : s.transfers = []) (hfd : s.kernel.getFd pid fd = some (.file node generation offset)) :
    ([.look pid fd (.write data), .move 0, .writeBack 0].foldlM step s).map (·.kernel) =
      match s.kernel.writeFile pid fd node generation offset data with
      | (some _, k) => some k
      | (none, _) => none := by
  unfold writeFile
  simp only [List.foldlM_cons, List.foldlM_nil, step, look, hfd, hidle, List.nil_append,
    Option.bind_eq_bind, Option.bind_some, List.getElem?_cons_zero, move]
  generalize s.kernel.nodes.writeAt (handleOf node generation) offset data = result
  obtain ⟨answer, nodes⟩ := result
  cases answer with
  | none => rfl
  | some count => rfl

/-- So is a read that finds something. -/
theorem read_alone {s : OffsetSystem} {len : Nat}
    (hidle : s.transfers = []) (hfd : s.kernel.getFd pid fd = some (.file node generation offset))
    (hcount : (s.kernel.nodes.readAt (handleOf node generation) offset len).length ≠ 0) :
    ([.look pid fd (.read len), .move 0, .writeBack 0].foldlM step s).map (·.kernel.toKernel) =
      some (s.kernel.readFile pid fd node generation offset
        (s.kernel.nodes.readAt (handleOf node generation) offset len).length).2 := by
  cases htable : s.kernel.table pid with
  | none =>
    rw [getFd, htable] at hfd
    cases hfd
  | some entries =>
    have hlt : fd < entries.length :=
      (List.getElem?_eq_some_iff.mp ((getFd_of_table htable fd).symm.trans hfd)).1
    simp only [List.foldlM_cons, List.foldlM_nil, step, look, hfd, hidle, List.nil_append,
      Option.bind_eq_bind, Option.bind_some, List.getElem?_cons_zero, move, hcount, if_false,
      List.set_cons_zero, writeBack, Option.map_some, OffsetSystem.setFd, Kernel.setFd, htable, hlt,
      if_true, readFile]
    rfl

/-- No call is under way; every descriptor in use is an open file of its own. -/
def start (k : FileKernel) : OffsetSystem where
  kernel := k
  opened pid fd := if k.entryAt pid fd = .empty then none else some (.initial pid fd)
  made := 0
  transfers := []
  reads := []

/-- A descriptor with a transfer under way is not closed, and is used by another only if both
write. -/
def exclusive (s : OffsetSystem) : OffsetEvent → Bool
  | .look pid fd direction =>
      ∀ c ∈ s.transfers, c.slot = (pid, fd) → c.direction.reads = false ∧ direction.reads = false
  | .close pid fd => (pid, fd) ∉ s.transfers.map Transfer.slot
  | _ => true

def stepIf (s : OffsetSystem) (e : OffsetEvent) : Option OffsetSystem :=
  if s.exclusive e then s.step e else none

/-- The section that stores an offset finds the open file it was read from under its number, so
that no descriptor that is closed or that belongs to another open file changes; and no two
reads of an open file have returned the same position. -/
structure OffsetsKept (s : OffsetSystem) : Prop where
  own : ∀ c ∈ s.transfers, ∀ count, c.count = some count →
    c.file.isSome = true ∧ s.opened c.pid c.fd = c.file
  others : ∀ c ∈ s.transfers, ∀ count, c.count = some count → ∀ pid fd, s.opened pid fd ≠ c.file →
    (s.setFd c.pid c.fd (c.entry count)).kernel.getFd pid fd = s.kernel.getFd pid fd
  reads : s.reads.Pairwise fun a b => a.file = b.file →
    a.offset + a.count ≤ b.offset ∨ b.offset + b.count ≤ a.offset

variable {s t : OffsetSystem}

/-! The invariant. -/

structure Held (s : OffsetSystem) : Prop where
  known : ∀ pid fd node generation offset, s.kernel.getFd pid fd = some (.file node generation offset) →
    (s.opened pid fd).isSome = true
  unique : ∀ pid fd pid' fd', (s.opened pid fd).isSome = true →
    s.opened pid fd = s.opened pid' fd' → pid = pid' ∧ fd = fd'
  fresh : ∀ pid fd n, s.opened pid fd = some (.made n) → n < s.made
  looked : ∀ c ∈ s.transfers, s.opened c.pid c.fd = c.file ∧
    ∃ node generation offset, s.kernel.getFd c.pid c.fd = some (.file node generation offset)
  alone : (s.transfers.map Transfer.use).Pairwise fun a b => a.1 = b.1 → a.2 = false ∧ b.2 = false
  behind : ∀ c ∈ s.transfers, ∀ r ∈ s.reads, r.file = c.file → r.offset + r.count ≤ c.offset
  readFresh : ∀ r ∈ s.reads, r.file.isSome = true ∧ ∀ n, r.file = some (.made n) → n < s.made
  /-- The offset of an open file is past everything read from it. -/
  passed : ∀ r ∈ s.reads, ∀ pid fd node generation offset, s.opened pid fd = r.file →
    s.kernel.getFd pid fd = some (.file node generation offset) → r.offset + r.count ≤ offset
  apart : s.reads.Pairwise fun a b => a.file = b.file →
    a.offset + a.count ≤ b.offset ∨ b.offset + b.count ≤ a.offset

theorem Held.file_isSome (hs : Held s) (hc : c ∈ s.transfers) : c.file.isSome = true := by
  obtain ⟨hopened, _, _, _, hentry⟩ := hs.looked c hc
  exact hopened ▸ hs.known c.pid c.fd _ _ _ hentry

theorem Held.offsetsKept (hs : Held s) : s.OffsetsKept where
  own c hc _ _ := ⟨hs.file_isSome hc, (hs.looked c hc).1⟩
  others c hc count _ pid fd hother := by
    apply getFd_setFd_ne
    rintro ⟨rfl, rfl⟩
    exact hother (hs.looked c hc).1
  reads := hs.apart

theorem Held.look (hs : Held s) {direction : Direction}
    (hfree : ∀ c ∈ s.transfers, c.slot = (pid, fd) →
      c.direction.reads = false ∧ direction.reads = false)
    (h : s.look pid fd direction = some t) : Held t := by
  unfold OffsetSystem.look at h
  split at h
  · rename_i node generation offset hentry
    cases h
    refine { hs with looked := ?_, alone := ?_, behind := ?_ }
    · rw [List.forall_mem_append]
      exact ⟨hs.looked, List.forall_mem_singleton.mpr ⟨rfl, _, _, _, hentry⟩⟩
    · rw [List.map_append]
      refine List.pairwise_append.mpr ⟨hs.alone, List.pairwise_singleton _ _, ?_⟩
      rw [List.forall_mem_map]
      exact fun c hc => List.forall_mem_singleton.mpr (hfree c hc)
    · rw [List.forall_mem_append]
      refine ⟨hs.behind, List.forall_mem_singleton.mpr ?_⟩
      exact fun r hr hsame => hs.passed r hr pid fd _ _ _ hsame.symm hentry
  · cases h

/-- Fewer transfers, or the same ones further on. -/
theorem Held.advance (hs : Held s) {transfers : List Transfer}
    (hget : ∀ pid fd, kernel.getFd pid fd = s.kernel.getFd pid fd)
    (hfrom : ∀ c' ∈ transfers, ∃ c ∈ s.transfers, c.pid = c'.pid ∧ c.fd = c'.fd ∧ c.file = c'.file ∧
      c.offset = c'.offset)
    (halone : (transfers.map Transfer.use).Pairwise fun a b => a.1 = b.1 → a.2 = false ∧ b.2 = false) :
    Held { s with kernel, transfers } := by
  constructor
  · intro pid fd node generation offset hentry
    exact hs.known pid fd node generation offset ((hget pid fd).symm.trans hentry)
  · exact hs.unique
  · exact hs.fresh
  · intro c' hc'
    obtain ⟨c, hc, hpid, hfd, hfile, -⟩ := hfrom c' hc'
    have hlooked := hs.looked c hc
    rw [hpid, hfd, hfile, ← hget] at hlooked
    exact hlooked
  · exact halone
  · intro c' hc' r hr hsame
    obtain ⟨c, hc, -, -, hfile, hoffset⟩ := hfrom c' hc'
    exact hoffset ▸ hs.behind c hc r hr (hsame.trans hfile.symm)
  · exact hs.readFresh
  · intro r hr pid fd node generation offset hopened hentry
    exact hs.passed r hr pid fd node generation offset hopened ((hget pid fd).symm.trans hentry)
  · exact hs.apart

theorem Held.erase (hs : Held s) (i : Nat) :
    Held { s with transfers := s.transfers.eraseIdx i } := by
  have hsub := List.eraseIdx_sublist s.transfers i
  apply hs.advance fun _ _ => rfl
  · intro c hc
    exact ⟨c, hsub.subset hc, rfl, rfl, rfl, rfl⟩
  · exact hs.alone.sublist (hsub.map _)

theorem Held.moved (hs : Held s) (hc : s.transfers[i]? = some c) (count : Option Nat)
    (hget : ∀ pid fd, kernel.getFd pid fd = s.kernel.getFd pid fd) :
    Held { s with kernel, transfers := s.transfers.set i { c with count } } := by
  apply hs.advance hget
  · intro c' hc'
    obtain hold | rfl := List.mem_or_eq_of_mem_set hc'
    · exact ⟨c', hold, rfl, rfl, rfl, rfl⟩
    · exact ⟨c, List.mem_of_getElem? hc, rfl, rfl, rfl, rfl⟩
  · have huse : (s.transfers.map Transfer.use)[i]? = some c.use := by
      rw [List.getElem?_map, hc]
      rfl
    obtain ⟨hlt, hget⟩ := List.getElem?_eq_some_iff.mp huse
    rw [List.map_set, show ({ c with count } : Transfer).use = c.use from rfl, ← hget,
      List.set_getElem_self hlt]
    exact hs.alone

theorem Held.move (hs : Held s) (hc : s.transfers[i]? = some c)
    (h : s.move i c = some t) : Held t := by
  unfold OffsetSystem.move at h
  split at h
  · cases h
  · dsimp only at h
    split at h
    · cases h
      exact hs.erase i
    · cases h
      exact hs.moved hc _ fun _ _ => rfl
  · split at h
    · cases h
    · cases h
      exact hs.moved hc _ fun _ _ => rfl

/-- A transfer ends: its open file moves on by what it has moved. -/
theorem Held.writeBack (hs : Held s) (hc : s.transfers[i]? = some c)
    (h : s.writeBack i c = some t) : Held t := by
  obtain ⟨count, -, rfl⟩ := Option.map_eq_some_iff.mp h
  have hmem := List.mem_of_getElem? hc
  obtain ⟨hopened, _, _, _, hentry⟩ := hs.looked c hmem
  have hfile := hs.file_isSome hmem
  have hself : (s.setFd c.pid c.fd (c.entry count)).kernel.getFd c.pid c.fd =
      some (c.entry count) := getFd_setFd_self _ (by rw [hentry]; rfl)
  have hother : ∀ pid fd, ¬(pid = c.pid ∧ fd = c.fd) →
      (s.setFd c.pid c.fd (c.entry count)).kernel.getFd pid fd = s.kernel.getFd pid fd :=
    fun pid fd hne => getFd_setFd_ne _ hne
  have hpassed := hs.behind c hmem
  have hresult : ∀ r ∈ c.result count, r.file = c.file ∧ r.offset = c.offset ∧ r.count = count ∧
      c.direction.reads = true := by
    intro r hr
    unfold Transfer.result at hr
    split at hr
    · rename_i hread
      cases List.mem_singleton.mp hr
      exact ⟨rfl, rfl, rfl, congrArg Direction.reads hread⟩
    · cases hr
  constructor
  · intro pid fd node generation offset hafter
    by_cases hslot : pid = c.pid ∧ fd = c.fd
    · obtain ⟨rfl, rfl⟩ := hslot
      exact hs.known _ _ _ _ _ hentry
    · exact hs.known _ _ _ _ _ ((hother pid fd hslot).symm.trans hafter)
  · exact hs.unique
  · exact hs.fresh
  · intro d hd
    have hd' := List.mem_of_mem_eraseIdx hd
    refine ⟨(hs.looked d hd').1, ?_⟩
    by_cases hslot : d.pid = c.pid ∧ d.fd = c.fd
    · rw [hslot.1, hslot.2]
      exact ⟨_, _, _, hself⟩
    · dsimp only
      rw [hother d.pid d.fd hslot]
      exact (hs.looked d hd').2
  · exact hs.alone.sublist ((List.eraseIdx_sublist _ i).map _)
  · intro d hd
    have hd' := List.mem_of_mem_eraseIdx hd
    rw [List.forall_mem_append]
    refine ⟨hs.behind d hd', fun r hr hsame => ?_⟩
    -- no other transfer is under way where one reads
    obtain ⟨hrfile, -, -, hreads⟩ := hresult r hr
    obtain ⟨hpid, hfd⟩ := hs.unique c.pid c.fd d.pid d.fd (hopened ▸ hfile)
      ((hopened.trans (hrfile.symm.trans hsame)).trans (hs.looked d hd').1.symm)
    obtain ⟨hlt, rfl⟩ := List.getElem?_eq_some_iff.mp hc
    have hpairs := (List.Perm.pairwise_iff (fun h heq => (h heq.symm).symm)
      (List.getElem_cons_eraseIdx_perm hlt)).mpr (List.pairwise_map.mp hs.alone)
    have hwrites := List.rel_of_pairwise_cons hpairs hd (Prod.ext hpid hfd)
    cases hwrites.1.symm.trans hreads
  · rw [List.forall_mem_append]
    refine ⟨hs.readFresh, ?_⟩
    intro r hr
    obtain ⟨hsame, -, -⟩ := hresult r hr
    rw [hsame]
    exact ⟨hfile, fun n hn => hs.fresh c.pid c.fd n (hopened.trans hn)⟩
  · intro r hr pid fd node generation offset hopened' hafter
    by_cases hslot : pid = c.pid ∧ fd = c.fd
    · obtain ⟨rfl, rfl⟩ := hslot
      cases hself.symm.trans hafter
      have hsame : r.file = c.file := hopened'.symm.trans hopened
      obtain hold | hnew := List.mem_append.mp hr
      · exact Nat.le_trans (hpassed r hold hsame) (Nat.le_add_right _ _)
      · obtain ⟨-, hoffset, hcount, -⟩ := hresult r hnew
        rw [hoffset, hcount]
    · have hbefore := (hother pid fd hslot).symm.trans hafter
      obtain hold | hnew := List.mem_append.mp hr
      · exact hs.passed r hold pid fd _ _ _ hopened' hbefore
      · have hsame : s.opened c.pid c.fd = s.opened pid fd :=
          (hopened.trans (hresult r hnew).1.symm).trans hopened'.symm
        have hslots := hs.unique c.pid c.fd pid fd (hopened ▸ hfile) hsame
        exact absurd ⟨hslots.1.symm, hslots.2.symm⟩ hslot
  · rw [List.pairwise_append]
    refine ⟨hs.apart, ?_, ?_⟩
    · unfold Transfer.result
      split
      · exact List.pairwise_singleton _ _
      · exact List.Pairwise.nil
    · intro a ha b hb hsame
      obtain ⟨hfileb, hoffset, -⟩ := hresult b hb
      rw [hoffset]
      exact .inl (hpassed a ha (hsame.trans hfileb))

theorem setOpened_self (s : OffsetSystem) (pid fd : Nat) (file : Option OpenFile) :
    s.setOpened pid fd file pid fd = file :=
  if_pos ⟨rfl, rfl⟩

theorem setOpened_ne {pid' fd' : Nat} (file : Option OpenFile)
    (hne : ¬(pid' = pid ∧ fd' = fd)) : s.setOpened pid fd file pid' fd' = s.opened pid' fd' :=
  if_neg hne

/-- A descriptor nobody is at work on gets a new open file, or none. -/
theorem Held.replace (hs : Held s) {made : Nat} {file : Option OpenFile}
    (hfree : (pid, fd) ∉ s.transfers.map Transfer.slot)
    (hothers : ∀ pid' fd', ¬(pid' = pid ∧ fd' = fd) →
      kernel.getFd pid' fd' = s.kernel.getFd pid' fd')
    (hmade : s.made ≤ made) (hfile : ∀ f, file = some f → f = .made s.made ∧ s.made < made)
    (hclosed : file = none → ∀ node generation offset,
      kernel.getFd pid fd ≠ some (.file node generation offset)) :
    Held { s with kernel, opened := s.setOpened pid fd file, made } := by
  -- An open file of another descriptor is an old one.
  have hnew : ∀ pid' fd', file.isSome = true → s.opened pid' fd' ≠ file := by
    intro pid' fd' hsome hsame
    obtain ⟨f, hf⟩ := Option.isSome_iff_exists.mp hsome
    obtain ⟨rfl, -⟩ := hfile f hf
    exact Nat.lt_irrefl _ (hs.fresh pid' fd' s.made (hsame.trans hf))
  constructor
  · intro pid' fd' node generation offset hentry
    by_cases hslot : pid' = pid ∧ fd' = fd
    · obtain ⟨rfl, rfl⟩ := hslot
      dsimp only
      rw [setOpened_self]
      by_contra hnone
      exact hclosed (Option.not_isSome_iff_eq_none.mp hnone) _ _ _ hentry
    · dsimp only
      rw [setOpened_ne file hslot]
      exact hs.known _ _ _ _ _ ((hothers pid' fd' hslot).symm.trans hentry)
  · intro p f p' f' hsome hsame
    dsimp only at hsome hsame
    by_cases hslot : p = pid ∧ f = fd
    · by_cases hslot' : p' = pid ∧ f' = fd
      · exact ⟨hslot.1.trans hslot'.1.symm, hslot.2.trans hslot'.2.symm⟩
      · rw [hslot.1, hslot.2, setOpened_self] at hsome hsame
        rw [setOpened_ne file hslot'] at hsame
        exact absurd hsame.symm (hnew p' f' hsome)
    · rw [setOpened_ne file hslot] at hsome hsame
      by_cases hslot' : p' = pid ∧ f' = fd
      · rw [hslot'.1, hslot'.2, setOpened_self] at hsame
        exact absurd hsame (hnew p f (hsame ▸ hsome))
      · rw [setOpened_ne file hslot'] at hsame
        exact hs.unique p f p' f' hsome hsame
  · intro p f n hopened
    dsimp only at hopened
    by_cases hslot : p = pid ∧ f = fd
    · rw [hslot.1, hslot.2, setOpened_self] at hopened
      obtain ⟨heq, hlt⟩ := hfile _ hopened
      cases heq
      exact hlt
    · rw [setOpened_ne file hslot] at hopened
      exact Nat.lt_of_lt_of_le (hs.fresh p f n hopened) hmade
  · intro c hc
    have hslot : ¬(c.pid = pid ∧ c.fd = fd) := by
      rintro ⟨rfl, rfl⟩
      exact hfree (List.mem_map_of_mem hc)
    refine ⟨(setOpened_ne file hslot).trans (hs.looked c hc).1, ?_⟩
    dsimp only
    rw [hothers c.pid c.fd hslot]
    exact (hs.looked c hc).2
  · exact hs.alone
  · exact hs.behind
  · intro r hr
    exact ⟨(hs.readFresh r hr).1, fun n hn => Nat.lt_of_lt_of_le ((hs.readFresh r hr).2 n hn) hmade⟩
  · intro r hr p f node generation offset hopened hentry
    dsimp only at hopened
    by_cases hslot : p = pid ∧ f = fd
    · -- What has been read was read from an older open file.
      rw [hslot.1, hslot.2, setOpened_self] at hopened
      obtain ⟨hsome, hbelow⟩ := hs.readFresh r hr
      obtain ⟨g, hg⟩ := Option.isSome_iff_exists.mp hsome
      obtain ⟨rfl, -⟩ := hfile g (hopened.trans hg)
      exact absurd (hbelow s.made hg) (Nat.lt_irrefl _)
    · rw [setOpened_ne file hslot] at hopened
      exact hs.passed r hr p f _ _ _ hopened ((hothers p f hslot).symm.trans hentry)
  · exact hs.apart

theorem Held.install (hs : Held s) (pid : Nat) (entry : FdEntry) : Held (s.install pid entry) := by
  unfold OffsetSystem.install
  obtain ⟨fd, hfd, htakes⟩ | ⟨hnone, hsame⟩ := allocFd_takes s.kernel.toKernel pid entry
  · rw [hfd]
    apply hs.replace
    · intro hslot
      obtain ⟨c, hc, hslot⟩ := List.mem_map.mp hslot
      obtain ⟨rfl, rfl⟩ := Prod.mk.inj hslot
      obtain ⟨-, _, _, _, hentry⟩ := hs.looked c hc
      cases htakes.empty _ hentry
    · exact htakes.others
    · exact Nat.le_succ _
    · intro f hf
      exact ⟨(Option.some.inj hf).symm, Nat.lt_succ_self _⟩
    · intro hnone
      cases hnone
  · rw [hnone]
    exact hs.advance hsame (fun c hc => ⟨c, hc, rfl, rfl, rfl, rfl⟩) hs.alone

theorem Held.close (hs : Held s) (hfree : (pid, fd) ∉ s.transfers.map Transfer.slot) :
    Held (s.close pid fd) := by
  apply hs.replace hfree
  · exact fun pid' fd' hne => getFd_freeFd_ne hne
  · exact Nat.le_refl _
  · intro f hf
    cases hf
  · intro _ node generation offset hentry
    cases getFd_freeFd_self hentry

theorem step_held {e : OffsetEvent} (h : s.stepIf e = some t) (hs : Held s) : Held t := by
  unfold stepIf at h
  split at h
  · rename_i hexclusive
    cases e with
    | look pid fd direction => exact hs.look (of_decide_eq_true hexclusive) h
    | move i =>
      obtain ⟨c, hc, h⟩ := Option.bind_eq_some_iff.mp h
      exact hs.move hc h
    | writeBack i =>
      obtain ⟨c, hc, h⟩ := Option.bind_eq_some_iff.mp h
      exact hs.writeBack hc h
    | install pid entry =>
      cases h
      exact hs.install pid entry
    | close pid fd =>
      cases h
      exact hs.close (of_decide_eq_true hexclusive)
    | other k =>
      cases h
      exact hs.advance (fun pid fd => rfl) (fun c hc => ⟨c, hc, rfl, rfl, rfl, rfl⟩) hs.alone
  · cases h

theorem start_held (k : FileKernel) : Held (start k) := by
  constructor
  · intro pid fd node generation offset hentry
    have hat : k.entryAt pid fd = .file node generation offset :=
      congrArg (fun entry => entry.getD FdEntry.empty) hentry
    simp [start, hat]
  · intro pid fd pid' fd' hsome hsame
    obtain ⟨f, hf⟩ := Option.isSome_iff_exists.mp hsome
    rw [hf] at hsame
    simp only [start] at hf hsame
    split at hf
    · cases hf
    · split at hsame
      · cases hsame
      · cases hf
        cases hsame
        exact ⟨rfl, rfl⟩
  · intro pid fd n hopened
    simp only [start] at hopened
    split at hopened <;> cases hopened
  · intro c hc
    cases hc
  · exact List.Pairwise.nil
  · exact fun _ h => absurd h List.not_mem_nil
  · intro r hr
    cases hr
  · intro r hr
    cases hr
  · exact List.Pairwise.nil

/-- In a run in which no descriptor with a transfer under way is closed or used by another, except
for a write beside writes, offsets are stored in the open files they come from and reads of an open file
never return the same position twice. -/
theorem offsets_stay_with_file {k : FileKernel} {es : List OffsetEvent} {s : OffsetSystem}
    (run : Run (fun s e t => s.stepIf e = some t) (start k) es s) : s.OffsetsKept :=
  (run.preserves (fun _ _ _ hs h => step_held h hs) (start_held k)).offsetsKept

/-- Process 1 has a file of four bytes open. -/
def oneFile : FileKernel :=
  { smallBoot with
    nodes := Fs.rootOnly ++ [⟨0, some ⟨[47, 97], false, [1, 2, 3, 4]⟩⟩]
    tables := [none, some [.file 1 0 0]] }

/-- Two reads one after the other. -/
theorem offsets_stay_with_file_twice :
    ∃ s r, Run (fun s e t => s.stepIf e = some t) (start oneFile)
        [.look 1 0 (.read 2), .move 0, .writeBack 0, .look 1 0 (.read 2), .move 0] s ∧
      s.reads = [r] ∧ s.transfers ≠ [] ∧ s.OffsetsKept := by
  have hrun : ∃ s r, [OffsetEvent.look 1 0 (.read 2), .move 0, .writeBack 0, .look 1 0 (.read 2),
      .move 0].foldlM stepIf (start oneFile) = some s ∧ s.reads = [r] ∧ s.transfers.length = 1 :=
    ⟨_, _, rfl, rfl, rfl⟩
  obtain ⟨s, r, hrun, hreads, hlength⟩ := hrun
  have hrun := Run.of_foldlM hrun
  refine ⟨s, r, hrun, hreads, ?_, offsets_stay_with_file hrun⟩
  intro hnil
  rw [hnil] at hlength
  cases hlength

/-- A descriptor closed during a read is open again after it, and two reads at once return the
same two bytes. -/
theorem read_reopens_closed :
    (∃ s t, Run (fun s e t => s.step e = some t) (start oneFile)
        [.look 1 0 (.read 2), .close 1 0, .move 0] s ∧ ¬s.OffsetsKept ∧
      s.step (.writeBack 0) = some t ∧ s.kernel.getFd 1 0 = some .empty ∧
      t.kernel.getFd 1 0 = some (.file 1 0 2)) ∧
    ∃ s r, Run (fun s e t => s.step e = some t) (start oneFile)
        [.look 1 0 (.read 2), .look 1 0 (.read 2), .move 0, .move 1, .writeBack 0, .writeBack 0] s ∧
      s.reads = [r, r] ∧ r.count = 2 ∧ ¬s.OffsetsKept := by
  constructor
  · refine ⟨_, _, Run.of_foldlM rfl, ?_, rfl, rfl, rfl⟩
    intro h
    exact absurd (h.own _ (List.mem_of_head? rfl) 2 rfl).2 (by decide)
  · refine ⟨_, _, Run.of_foldlM rfl, rfl, rfl, ?_⟩
    intro h
    have hapart := (List.pairwise_pair.mp h.reads) rfl
    exact absurd hapart (by decide)

end OffsetSystem

end KazuOS
