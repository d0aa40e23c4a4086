import KazuOS.Kernel.LoadedCode

/-! Loading a driver. The name is cut out of the path, looked for in the table, and stored in a
free slot once the process exists. Slices of a text panic off the boundaries of characters. -/
namespace KazuOS.Kernel

open KazuOS.Lib KazuOS.Task

inductive DriverStatus where
  | running
  | unloading
  | failed
  deriving DecidableEq, Repr

structure DriverEntry where
  id : Nat
  name : List UInt8
  pid : Nat
  status : DriverStatus
  deriving DecidableEq, Repr

def maxDrivers : Nat := 16
def maxName : Nat := 32

/-- The part of a path behind the last slash and before the last dot. -/
def extractName (path : List UInt8) : List UInt8 :=
  let base := path.rtakeWhile (· ≠ 47)
  if 46 ∈ base then (base.rdropWhile (· ≠ 46)).dropLast else base

def behindSlash (path : List UInt8) : Option (List UInt8) :=
  match Fs.rfind 47 path with
  | some i => sliceFrom path (i + 1)
  | none => some path

def beforeDot (base : List UInt8) : Option (List UInt8) :=
  match Fs.rfind 46 base with
  | some i => sliceTo base i
  | none => some base

/-- `extract_name` with its slices. -/
def extractNameSlices (path : List UInt8) : Option (List UInt8) := (behindSlash path).bind beforeDot

/-- Drivers by slot. The id is a number of 32 bits. -/
structure DriverTable where
  entries : List (Option DriverEntry)
  nextId : Nat
  deriving DecidableEq, Repr

namespace DriverTable

def initial : DriverTable := ⟨List.replicate maxDrivers none, 1⟩

def hasName (t : DriverTable) (name : List UInt8) : Bool := t.entries.any (·.any (·.name = name))

def full (t : DriverTable) : Bool := !t.entries.any Option.isNone

/-- The loop for a free slot. It cuts the name to the size of the field. -/
def record (t : DriverTable) (name : List UInt8) (pid : Nat) : Option (Option Nat × DriverTable) :=
  if t.full then some (none, t) else do
    let stored ← sliceTo name (min name.length maxName)
    let entry : DriverEntry := ⟨t.nextId, stored, pid, .running⟩
    some (some t.nextId, {
      entries := modifyFirst Option.isNone (fun _ => some entry) t.entries
      nextId := (t.nextId + 1) % 2 ^ 32 })

/-- The whole of `load`, with the file at the path and the answer of the heap to the request for
a kernel stack. A load that returns u64::MAX has no id, and one that panics no result. -/
def load (t : DriverTable) (k : Kernel) (path : List UInt8) (stack : Option Nat)
    (file : Option (List UInt8)) : Option (Option Nat × Kernel × DriverTable) := do
  let name ← extractNameSlices path
  if t.hasName name then some (none, k, t) else
    let (pid, k) := k.spawnDriver stack file
    if pid = 0 then some (none, k, t) else do
      match ← t.record name pid with
      | (some id, t) => some (some id, k, t)
      | (none, t) => some (none, k.onTasks (·.killPid pid), t)

/-- What a load does to the table, by the answer of `spawn_driver`. -/
def loadGiven (t : DriverTable) (path : List UInt8) (spawned : Nat) :
    Option (Option Nat × DriverTable) := do
  let name ← extractNameSlices path
  if t.hasName name ∨ spawned = 0 then some (none, t) else t.record name spawned

end DriverTable

variable {bytes : List UInt8} {path : List UInt8} {pid : Nat}

theorem DriverTable.full_of_record {t t' : DriverTable} {name : List UInt8}
    (h : t.record name pid = some (none, t')) : t.full = true := by
  unfold record at h
  split at h
  · assumption
  · cases hslice : sliceTo name (min name.length maxName) with
    | none | some stored =>
      rw [hslice] at h
      cases h

theorem DriverTable.load_full {t : DriverTable} {k k' : Kernel} {path name : List UInt8}
    {stack : Option Nat} {file : Option (List UInt8)}
    (hname : extractNameSlices path = some name) (hnew : t.hasName name = false)
    (hspawn : k.spawnDriver stack file = (pid, k')) (hpid : pid ≠ 0) (hfull : t.full = true) :
    t.load k path stack file = some (none, k'.onTasks (·.killPid pid), t) := by
  have hrecord : t.record name pid = some (none, t) := by
    rw [record, if_pos hfull]
  rw [load, hname]
  dsimp only [Option.bind_eq_bind, Option.bind_some]
  rw [hnew, if_neg Bool.false_ne_true, hspawn]
  dsimp only
  rw [if_neg hpid, hrecord]
  rfl

/-- The kernel matters to the table by the answer of `spawn_driver` alone. -/
theorem DriverTable.load_table (t : DriverTable) (k : Kernel) (path : List UInt8) (stack : Option Nat)
    (file : Option (List UInt8)) :
    (t.load k path stack file).map (fun r => (r.1, r.2.2)) =
      t.loadGiven path (k.spawnDriver stack file).1 := by
  unfold load loadGiven
  cases extractNameSlices path with
  | none => rfl
  | some name =>
    dsimp only [Option.bind_eq_bind, Option.bind_some]
    by_cases hname : t.hasName name = true
    · rw [if_pos hname, if_pos (.inl hname)]
      rfl
    rw [if_neg hname]
    rcases k.spawnDriver stack file with ⟨pid, k'⟩
    dsimp only
    by_cases hpid : pid = 0
    · rw [if_pos hpid, if_pos (.inr hpid)]
      rfl
    · rw [if_neg hpid, if_neg (not_or.mpr ⟨hname, hpid⟩)]
      rcases t.record name pid with _ | ⟨_ | id, t'⟩
      · rfl
      · rfl
      · rfl

/-! The name of a path. -/

variable {before after : List UInt8} {b : UInt8}

/-- Behind the last `b` every byte differs from it, from the end as well. -/
theorem all_ne_reverse (h : b ∉ bytes) : ∀ a ∈ bytes.reverse, decide (a ≠ b) = true := by
  intro a ha
  exact decide_eq_true fun heq => h (heq ▸ List.mem_reverse.mp ha)

theorem rtakeWhile_last (h : b ∉ after) : (before ++ b :: after).rtakeWhile (· ≠ b) = after := by
  rw [List.rtakeWhile, List.reverse_append, List.reverse_cons, List.append_assoc,
    List.takeWhile_append_of_pos (all_ne_reverse h)]
  simp

theorem rdropWhile_last (h : b ∉ after) :
    (before ++ b :: after).rdropWhile (· ≠ b) = before ++ [b] := by
  rw [List.rdropWhile, List.reverse_append, List.reverse_cons, List.append_assoc,
    List.dropWhile_append_of_pos (all_ne_reverse h)]
  simp

theorem rtakeWhile_whole (h : b ∉ bytes) : bytes.rtakeWhile (· ≠ b) = bytes := by
  rw [List.rtakeWhile_eq_self_iff]
  exact fun a ha => decide_eq_true fun heq => h (heq ▸ ha)

theorem behindSlash_eq (h : IsUtf8 path) :
    behindSlash path = some (path.rtakeWhile (· ≠ 47)) ∧ IsUtf8 (path.rtakeWhile (· ≠ 47)) := by
  unfold behindSlash
  by_cases hslash : 47 ∈ path
  · obtain ⟨front, name, rfl, hname⟩ := Fs.exists_last hslash
    have hascii : (47 : UInt8) < 128 := by decide
    rw [Fs.rfind_append front hname, rtakeWhile_last hname]
    exact ⟨sliceFrom_ascii hascii h, (h.split hascii).2⟩
  · rw [Fs.rfind_eq_none.mpr hslash, rtakeWhile_whole hslash]
    exact ⟨rfl, h⟩

/-- The slices of a path are cut at slashes and dots, so none of them panics. -/
theorem extractNameSlices_eq (h : IsUtf8 path) :
    extractNameSlices path = some (extractName path) := by
  obtain ⟨hbase, hutf8⟩ := behindSlash_eq h
  rw [extractNameSlices, hbase, Option.bind_some, extractName]
  generalize path.rtakeWhile (· ≠ 47) = base at hutf8
  unfold beforeDot
  by_cases hdot : 46 ∈ base
  · obtain ⟨front, name, rfl, hname⟩ := Fs.exists_last hdot
    rw [Fs.rfind_append front hname, if_pos hdot, rdropWhile_last hname, List.dropLast_concat]
    exact sliceTo_ascii (by decide) hutf8
  · rw [Fs.rfind_eq_none.mpr hdot, if_neg hdot]

/-! Runs of the table. -/

def DriverTable.unload (t : DriverTable) (id : Nat) : DriverTable :=
  { t with
    entries := modifyFirst (·.any (·.id = id)) (·.map fun e => { e with status := .unloading })
      t.entries }

def DriverTable.onProcessExit (t : DriverTable) (pid : Nat) : DriverTable :=
  { t with entries := modifyFirst (·.any (·.pid = pid)) (fun _ => none) t.entries }

inductive TableEvent where
  | load (path : List UInt8) (spawned : Nat)
  | unload (id : Nat)
  | exit (pid : Nat)

/-- The table, with the name that each slot was last filled under. -/
structure DriverRun where
  table : DriverTable
  names : Nat → List UInt8

namespace DriverRun

def step (s : DriverRun) : TableEvent → Option DriverRun
  | .load path spawned =>
      (s.table.loadGiven path spawned).map fun (id, table) =>
        { table
          names := match id with
            | some _ =>
                Function.update s.names (s.table.entries.findIdx Option.isNone) (extractName path)
            | none => s.names }
  | .unload id => some { s with table := s.table.unload id }
  | .exit pid => some { s with table := s.table.onProcessExit pid }

def run (s : DriverRun) (events : List TableEvent) : Option DriverRun := events.foldlM step s

def initial : DriverRun := ⟨.initial, fun _ => []⟩

/-- The name of a load that gets as far as a new entry fits the field. -/
def Fits (s : DriverRun) : TableEvent → Prop
  | .load path spawned => s.table.hasName (extractName path) = false → spawned ≠ 0 →
      s.table.full = false → (extractName path).length ≤ maxName
  | _ => True

def FitsAlong : DriverRun → List TableEvent → Prop
  | _, [] => True
  | s, event :: events => s.Fits event ∧ ∀ t, s.step event = some t → FitsAlong t events

/-- No two entries were loaded under one name. -/
def NamesDistinct (s : DriverRun) : Prop :=
  ∀ i j e e', s.table.entries[i]? = some (some e) → s.table.entries[j]? = some (some e') →
    s.names i = s.names j → i = j

/-- As long as names are stored whole, what an entry says is what it was loaded under. -/
structure NamesStored (s : DriverRun) : Prop where
  stored : ∀ i e, s.table.entries[i]? = some (some e) → e.name = s.names i
  distinct : s.NamesDistinct

theorem NamesStored.of_inherits {s t : DriverRun} (h : s.NamesStored) (hnames : t.names = s.names)
    (hentries : ∀ (i : Nat) (e : DriverEntry), t.table.entries[i]? = some (some e) →
      ∃ e' : DriverEntry, s.table.entries[i]? = some (some e') ∧ e.name = e'.name) : t.NamesStored := by
  constructor
  · intro i e hi
    obtain ⟨e', hi', hname⟩ := hentries i e hi
    rw [hname, h.stored i e' hi', hnames]
  · intro i j e e' hi hj hsame
    obtain ⟨d, hd, -⟩ := hentries i e hi
    obtain ⟨d', hd', -⟩ := hentries j e' hj
    exact h.distinct i j d d' hd hd' (by rwa [hnames] at hsame)

variable {s : DriverRun}

/-- The first slot of a kind is changed, and what it holds afterwards has its old name. -/
theorem NamesStored.modified (h : s.NamesStored)
    (p : Option DriverEntry → Bool) {f : Option DriverEntry → Option DriverEntry}
    (hf : ∀ slot e, f slot = some e → ∃ e', slot = some e' ∧ e.name = e'.name) :
    NamesStored { s with table.entries := Lib.modifyFirst p f s.table.entries } := by
  refine h.of_inherits rfl ?_
  intro i e hi
  dsimp only at hi
  rw [modifyFirst_eq_modify, List.getElem?_modify] at hi
  obtain ⟨slot, hslot, heq⟩ := Option.map_eq_some_iff.mp hi
  split at heq
  · obtain ⟨e', rfl, hname⟩ := hf slot e heq
    exact ⟨e', hslot, hname⟩
  · exact ⟨e, heq ▸ hslot, rfl⟩

theorem NamesStored.unload (h : s.NamesStored) (id : Nat) :
    NamesStored { s with table := s.table.unload id } := by
  apply h.modified
  intro slot e heq
  obtain ⟨e', rfl, rfl⟩ := Option.map_eq_some_iff.mp heq
  exact ⟨e', rfl, rfl⟩

theorem NamesStored.onProcessExit (h : s.NamesStored) (pid : Nat) :
    NamesStored { s with table := s.table.onProcessExit pid } := by
  apply h.modified
  intro slot e heq
  cases heq

/-- A new name goes into a slot that was free. -/
theorem NamesStored.fill (h : s.NamesStored) {name : List UInt8}
    (hnew : s.table.hasName name = false) {entry : DriverEntry} (hname : entry.name = name)
    (nextId : Nat) :
    NamesStored {
      table := ⟨modifyFirst Option.isNone (fun _ => some entry) s.table.entries, nextId⟩
      names := Function.update s.names (s.table.entries.findIdx Option.isNone) name } := by
  have hold : ∀ i e, s.table.entries[i]? = some (some e) → s.names i ≠ name := by
    intro i e hi heq
    have hhas : s.table.hasName name = true := by
      refine List.any_eq_true.mpr ⟨some e, List.mem_of_getElem? hi, ?_⟩
      simp [h.stored i e hi, heq]
    rw [hnew] at hhas
    cases hhas
  generalize hpos : s.table.entries.findIdx Option.isNone = pos
  have hget : ∀ i e,
      (modifyFirst Option.isNone (fun _ => some entry) s.table.entries)[i]? = some (some e) →
      (i = pos ∧ e = entry) ∨ (i ≠ pos ∧ s.table.entries[i]? = some (some e)) := by
    intro i e hi
    rw [modifyFirst_eq_modify, List.getElem?_modify, hpos] at hi
    obtain ⟨slot, hslot, heq⟩ := Option.map_eq_some_iff.mp hi
    split at heq
    · rename_i hi
      exact .inl ⟨hi.symm, (Option.some.inj heq).symm⟩
    · rename_i hi
      exact .inr ⟨Ne.symm hi, heq ▸ hslot⟩
  constructor
  · intro i e hi
    obtain ⟨rfl, rfl⟩ | ⟨hne, hi⟩ := hget i e hi
    · simpa using hname
    · simpa [hne] using h.stored i e hi
  · intro i j e e' hi hj hsame
    dsimp only at hsame
    obtain ⟨rfl, -⟩ | ⟨hne, hi'⟩ := hget i e hi
    · obtain ⟨rfl, -⟩ | ⟨hne', hj'⟩ := hget j e' hj
      · rfl
      · rw [Function.update_self, Function.update_of_ne hne'] at hsame
        exact absurd hsame.symm (hold j e' hj')
    · obtain ⟨rfl, -⟩ | ⟨hne', hj'⟩ := hget j e' hj
      · rw [Function.update_self, Function.update_of_ne hne] at hsame
        exact absurd hsame (hold i e hi')
      · rw [Function.update_of_ne hne, Function.update_of_ne hne'] at hsame
        exact h.distinct i j e e' hi' hj' hsame

theorem NamesStored.load (h : s.NamesStored) {path : List UInt8} (htext : IsUtf8 path)
    {spawned : Nat} (hfits : s.Fits (.load path spawned)) :
    ∃ t, s.step (.load path spawned) = some t ∧ t.NamesStored := by
  rw [step, DriverTable.loadGiven, extractNameSlices_eq htext]
  dsimp only [Option.bind_eq_bind, Option.bind_some]
  split
  · exact ⟨s, rfl, h⟩
  rename_i hload
  rw [not_or, Bool.not_eq_true] at hload
  rw [DriverTable.record]
  split
  · exact ⟨s, rfl, h⟩
  · rename_i hroom
    have hshort := hfits hload.1 hload.2 (by simpa using hroom)
    rw [Nat.min_eq_left hshort, sliceTo_length]
    exact ⟨_, rfl, h.fill hload.1 rfl _⟩

theorem NamesStored.step (h : s.NamesStored) {event : TableEvent}
    (htext : ∀ path spawned, event = .load path spawned → IsUtf8 path) (hfits : s.Fits event) :
    ∃ t, s.step event = some t ∧ t.NamesStored := by
  cases event with
  | load path spawned => exact h.load (htext path spawned rfl) hfits
  | unload id => exact ⟨_, rfl, h.unload id⟩
  | exit pid => exact ⟨_, rfl, h.onProcessExit pid⟩

theorem NamesStored.run (h : s.NamesStored) {events : List TableEvent}
    (htext : ∀ path spawned, TableEvent.load path spawned ∈ events → IsUtf8 path)
    (hfits : s.FitsAlong events) : ∃ t, s.run events = some t ∧ t.NamesStored := by
  induction events generalizing s with
  | nil => exact ⟨s, rfl, h⟩
  | cons event events ih =>
    obtain ⟨t, hstep, ht⟩ := h.step (fun path spawned heq =>
      htext path spawned (heq ▸ List.mem_cons_self)) hfits.1
    obtain ⟨u, hrun, hu⟩ := ih ht (fun path spawned hmem =>
      htext path spawned (List.mem_cons_of_mem _ hmem)) (hfits.2 t hstep)
    refine ⟨u, ?_, hu⟩
    rw [DriverRun.run, List.foldlM_cons, hstep]
    exact hrun

theorem initial_namesStored : initial.NamesStored := by
  have hempty : ∀ (i : Nat) (e : DriverEntry), initial.table.entries[i]? ≠ some (some e) := by
    intro i e h
    have hmem := List.mem_of_getElem? h
    exact absurd (List.eq_of_mem_replicate hmem) (by simp)
  exact ⟨fun i e h => absurd h (hempty i e), fun i _ e _ h => absurd h (hempty i e)⟩

/-- Whatever drivers come and go, as long as the names that are stored fit the field no load panics
and no name is in the table twice. -/
theorem short_names_stay_distinct (events : List TableEvent)
    (htext : ∀ path spawned, TableEvent.load path spawned ∈ events → IsUtf8 path)
    (hfits : initial.FitsAlong events) :
    ∃ s, initial.run events = some s ∧ s.NamesDistinct := by
  obtain ⟨s, hrun, hs⟩ := initial_namesStored.run htext hfits
  exact ⟨s, hrun, hs.distinct⟩

theorem short_names_stay_distinct_reload : ∃ s,
    initial.run [.load [47, 97] 1, .load [47, 97] 2, .unload 1, .exit 1, .load [47, 97] 3] = some s ∧
      s.NamesDistinct := by
  have hload : ∀ path spawned, TableEvent.load path spawned ∈ [.load [47, 97] 1, .load [47, 97] 2,
      .unload 1, .exit 1, .load [47, 97] 3] → path = [47, 97] := by
    intro path spawned h
    simp only [List.mem_cons, TableEvent.load.injEq, reduceCtorEq, false_or, List.not_mem_nil,
      or_false] at h
    obtain ⟨hpath, -⟩ | ⟨hpath, -⟩ | ⟨hpath, -⟩ := h
    · exact hpath
    · exact hpath
    · exact hpath
  refine short_names_stay_distinct _ ?_ ?_
  · intro path spawned h
    rw [hload path spawned h]
    exact ⟨['/', 'a'], by decide⟩
  · have hshort : (extractName [47, 97]).length ≤ maxName := by decide
    exact ⟨fun _ _ _ => hshort, fun _ _ => ⟨fun _ _ _ => hshort, fun _ _ => ⟨trivial, fun _ _ =>
      ⟨trivial, fun _ _ => ⟨fun _ _ _ => hshort, fun _ _ => trivial⟩⟩⟩⟩⟩

/-- A name of 33 bytes that ends with a character of two bytes. -/
def accentedPath : List UInt8 := List.replicate 31 97 ++ [0xC3, 0xA9]

/-- A name of 33 bytes that may be cut. -/
def longPath : List UInt8 := List.replicate 33 97

/-- Of a name that is too long for the field, the slice panics inside a character; elsewhere the
entry has a shorter name, and the same driver is loaded again. -/
theorem long_names_panic_or_repeat :
    IsUtf8 accentedPath ∧ (initial.run [.load accentedPath 1]).isNone ∧
      IsUtf8 longPath ∧ ∃ s, initial.run [.load longPath 1, .load longPath 2] = some s ∧
        ¬s.NamesDistinct := by
  refine ⟨⟨List.replicate 31 'a' ++ ['é'], by decide⟩, by decide, ⟨List.replicate 33 'a', by decide⟩,
    _, rfl, ?_⟩
  intro h
  exact absurd (h 0 1 _ _ rfl rfl rfl) (by decide)

end DriverRun

/-! The process of a load that fails. -/

section Spawned

variable {k : Kernel} (hd : k.tasks.Distinct)
include hd

/-- One process more, at the privilege asked for, and not marked. -/
structure Creates (k : Kernel) (privilege : PrivilegeLevel) (state : ProcessState)
    (result : Nat × Kernel) (p : Process) : Prop where
  processes : result.2.tasks.processes = k.tasks.processes ++ [p]
  pid : p.pid = k.tasks.nextPid
  returned : result.1 = p.pid
  privilege : p.privilege = privilege
  unmarked : p.killPending = false
  state : p.state = state

variable {p : Process}

theorem updateProcess_concat {ts : Tasks} (hprocesses : ts.processes = k.tasks.processes ++ [p])
    (hpid : p.pid = k.tasks.nextPid) (f : Process → Process) :
    (ts.updateProcess p.pid f).processes = k.tasks.processes ++ [f p] := by
  rw [Tasks.updateProcess, hprocesses]
  refine modifyFirst_concat ?_ (by simp)
  intro q hq
  have hlt := hd.freshPids.below q.pid (List.mem_map_of_mem hq)
  rw [hpid]
  exact decide_eq_false (Nat.ne_of_lt hlt)

theorem spawnKxe_creates (privilege : PrivilegeLevel) (l : Loaded) :
    ((k.spawnKxe privilege (some l)).1 = 0 ∧
        (k.spawnKxe privilege (some l)).2.tasks = k.tasks) ∨
      ∃ p, Creates k privilege .sleeping (k.spawnKxe privilege (some l)) p := by
  unfold spawnKxe
  dsimp only
  cases hstack : l.stack with
  | none => exact .inl ⟨rfl, rfl⟩
  | some stackBase =>
    rw [Tasks.spawnUserProcess_some hd]
    dsimp only
    rw [if_neg (Nat.ne_of_gt hd.pidPositive)]
    let created : Process :=
      { kernelProcess with
        pid := k.tasks.nextPid, state := .sleeping, privilege
        mainTid := some k.tasks.nextTid, threads := [k.tasks.nextTid] }
    refine .inr ⟨{ created with memoryBytes := l.codeSize + userStackSize }, ?_, rfl, rfl, rfl, rfl,
      rfl⟩
    exact updateProcess_concat hd (p := created) rfl rfl
      fun p => { p with memoryBytes := l.codeSize + userStackSize }

theorem spawnFile_creates (accepts : KxeImage → Bool) (privilege : PrivilegeLevel)
    (stack : Option Nat) (file : Option (List UInt8)) (args : List (List UInt8)) :
    ((k.spawnFile accepts privilege stack file args).1 = 0 ∧
        (k.spawnFile accepts privilege stack file args).2.tasks = k.tasks) ∨
      ∃ p, Creates k privilege .sleeping (k.spawnFile accepts privilege stack file args) p := by
  unfold spawnFile
  cases file.bind parseKxe with
  | none => exact .inl ⟨rfl, rfl⟩
  | some image =>
    dsimp only
    split
    · have htasks := createProcessSpace_tasks k image.entry image.code args
      unfold spawnKxeImage
      rcases hspace : k.createProcessSpace image.entry image.code args with ⟨_ | space, k'⟩
      · rw [hspace] at htasks
        exact .inl ⟨rfl, htasks⟩
      · rw [hspace] at htasks
        dsimp only at htasks ⊢
        have hcreates := spawnKxe_creates (htasks ▸ hd) privilege (space.loaded k' image stack)
        rw [htasks] at hcreates
        obtain h | ⟨p, h⟩ := hcreates
        · exact .inl h
        · exact .inr ⟨p, htasks ▸ h.processes, htasks ▸ h.pid, h.returned, h.privilege, h.unmarked,
            h.state⟩
    · exact .inl ⟨rfl, rfl⟩

omit hd in
theorem readied_fst (result : Nat × Kernel) : (readied result).1 = result.1 := by
  unfold readied
  split
  · rfl
  · rfl

/-- A driver can run as soon as its process exists. -/
theorem spawnDriver_creates (stack : Option Nat) (file : Option (List UInt8)) :
    ((k.spawnDriver stack file).1 = 0 ∧ (k.spawnDriver stack file).2.tasks = k.tasks) ∨
      ∃ p, Creates k .driver .ready (k.spawnDriver stack file) p := by
  unfold spawnDriver readied
  obtain h | ⟨p, h⟩ := spawnFile_creates hd (fun image => image.flags &&& kxeFlagDriver ≠ 0) .driver
    stack file []
  · rw [if_pos h.1]
    exact .inl h
  · have hpos : p.pid ≠ 0 := by
      rw [h.pid]
      exact Nat.ne_of_gt hd.pidPositive
    have hready : p.setReady = { p with state := .ready } := by
      rw [Process.setReady, h.state]
    rw [if_neg (h.returned ▸ hpos)]
    refine .inr ⟨p.setReady, ?_, ?_, ?_, ?_, ?_, ?_⟩
    · dsimp only
      rw [h.returned]
      exact (Tasks.onMain_processes _ _ _).trans (updateProcess_concat hd h.processes h.pid _)
    · rw [hready]
      exact h.pid
    · rw [hready]
      exact h.returned
    · rw [hready]
      exact h.privilege
    · rw [hready]
      exact h.unmarked
    · rw [hready]

/-- The kill that follows a load without a slot spares the driver. -/
theorem killPid_creates {k' : Kernel} {state : ProcessState}
    (h : Creates k .driver state (p.pid, k') p) : k'.tasks.killPid p.pid = k'.tasks := by
  have hold : k.tasks.processes.find? (·.pid = p.pid) = none := by
    rw [List.find?_eq_none]
    intro q hq
    have hlt := hd.freshPids.below q.pid (List.mem_map_of_mem hq)
    rw [h.pid]
    simpa using Nat.ne_of_lt hlt
  have hfound : k'.tasks.process p.pid = some p := by
    rw [Tasks.process, h.processes, List.find?_append, hold, Option.none_or,
      List.find?_singleton, if_pos (decide_eq_true rfl)]
  rw [Tasks.killPid, hfound]
  dsimp only
  rw [h.privilege]
  exact ite_self _

/-- After a load that fails no process of it can run, except where a driver was started and there
is no slot for it. -/
theorem failed_load_leaves_none_running_iff {t : DriverTable} {path : List UInt8}
    (htext : IsUtf8 path) {stack : Option Nat} {file : Option (List UInt8)} {k' : Kernel}
    {t' : DriverTable} (hfail : t.load k path stack file = some (none, k', t')) :
    (∀ p ∈ k'.tasks.processes, p.pid ∉ k.tasks.processes.map (·.pid) → p.killPending = true) ↔
      t.full = false ∨ t.hasName (extractName path) = true ∨ (k.spawnDriver stack file).1 = 0 := by
  have hnone : ∀ {ts : Tasks}, ts.processes = k.tasks.processes →
      ∀ p ∈ ts.processes, p.pid ∉ k.tasks.processes.map (·.pid) → p.killPending = true := by
    intro ts hsame p hp hnew
    rw [hsame] at hp
    exact absurd (List.mem_map_of_mem hp) hnew
  unfold DriverTable.load at hfail
  rw [extractNameSlices_eq htext] at hfail
  dsimp only [Option.bind_eq_bind, Option.bind_some] at hfail
  by_cases hname : t.hasName (extractName path) = true
  · rw [if_pos hname] at hfail
    cases hfail
    exact iff_of_true (hnone rfl) (.inr (.inl hname))
  rw [if_neg hname] at hfail
  have hspawn := spawnDriver_creates hd stack file
  rcases hdriver : k.spawnDriver stack file with ⟨pid, k₁⟩
  rw [hdriver] at hfail hspawn
  dsimp only at hfail hspawn
  obtain ⟨rfl, htasks⟩ | ⟨p, hcreates⟩ := hspawn
  · rw [if_pos rfl] at hfail
    cases hfail
    exact iff_of_true (hnone (by rw [htasks])) (.inr (.inr rfl))
  obtain rfl : pid = p.pid := hcreates.returned
  have hpos : p.pid ≠ 0 := by
    rw [hcreates.pid]
    exact Nat.ne_of_gt hd.pidPositive
  rw [if_neg hpos] at hfail
  rcases hrecord : t.record (extractName path) p.pid with _ | ⟨_ | id, t₁⟩
  · rw [hrecord] at hfail
    cases hfail
  · have hfull := DriverTable.full_of_record hrecord
    rw [hrecord] at hfail
    cases hfail
    refine iff_of_false ?_ (by simp [hname, hpos, hfull])
    intro h
    have hp : p ∈ (k₁.onTasks (·.killPid p.pid)).tasks.processes := by
      rw [onTasks_tasks, killPid_creates hd hcreates, hcreates.processes]
      simp
    have hnew : p.pid ∉ k.tasks.processes.map (·.pid) := by
      intro hmem
      have hlt := hd.freshPids.below p.pid hmem
      rw [hcreates.pid] at hlt
      exact Nat.lt_irrefl _ hlt
    have hmarked := h p hp hnew
    rw [hcreates.unmarked] at hmarked
    cases hmarked
  · rw [hrecord] at hfail
    cases hfail

end Spawned

theorem failed_load_leaves_none_running_iff_noFile : ∃ k' t',
    DriverTable.initial.load (loaderKernel []) [47, 97] none none = some (none, k', t') ∧
      ∀ p ∈ k'.tasks.processes, p.pid ∉ (loaderKernel []).tasks.processes.map (·.pid) →
        p.killPending = true := by
  have hfail : DriverTable.initial.load (loaderKernel []) [47, 97] none none =
      some (none, loaderKernel [], .initial) := rfl
  have htext : IsUtf8 [47, 97] := ⟨['/', 'a'], by decide⟩
  exact ⟨_, _, hfail, (failed_load_leaves_none_running_iff (loaderKernel_distinct _) htext hfail).mpr
    (.inl (by decide))⟩

def driverImage : List UInt8 := buildKxe [0xC3] 0 kxeFlagDriver

theorem loaderKernel_drives :
    ((loaderKernel loaderTables).spawnDriver (some 0x50000) (some driverImage)).1 ≠ 0 := by
  have hparses : parseKxe driverImage = some ⟨userBase, [0xC3], kxeFlagDriver⟩ := by decide +kernel
  have hloads : ∀ image : KxeImage, image.entry = userBase → image.code = [0xC3] → ∃ space,
      ((loaderKernel loaderTables).createProcessSpace image.entry image.code []).1 = some space := by
    intro image hentry hcode
    rw [hentry, hcode]
    exact loaderKernel_loads userBase
  obtain ⟨space, hspace⟩ := hloads ⟨userBase, [0xC3], kxeFlagDriver⟩ rfl rfl
  have hfile := (spawnFile_starts (loaderKernel_distinct _)
    (fun image => image.flags &&& kxeFlagDriver ≠ 0) .driver 0x50000 hparses (by decide) hspace).1
  rw [spawnDriver, readied_fst]
  exact hfile

/-- As many drivers as there are slots. -/
def fullTable : DriverTable :=
  ⟨(List.range maxDrivers).map fun i => some ⟨i + 1, [UInt8.ofNat i], i + 10, .running⟩, 17⟩

/-- The next driver runs without an entry. -/
theorem unlisted_driver_runs : ∃ k',
    fullTable.load (loaderKernel loaderTables) [47, 97] (some 0x50000) (some driverImage) =
      some (none, k', fullTable) ∧
    ∃ p ∈ k'.tasks.processes, p.pid ∉ (loaderKernel loaderTables).tasks.processes.map (·.pid) ∧
      p.state = .ready ∧ p.killPending = false := by
  have hname : extractNameSlices [47, 97] = some [97] := by decide
  have hnew : fullTable.hasName [97] = false := by decide
  have hspawns := loaderKernel_drives
  obtain ⟨hfailed, -⟩ | ⟨p, hcreates⟩ :=
    spawnDriver_creates (loaderKernel_distinct loaderTables) (some 0x50000)
      (some driverImage)
  · exact absurd hfailed hspawns
  rcases hdriver : (loaderKernel loaderTables).spawnDriver (some 0x50000) (some driverImage) with
    ⟨pid, k'⟩
  rw [hdriver] at hspawns hcreates
  obtain rfl : pid = p.pid := hcreates.returned
  have hkill : (k'.onTasks (·.killPid p.pid)).tasks = k'.tasks :=
    (onTasks_tasks _ _).trans (killPid_creates (loaderKernel_distinct loaderTables) hcreates)
  refine ⟨k'.onTasks (·.killPid p.pid), ?_, p, ?_, ?_, hcreates.state, hcreates.unmarked⟩
  · exact DriverTable.load_full hname hnew hdriver hspawns (by decide)
  · rw [hkill, hcreates.processes]
    simp
  · rw [hcreates.pid]
    decide

end KazuOS.Kernel
