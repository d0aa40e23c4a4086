import KazuOS.Fs.Handles
import KazuOS.Kernel.FdRuns
import KazuOS.Lib.Utf8

/-! Listings of directories. An entry has 32 bytes for a name, the last of them zero, and the
name it gets is the start of the whole path. -/
namespace KazuOS

open KazuOS.Lib Fs

/-- `UserDirEntry`. -/
structure UserDirEntry where
  kind : UInt8
  name : List UInt8
  deriving DecidableEq

def readdirNameLen : Nat := 32
def readdirCap : Nat := 64

/-- A name in an entry: what does not fit is cut off, and zeros follow. -/
def nameField (name : List UInt8) : List UInt8 :=
  (name.take (readdirNameLen - 1)).rightpad readdirNameLen 0

def Fs.DirEntry.name (e : DirEntry) : Path := (fromUtf8 e.path).toOption.getD []

def Fs.FileType.code : FileType → UInt8
  | .directory => 1
  | .file => 0

def Fs.DirEntry.toUser (e : DirEntry) : UserDirEntry := ⟨e.kind.code, nameField e.name⟩

def devPath : Path := asBytes "/dev"

def devEntry : UserDirEntry := ⟨1, nameField (asBytes "dev")⟩

def deviceEntry (name : Path) : UserDirEntry :=
  ⟨2, nameField ((stripPrefix (asBytes "/dev/") name).getD name)⟩

namespace FileKernel

open Kernel

def readdirPath (s : FileKernel) (cpu ptr : Nat) (bytes : List UInt8) : Option Path :=
  if ptr = 0 ∨ bytes = [] then some root
  else if s.validateRange cpu ptr bytes.length false then (fromUtf8 bytes).toOption
  else none

/-- The entries that are written, as many as the call returns. -/
def sysReaddir (s : FileKernel) (cpu ptr : Nat) (bytes : List UInt8) (outPtr : Nat) :
    Option (List UserDirEntry) :=
  if outPtr = 0 then none
  else if !s.validateRange cpu outPtr (readdirCap * (1 + readdirNameLen)) true then none
  else do
    let path ← s.readdirPath cpu ptr bytes
    if path = devPath ∨ path = asBytes "/dev/" then
      return (s.devices.map deviceEntry).take readdirCap
    let entries ← (s.nodes.readDir path readdirCap).toOption
    let listed := entries.map DirEntry.toUser
    return (if path = root then listed ++ [devEntry] else listed).take readdirCap

def children (s : FileKernel) (dir : Path) : List Node :=
  s.nodes.nodes.filter fun n => isChild dir n.path

/-- A listing of a directory of a tree, small enough for the buffer. -/
structure CanList (s : FileKernel) (cpu ptr : Nat) (bytes : List UInt8) (outPtr : Nat)
    (dir : Path) : Prop where
  tree : s.nodes.IsTree
  path : s.readdirPath cpu ptr bytes = some dir
  found : ∃ n ∈ s.nodes.nodes, n.path = dir ∧ n.isDir = true
  few : (s.children dir).length ≤ 63
  buffer : outPtr ≠ 0
  writable : s.validateRange cpu outPtr (readdirCap * (1 + readdirNameLen)) true = true

/-- There is one entry for each child, and one more in the root; children have a name each. -/
def Lists (s : FileKernel) (cpu ptr : Nat) (bytes : List UInt8) (outPtr : Nat) (dir : Path) : Prop :=
  ∃ (entries : List UserDirEntry) (name : Node → List UInt8),
    s.sysReaddir cpu ptr bytes outPtr = some entries ∧
    entries.Perm ((s.children dir).map (fun n => ⟨n.kind.code, name n⟩) ++
      if dir = root then [devEntry] else []) ∧
    ((s.children dir).map name).Nodup

/-- The first bytes of a path, as many as an entry has, end within a character. -/
def CutWithin (path : Path) : Prop := ¬IsUtf8 (path.take pathCap)

/-- Two paths are shown the same: both without a name, or with names that start alike. -/
def ShownAlike (a b : Path) : Prop :=
  CutWithin a ∧ CutWithin b ∨
    ¬CutWithin a ∧ ¬CutWithin b ∧ ∀ i < readdirNameLen - 1, a.getD i 0 = b.getD i 0

end FileKernel

/-! The children of a directory. -/

theorem children_eq {path : Path} {ns : List Node} {room : Nat}
    (hroom : (ns.filter fun n => isChild path n.path).length ≤ room) :
    Table.children path room ns = .ok ((ns.filter fun n => isChild path n.path).map Node.dirEntry) := by
  induction ns generalizing room with
  | nil => rfl
  | cons n rest ih =>
    cases hchild : isChild path n.path with
    | false =>
      rw [List.filter_cons_of_neg (by simp [hchild])] at hroom ⊢
      simp only [Table.children, hchild, Bool.not_false, if_true]
      exact ih hroom
    | true =>
      rw [List.filter_cons_of_pos (p := fun n : Node => isChild path n.path) hchild] at hroom ⊢
      cases room with
      | zero => simp at hroom
      | succ room =>
        simp only [Table.children, hchild, Bool.not_true, Bool.false_eq_true, if_false,
          ih (Nat.le_of_succ_le_succ hroom)]
        rfl

/-! Names. -/

theorem nameField_eq_iff {a b : List UInt8} :
    nameField a = nameField b ↔ ∀ i < readdirNameLen - 1, a.getD i 0 = b.getD i 0 := by
  have hget : ∀ (name : List UInt8) (i : Nat), (nameField name).getD i 0 =
      if i < readdirNameLen - 1 then name.getD i 0 else 0 := by
    intro name i
    simp only [nameField, List.rightpad, List.getD_eq_getElem?_getD, List.getElem?_append,
      List.getElem?_take, List.getElem?_replicate, List.length_take]
    grind
  have hlength : ∀ name : List UInt8, (nameField name).length = readdirNameLen := by
    intro name
    simp only [nameField, List.rightpad, List.length_append, List.length_replicate,
      List.length_take, readdirNameLen]
    omega
  constructor
  · intro h i hi
    have hi' : (nameField a).getD i 0 = (nameField b).getD i 0 := by rw [h]
    rwa [hget, hget, if_pos hi, if_pos hi] at hi'
  · intro h
    apply List.ext_getElem ((hlength a).trans (hlength b).symm)
    intro i hia hib
    have hi : (nameField a).getD i 0 = (nameField b).getD i 0 := by
      rw [hget, hget]
      split
      · exact h i ‹_›
      · rfl
    rwa [List.getD_eq_getElem _ _ hia, List.getD_eq_getElem _ _ hib] at hi

theorem Fs.Node.name_dirEntry (n : Node) :
    n.dirEntry.name = if IsUtf8 (n.path.take pathCap) then n.path.take pathCap else [] := by
  unfold DirEntry.name fromUtf8
  rw [show n.dirEntry.path = n.path.take pathCap from rfl]
  by_cases hutf8 : IsUtf8 (n.path.take pathCap)
  · rw [if_pos ((isUtf8_iff_validate _).mp hutf8), if_pos hutf8]
    rfl
  · rw [if_neg (mt (isUtf8_iff_validate _).mpr hutf8), if_neg hutf8]
    rfl

namespace FileKernel

open Kernel

variable {s : FileKernel} {cpu ptr outPtr : Nat} {bytes : List UInt8} {dir : Path}

/-- Paths start with a slash, so that none is shown like one without a name. -/
theorem nameField_eq_nameField {a b : Node} (ha : Valid a.path) (hb : Valid b.path) :
    nameField a.dirEntry.name = nameField b.dirEntry.name ↔ ShownAlike a.path b.path := by
  have hslash : ∀ {path : Path}, Valid path → path.getD 0 0 ≠ 0 := by
    intro path hpath
    obtain ⟨rest, rfl⟩ := absolute_iff.mp hpath.absolute
    exact (by decide : Fs.slash ≠ 0)
  have htake : ∀ (path : Path) (i : Nat), i < readdirNameLen - 1 →
      (path.take pathCap).getD i 0 = path.getD i 0 := by
    intro path i hi
    rw [List.getD_eq_getElem?_getD, List.getElem?_take_of_lt (Nat.lt_trans hi (by decide)),
      List.getD_eq_getElem?_getD]
  rw [nameField_eq_iff, Node.name_dirEntry, Node.name_dirEntry]
  unfold ShownAlike CutWithin
  by_cases hta : IsUtf8 (a.path.take pathCap) <;> by_cases htb : IsUtf8 (b.path.take pathCap)
  · simp only [hta, htb, if_true, not_true_eq_false, false_and, false_or, not_false_eq_true,
      true_and]
    exact forall₂_congr fun i hi => by rw [htake _ i hi, htake _ i hi]
  · simp only [hta, htb, if_true, if_false, not_true_eq_false, false_and, and_false, or_false,
      iff_false, not_false_eq_true]
    intro h
    exact hslash ha ((htake _ 0 (by decide)).symm.trans (h 0 (by decide)))
  · simp only [hta, htb, if_true, if_false, not_true_eq_false, false_and, and_false, or_false,
      iff_false, not_false_eq_true]
    intro h
    exact hslash hb ((htake _ 0 (by decide)).symm.trans (h 0 (by decide)).symm)
  · simp [hta, htb]

namespace CanList

variable (h : s.CanList cpu ptr bytes outPtr dir)
include h

theorem valid : Valid dir := by
  obtain ⟨n, hn, rfl, -⟩ := h.found
  exact validatePath_ok_iff.mp (h.tree.valid n hn)

theorem readDir : s.nodes.readDir dir readdirCap =
    .ok ((s.children dir).map Node.dirEntry) := by
  obtain ⟨n, hn, hpath, hdir⟩ := h.found
  obtain ⟨i, g, hslot⟩ := Arena.mem_nodes.mp hn
  have hfind := find_of_slot h.tree.toIsNamed hslot
  rw [hpath] at hfind
  have hfew := h.few
  have hchildren := children_eq (Nat.le_trans hfew (by decide : 63 ≤ readdirCap))
  simp only [Table.readDir, validatePath_ok_iff.mpr h.valid, hfind, hdir]
  exact hchildren

theorem sysReaddir_dev (hdev : dir = devPath) :
    s.sysReaddir cpu ptr bytes outPtr = some ((s.devices.map deviceEntry).take readdirCap) := by
  unfold sysReaddir
  rw [if_neg h.buffer, h.writable, h.path]
  simp [hdev]

theorem sysReaddir_dir (hdev : dir ≠ devPath) : s.sysReaddir cpu ptr bytes outPtr =
    some ((s.children dir).map (fun n => n.dirEntry.toUser) ++
      if dir = root then [devEntry] else []) := by
  have hslash : dir ≠ asBytes "/dev/" := by
    rintro rfl
    exact absurd (validatePath_ok_iff.mpr h.valid) (by decide)
  have hfew := h.few
  have hall : (if dir = root then (s.children dir).map (fun n => n.dirEntry.toUser) ++ [devEntry]
        else (s.children dir).map fun n => n.dirEntry.toUser) =
      (s.children dir).map (fun n => n.dirEntry.toUser) ++ if dir = root then [devEntry] else [] := by
    split
    · rfl
    · rw [List.append_nil]
  have hlength : ((s.children dir).map (fun n => n.dirEntry.toUser) ++
      if dir = root then [devEntry] else []).length ≤ readdirCap := by
    rw [List.length_append, List.length_map]
    have hone : (if dir = root then [devEntry] else []).length ≤ 1 := by split <;> decide
    have hcap : readdirCap = 64 := rfl
    omega
  unfold sysReaddir
  rw [if_neg h.buffer, h.writable, h.path]
  simp only [Bool.not_true, Bool.false_eq_true, if_false, Option.bind_eq_bind, Option.bind_some,
    hdev, hslash, or_self, h.readDir, Except.toOption, List.map_map, Option.pure_def]
  rw [← List.take_of_length_le hlength, ← hall]
  rfl

end CanList

theorem nodup_children (h : s.nodes.IsTree) (dir : Path) : (s.children dir).Nodup :=
  h.distinct.of_map.filter _

/-- Devices are listed in the place of the children of `/dev`. -/
theorem lists_dev_iff (h : s.CanList cpu ptr bytes outPtr dir) (hdev : dir = devPath) :
    s.Lists cpu ptr bytes outPtr dir ↔ s.children dir = [] ∧ s.devices = [] := by
  have hroot : dir ≠ root := by
    rw [hdev]
    decide
  unfold Lists
  rw [h.sysReaddir_dev hdev, if_neg hroot]
  simp only [List.append_nil]
  constructor
  · rintro ⟨entries, name, ⟨⟩, hperm, -⟩
    have hdevices : s.devices = [] := by
      by_contra hne
      obtain ⟨device, rest, hcons⟩ := List.exists_cons_of_ne_nil hne
      have hfirst : deviceEntry device ∈ (s.devices.map deviceEntry).take readdirCap := by
        rw [hcons]
        exact List.mem_cons_self
      obtain ⟨n, -, hkind⟩ := List.mem_map.mp (hperm.subset hfirst)
      have htwo : n.kind.code = 2 := congrArg UserDirEntry.kind hkind
      cases hk : n.kind <;> rw [hk] at htwo <;> exact absurd htwo (by decide)
    rw [hdevices] at hperm
    exact ⟨List.map_eq_nil_iff.mp (List.nil_perm.mp hperm), hdevices⟩
  · rintro ⟨hchildren, hdevices⟩
    rw [hchildren, hdevices]
    exact ⟨[], fun _ => [], rfl, .refl _, List.nodup_nil⟩

/-- Every other directory has its entries; only their names may be the same. -/
theorem lists_dir_iff (h : s.CanList cpu ptr bytes outPtr dir) (hdev : dir ≠ devPath) :
    s.Lists cpu ptr bytes outPtr dir ↔
      ((s.children dir).map fun n => nameField n.dirEntry.name).Nodup := by
  unfold Lists
  rw [h.sysReaddir_dir hdev]
  constructor
  · rintro ⟨entries, name, ⟨⟩, hperm, hnodup⟩
    have hnames := ((List.perm_append_right_iff _).mp hperm).map UserDirEntry.name
    rw [List.map_map, List.map_map] at hnames
    exact hnames.symm.nodup hnodup
  · exact fun hnodup => ⟨_, fun n => nameField n.dirEntry.name, rfl, .refl _, hnodup⟩

/-- A listing is right just if it is of a directory other than `/dev`, or of an empty one without
devices, and no two paths in it are shown alike. -/
theorem readdir_lists_iff (h : s.CanList cpu ptr bytes outPtr dir) :
    s.Lists cpu ptr bytes outPtr dir ↔
      (dir = devPath → s.children dir = [] ∧ s.devices = []) ∧
        ∀ a ∈ s.children dir, ∀ b ∈ s.children dir, a ≠ b → ¬ShownAlike a.path b.path := by
  have hvalid : ∀ n ∈ s.children dir, Valid n.path := fun n hn =>
    validatePath_ok_iff.mp (h.tree.valid n (List.mem_filter.mp hn).1)
  by_cases hdev : dir = devPath
  · rw [lists_dev_iff h hdev]
    constructor
    · intro hempty
      refine ⟨fun _ => hempty, ?_⟩
      rw [hempty.1]
      exact nofun
    · exact fun hboth => hboth.1 hdev
  · rw [lists_dir_iff h hdev, List.nodup_map_iff_inj_on (nodup_children h.tree dir)]
    constructor
    · intro hinj
      refine ⟨fun heq => absurd heq hdev, fun a ha b hb hne hlike => hne ?_⟩
      exact hinj a ha b hb ((nameField_eq_nameField (hvalid a ha) (hvalid b hb)).mpr hlike)
    · rintro ⟨-, hnames⟩ a ha b hb heq
      by_contra hne
      exact hnames a ha b hb hne ((nameField_eq_nameField (hvalid a ha) (hvalid b hb)).mp heq)

/-- Files in the root. -/
def withFiles (paths : List Path) : FileKernel :=
  { smallBoot with nodes := rootOnly ++ paths.map fun path => ⟨0, some ⟨path, false, []⟩⟩ }

theorem readdir_lists_iff_oneFile :
    (withFiles [asBytes "/a"]).Lists 0 0 [] 0x8000000000 root := by
  have hlist : (withFiles [asBytes "/a"]).CanList 0 0 [] 0x8000000000 root :=
    ⟨⟨⟨⟨by decide, by decide⟩, ⟨0, _, rfl, rfl, rfl⟩⟩, by decide⟩, rfl,
      ⟨⟨root, true, []⟩, by decide⟩, by decide, by decide, by decide⟩
  have hone : ∀ n ∈ (withFiles [asBytes "/a"]).children root, n = ⟨asBytes "/a", false, []⟩ := by
    decide
  refine (readdir_lists_iff hlist).mpr ⟨fun hdev => absurd hdev (by decide), ?_⟩
  intro a ha b hb hne
  exact absurd ((hone a ha).trans (hone b hb).symm) hne

/-- Two names of 31 bytes that differ in the last. -/
def longNames : List Path := [47 :: List.replicate 30 97 ++ [98], 47 :: List.replicate 30 97 ++ [99]]

theorem long_names_are_listed_alike :
    (withFiles longNames).CanList 0 0 [] 0x8000000000 root ∧
      ((withFiles longNames).sysReaddir 0 0 [] 0x8000000000).map (·.map UserDirEntry.name) =
        some [47 :: List.replicate 30 97 ++ [0], 47 :: List.replicate 30 97 ++ [0],
          nameField (asBytes "dev")] := by
  refine ⟨⟨⟨⟨⟨by decide, by decide⟩, ⟨0, _, rfl, rfl, rfl⟩⟩, by decide⟩, rfl,
    ⟨⟨root, true, []⟩, by decide⟩, by decide, by decide, by decide⟩, by decide⟩

end FileKernel

end KazuOS
