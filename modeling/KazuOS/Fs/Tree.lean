import KazuOS.Fs.Vfs
import KazuOS.Lib.Table

/-! A filesystem gives paths kinds and contents, and its paths form a tree. Every call on
the table of nodes is one change of that tree at the path it names. -/
namespace KazuOS.Fs

open KazuOS.Lib

structure Content where
  isDir : Bool
  data : List UInt8
  deriving DecidableEq, Repr

abbrev Files := Path → Option Content

namespace Files

/-- A path is a directory. -/
def HasDir (files : Files) (path : Path) : Prop := ∃ data, files path = some ⟨true, data⟩

structure IsTree (files : Files) : Prop where
  root : files.HasDir root
  valid : ∀ {path c}, files path = some c → Valid path
  parent : ∀ {path c}, files path = some c → path ≠ Fs.root → files.HasDir (parentOf path)

/-- What a call may do at a path. -/
inductive Change (files : Files) (path : Path) : Files → Prop where
  | same : Change files path files
  | make (isDir : Bool) (valid : Valid path) (notRoot : path ≠ Fs.root)
      (fresh : files path = none) (parent : files.HasDir (parentOf path)) :
      Change files path (Function.update files path (some ⟨isDir, []⟩))
  | remove {c : Content} (found : files path = some c) (notRoot : path ≠ Fs.root)
      (childless : ∀ q c, files q = some c → q ≠ Fs.root → parentOf q ≠ path) :
      Change files path (Function.update files path none)
  | write {data : List UInt8} (data' : List UInt8) (found : files path = some ⟨false, data⟩) :
      Change files path (Function.update files path (some ⟨false, data'⟩))

theorem Change.other {files files' : Files} {path q : Path} (h : Change files path files')
    (hq : q ≠ path) : files' q = files q := by
  cases h with
  | same => rfl
  | make | remove | write => exact Function.update_of_ne hq _ _

variable {files : Files} {path : Path}

theorem HasDir.update {path q : Path} {c : Option Content} (h : files.HasDir q)
    (hq : q ≠ path) : HasDir (Function.update files path c) q := by
  obtain ⟨data, hdata⟩ := h
  exact ⟨data, by rwa [Function.update_of_ne hq]⟩

/-- A path that is no directory gets new content, below a directory. -/
theorem IsTree.put (h : files.IsTree) (c : Content) (notDir : ¬files.HasDir path)
    (valid : Valid path) (parent : path ≠ Fs.root → files.HasDir (parentOf path)) :
    IsTree (Function.update files path (some c)) := by
  have hdir : ∀ q, files.HasDir q → HasDir (Function.update files path (some c)) q := by
    intro q hq
    apply hq.update
    rintro rfl
    exact notDir hq
  refine ⟨hdir _ h.root, ?_, ?_⟩
  · intro q c' hq
    by_cases heq : q = path
    · exact heq ▸ valid
    · rw [Function.update_of_ne heq] at hq
      exact h.valid hq
  · intro q c' hq hroot
    by_cases heq : q = path
    · exact heq ▸ hdir _ (parent (heq ▸ hroot))
    · rw [Function.update_of_ne heq] at hq
      exact hdir _ (h.parent hq hroot)

theorem IsTree.remove (h : files.IsTree) (notRoot : path ≠ Fs.root)
    (childless : ∀ q c, files q = some c → q ≠ Fs.root → parentOf q ≠ path) :
    IsTree (Function.update files path none) := by
  have hkept : ∀ q c, Function.update files path none q = some c → files q = some c := by
    intro q c hq
    by_cases heq : q = path
    · simp [heq] at hq
    · rwa [Function.update_of_ne heq] at hq
  refine ⟨h.root.update notRoot.symm, fun hq => h.valid (hkept _ _ hq), ?_⟩
  intro q c hq hroot
  have hq := hkept q c hq
  exact (h.parent hq hroot).update (childless q c hq hroot)

theorem IsTree.change {files files' : Files} (h : files.IsTree)
    (hchange : Change files path files') : files'.IsTree := by
  cases hchange with
  | same => exact h
  | make isDir valid notRoot fresh parent =>
    refine h.put _ ?_ valid fun _ => parent
    rintro ⟨data, hdata⟩
    cases fresh.symm.trans hdata
  | remove found notRoot childless => exact h.remove notRoot childless
  | write data' found =>
    refine h.put _ ?_ (h.valid found) (h.parent found)
    rintro ⟨data, hdata⟩
    cases found.symm.trans hdata

/-- Nothing lies in a file. -/
theorem IsTree.childless {data : List UInt8} (h : files.IsTree)
    (hfile : files path = some ⟨false, data⟩) (q : Path) (c : Content) (hq : files q = some c)
    (hroot : q ≠ Fs.root) : parentOf q ≠ path := by
  rintro rfl
  obtain ⟨_, hdir⟩ := h.parent hq hroot
  rw [hfile] at hdir
  cases hdir

end Files
/-! What a list of nodes says about paths. -/

def Node.content (n : Node) : Content := ⟨n.isDir, n.data⟩

def contentsOf (l : List Node) : Files := fun path => (l.find? (·.path = path)).map Node.content

theorem contentsOf_cons (n : Node) (l : List Node) :
    contentsOf (n :: l) = Function.update (contentsOf l) n.path (some n.content) := by
  funext path
  by_cases h : path = n.path
  · simp [contentsOf, h]
  · simp [contentsOf, Function.update_of_ne h, Ne.symm h]

section Distinct

variable {l l' : List Node} (hdistinct : (l.map Node.path).Nodup)
include hdistinct

variable {path : Path} {n : Node}

theorem find_eq_some_iff :
    l.find? (·.path = path) = some n ↔ n ∈ l ∧ n.path = path := by
  constructor
  · intro h
    exact ⟨List.mem_of_find?_eq_some h, by simpa using List.find?_some h⟩
  · rintro ⟨hn, rfl⟩
    exact find?_of_mem Node.path hdistinct hn

theorem contentsOf_eq_some {c : Content} :
    contentsOf l path = some c ↔ ∃ n ∈ l, n.path = path ∧ n.content = c := by
  simp only [contentsOf, Option.map_eq_some_iff, find_eq_some_iff hdistinct, and_assoc]

theorem contentsOf_perm (h : l.Perm l') : contentsOf l = contentsOf l' := by
  funext path
  apply Option.ext
  intro c
  rw [contentsOf_eq_some hdistinct, contentsOf_eq_some ((h.map _).nodup hdistinct)]
  simp only [h.mem_iff]

/-- Each node is found under its path only. -/
theorem contentsOf_split {others : List Node} (h : l.Perm (n :: others)) :
    contentsOf l = Function.update (contentsOf others) n.path (some n.content) ∧
      contentsOf others n.path = none ∧ (others.map Node.path).Nodup := by
  have hnodup := (h.map Node.path).nodup hdistinct
  rw [List.map_cons, List.nodup_cons] at hnodup
  refine ⟨?_, ?_, hnodup.2⟩
  · rw [contentsOf_perm hdistinct h, contentsOf_cons]
  · rw [contentsOf, Option.map_eq_none_iff, List.find?_eq_none]
    intro m hm hpath
    exact hnodup.1 (List.mem_map.mpr ⟨m, hm, by simpa using hpath⟩)

end Distinct

theorem contentsOf_eq_none {l : List Node} {path : Path} :
    contentsOf l path = none ↔ ∀ n ∈ l, n.path ≠ path := by
  simp [contentsOf]

/-! The table. -/

namespace Table

def contents (nodes : Table) : Files := contentsOf nodes.nodes

/-- The live nodes have valid paths and no two the same. -/
structure IsNamed (nodes : Table) : Prop where
  distinct : (nodes.nodes.map Node.path).Nodup
  valid : ∀ n ∈ nodes.nodes, validatePath n.path = .ok ()

/-- Slot 0 is the root directory. -/
structure IsRooted (nodes : Table) : Prop extends IsNamed nodes where
  slot : ∃ generation n, nodes[0]? = some ⟨generation, some n⟩ ∧ n.path = root ∧ n.isDir = true

/-- The live nodes form a tree. -/
structure IsTree (nodes : Table) : Prop extends IsRooted nodes where
  parent : ∀ n ∈ nodes.nodes, n.path ≠ root →
    ∃ d ∈ nodes.nodes, d.path = parentOf n.path ∧ d.isDir = true

variable {path : Path} {nodes : Table}

theorem hasDir_contents (hdistinct : (nodes.nodes.map Node.path).Nodup)
    :
    nodes.contents.HasDir path ↔ ∃ d ∈ nodes.nodes, d.path = path ∧ d.isDir = true := by
  constructor
  · rintro ⟨data, hdata⟩
    obtain ⟨d, hd, hpath, hcontent⟩ := (contentsOf_eq_some hdistinct).mp hdata
    exact ⟨d, hd, hpath, congrArg Content.isDir hcontent⟩
  · rintro ⟨d, hd, hpath, hdir⟩
    exact ⟨d.data, (contentsOf_eq_some hdistinct).mpr ⟨d, hd, hpath, by rw [← hdir]; rfl⟩⟩

theorem isTree_iff :
    nodes.IsTree ↔
      (∃ generation n, nodes[0]? = some ⟨generation, some n⟩ ∧ n.path = root ∧ n.isDir = true) ∧
        (nodes.nodes.map Node.path).Nodup ∧ nodes.contents.IsTree := by
  constructor
  · intro h
    refine ⟨h.slot, h.distinct, ?_, ?_, ?_⟩
    · obtain ⟨generation, n, hslot, hpath, hdir⟩ := h.slot
      exact (hasDir_contents h.distinct).mpr
        ⟨n, Arena.mem_nodes.mpr ⟨0, generation, hslot⟩, hpath, hdir⟩
    · intro path c hc
      obtain ⟨n, hn, rfl, -⟩ := (contentsOf_eq_some h.distinct).mp hc
      exact validatePath_ok_iff.mp (h.valid n hn)
    · intro path c hc hroot
      obtain ⟨n, hn, rfl, -⟩ := (contentsOf_eq_some h.distinct).mp hc
      exact (hasDir_contents h.distinct).mpr (h.parent n hn hroot)
  · rintro ⟨hslot, hdistinct, htree⟩
    have hfound : ∀ n ∈ nodes.nodes, nodes.contents n.path = some n.content := fun n hn =>
      (contentsOf_eq_some hdistinct).mpr ⟨n, hn, rfl, rfl⟩
    refine ⟨⟨⟨hdistinct, ?_⟩, hslot⟩, ?_⟩
    · intro n hn
      exact validatePath_ok_iff.mpr (htree.valid (hfound n hn))
    · intro n hn hroot
      exact (hasDir_contents hdistinct).mp (htree.parent (hfound n hn) hroot)

/-- What a call may do to the table, with the path it does it at. -/
inductive Change (nodes : Table) : Path → Table → Prop where
  | same (path : Path) : Change nodes path nodes
  | makes {n : Node} (empty : n.data = []) (valid : Valid n.path) (notRoot : n.path ≠ root)
      (fresh : ∀ m ∈ nodes.nodes, m.path ≠ n.path)
      (parent : ∃ d ∈ nodes.nodes, d.path = parentOf n.path ∧ d.isDir = true) :
      Change nodes n.path (nodes.insert n).2
  | removes {i : Nat} {generation : UInt32} {n : Node}
      (slot : nodes[i]? = some ⟨generation, some n⟩)
      (dir : n.isDir = true → n.path ≠ root ∧ ∀ m ∈ nodes.nodes, isChild n.path m.path = false) :
      Change nodes n.path (nodes.put i none)
  | writes {i : Nat} {generation : UInt32} {n : Node} (data : List UInt8)
      (slot : nodes[i]? = some ⟨generation, some n⟩) (file : n.isDir = false) :
      Change nodes n.path (nodes.put i (some { n with data }))

section Distinct

variable {nodes : Table} (hdistinct : (nodes.nodes.map Node.path).Nodup)
include hdistinct

variable {generation : UInt32} {n : Node} {i : Nat}

theorem contents_of_slot
    (slot : nodes[i]? = some ⟨generation, some n⟩) : nodes.contents n.path = some n.content :=
  (contentsOf_eq_some hdistinct).mpr ⟨n, Arena.mem_nodes.mpr ⟨i, generation, slot⟩, rfl, rfl⟩

theorem contents_insert (fresh : ∀ m ∈ nodes.nodes, m.path ≠ n.path) :
    ((nodes.insert n).2.nodes.map Node.path).Nodup ∧ contents (nodes.insert n).2 =
      Function.update nodes.contents n.path (some n.content) := by
  have hperm := nodes.nodes_insert n
  have hcons : ((n :: nodes.nodes).map Node.path).Nodup := by
    rw [List.map_cons, List.nodup_cons]
    refine ⟨?_, hdistinct⟩
    intro hmem
    obtain ⟨m, hm, hpath⟩ := List.mem_map.mp hmem
    exact fresh m hm hpath
  have hnodup := (hperm.map Node.path).symm.nodup hcons
  exact ⟨hnodup, (contentsOf_split hnodup hperm).1⟩

theorem contents_remove (slot : nodes[i]? = some ⟨generation, some n⟩) :
    ((nodes.put i none).nodes.map Node.path).Nodup ∧ contents (nodes.put i none) =
      Function.update nodes.contents n.path none := by
  obtain ⟨others, hbefore, hafter⟩ := Arena.nodes_put slot
  obtain ⟨hold, hnone, hnodup⟩ := contentsOf_split hdistinct hbefore
  have hperm := hafter none
  have hnodup' := (hperm.map Node.path).symm.nodup hnodup
  refine ⟨hnodup', ?_⟩
  unfold contents
  rw [contentsOf_perm hnodup' hperm, hold, Function.update_idem]
  exact (Function.update_eq_self_iff.mpr hnone.symm).symm

theorem contents_write (slot : nodes[i]? = some ⟨generation, some n⟩) (data : List UInt8) :
    ((nodes.put i (some { n with data })).nodes.map Node.path).Nodup ∧
      contents (nodes.put i (some { n with data })) =
        Function.update nodes.contents n.path (some ⟨n.isDir, data⟩) := by
  obtain ⟨others, hbefore, hafter⟩ := Arena.nodes_put slot
  obtain ⟨hold, -, -⟩ := contentsOf_split hdistinct hbefore
  have hperm := hafter (some { n with data })
  have hnodup : ((nodes.put i (some { n with data })).nodes.map Node.path).Nodup := by
    apply (hperm.map Node.path).symm.nodup
    exact (hbefore.map Node.path).nodup hdistinct
  refine ⟨hnodup, ?_⟩
  unfold contents
  rw [(contentsOf_split hnodup hperm).1, hold, Function.update_idem]
  rfl

end Distinct

theorem change_named {nodes nodes' : Table} (h : nodes.IsNamed)
    (hchange : Change nodes path nodes') : nodes'.IsNamed := by
  cases hchange with
  | same => exact h
  | @makes n _ valid _ fresh _ =>
    refine ⟨(contents_insert h.distinct fresh).1, ?_⟩
    intro m hm
    obtain rfl | hm := List.mem_cons.mp ((nodes.nodes_insert n).mem_iff.mp hm)
    · exact validatePath_ok_iff.mpr valid
    · exact h.valid m hm
  | @removes i generation n slot _ =>
    refine ⟨(contents_remove h.distinct slot).1, ?_⟩
    intro m hm
    obtain ⟨others, hbefore, hafter⟩ := Arena.nodes_put slot
    exact h.valid m (hbefore.mem_iff.mpr (List.mem_cons_of_mem _ ((hafter none).mem_iff.mp hm)))
  | @writes i generation n data slot _ =>
    refine ⟨(contents_write h.distinct slot data).1, ?_⟩
    intro m hm
    obtain ⟨others, hbefore, hafter⟩ := Arena.nodes_put slot
    obtain rfl | hm := List.mem_cons.mp ((hafter (some { n with data })).mem_iff.mp hm)
    · exact h.valid n (Arena.mem_nodes.mpr ⟨i, generation, slot⟩)
    · exact h.valid m (hbefore.mem_iff.mpr (List.mem_cons_of_mem _ hm))

/-- Each change of the table is a change of the tree it stands for. -/
theorem change_refines {nodes nodes' : Table} (h : nodes.IsTree)
    (hchange : Change nodes path nodes') : Files.Change nodes.contents path nodes'.contents := by
  have htree := (isTree_iff.mp h).2.2
  cases hchange with
  | same => exact .same
  | @makes n empty valid notRoot fresh parent =>
    rw [(contents_insert h.distinct fresh).2, Node.content, empty]
    exact .make n.isDir valid notRoot (contentsOf_eq_none.mpr fresh)
      ((hasDir_contents h.distinct).mpr parent)
  | @removes i generation n slot dir =>
    have hfound := contents_of_slot h.distinct slot
    rw [(contents_remove h.distinct slot).2]
    cases hdir : n.isDir with
    | false =>
      have hfile : nodes.contents n.path = some ⟨false, n.data⟩ := by
        rw [hfound, ← hdir]
        rfl
      apply Files.Change.remove hfound
      · intro hroot
        obtain ⟨_, hrootDir⟩ := htree.root
        rw [← hroot, hfile] at hrootDir
        cases hrootDir
      · exact htree.childless hfile
    | true =>
      obtain ⟨hroot, hchildless⟩ := dir hdir
      apply Files.Change.remove hfound hroot
      intro q c hq hqroot hparent
      obtain ⟨m, hm, rfl, -⟩ := (contentsOf_eq_some h.distinct).mp hq
      have hvalid := htree.valid hq
      have hchild := (isChild_iff_parentOf (htree.valid hfound).ne_nil hvalid hqroot).mpr hparent
      rw [hchildless m hm] at hchild
      cases hchild
  | @writes i generation n data slot file =>
    have hfound := contents_of_slot h.distinct slot
    rw [Node.content, file] at hfound
    rw [(contents_write h.distinct slot data).2, file]
    exact .write data hfound

theorem rootOnly_isTree : rootOnly.IsTree := by
  refine ⟨⟨⟨by simp [rootOnly], ?_⟩, ⟨0, _, rfl, rfl, rfl⟩⟩, ?_⟩
  · intro n hn
    obtain rfl : n = ⟨root, true, []⟩ := by simpa [rootOnly] using hn
    exact validatePath_ok_iff.mpr valid_root
  · intro n hn hroot
    obtain rfl : n = ⟨root, true, []⟩ := by simpa [rootOnly] using hn
    exact absurd rfl hroot

/-! Call by call. -/

theorem find_slot {i : Nat} {generation : UInt32} {n : Node}
    (h : find nodes path = some (i, generation, n)) :
    nodes[i]? = some ⟨generation, some n⟩ ∧ n.path = path := by
  obtain ⟨hslot, hpath⟩ := Arena.position_eq_some h
  exact ⟨hslot, by simpa using hpath⟩

theorem find_eq_none :
    find nodes path = none ↔ ∀ n ∈ nodes.nodes, n.path ≠ path := by
  simp [find, Arena.position_eq_none]

theorem make_cases (nodes : Table) (path : Path) (isDir : Bool) :
    (∃ e, make nodes path isDir = (.error e, nodes)) ∨
      (Valid path ∧ path ≠ root ∧ (∀ m ∈ nodes.nodes, m.path ≠ path) ∧
        (∃ d ∈ nodes.nodes, d.path = parentOf path ∧ d.isDir = true) ∧
        make nodes path isDir = (.ok ⟨UInt32.ofNat (nodes.insert ⟨path, isDir, []⟩).1.1,
          (nodes.insert ⟨path, isDir, []⟩).1.2⟩, (nodes.insert ⟨path, isDir, []⟩).2)) := by
  unfold make
  split
  · exact .inl ⟨_, rfl⟩
  · rename_i hvalid
    split
    · exact .inl ⟨_, rfl⟩
    · rename_i hroot
      split
      · exact .inl ⟨_, rfl⟩
      · rename_i hfresh
        split
        · exact .inl ⟨_, rfl⟩
        · rename_i i generation parent hparent
          split
          · exact .inl ⟨_, rfl⟩
          · rename_i hdir
            obtain ⟨hslot, hpath⟩ := find_slot hparent
            refine .inr ⟨validatePath_ok_iff.mp hvalid, hroot, ?_, ?_, rfl⟩
            · exact find_eq_none.mp (by simpa using hfresh)
            · exact ⟨parent, Arena.mem_nodes.mpr ⟨i, generation, hslot⟩, hpath, by simpa using hdir⟩

theorem unlink_cases (nodes : Table) (path : Path) :
    (∃ e, unlink nodes path = (.error e, nodes)) ∨
      ∃ i generation n, find nodes path = some (i, generation, n) ∧ n.isDir = false ∧
        unlink nodes path = (.ok (), nodes.put i none) := by
  unfold unlink
  split
  · exact .inl ⟨_, rfl⟩
  · split
    · exact .inl ⟨_, rfl⟩
    · rename_i i generation n hfind
      split
      · exact .inl ⟨_, rfl⟩
      · rename_i hdir
        exact .inr ⟨i, generation, n, hfind, by simpa using hdir, rfl⟩

theorem rmdir_cases (nodes : Table) (path : Path) :
    (∃ e, rmdir nodes path = (.error e, nodes)) ∨
      ∃ i generation n, find nodes path = some (i, generation, n) ∧ n.isDir = true ∧
        path ≠ root ∧ (∀ m ∈ nodes.nodes, isChild path m.path = false) ∧
        rmdir nodes path = (.ok (), nodes.put i none) := by
  unfold rmdir
  split
  · exact .inl ⟨_, rfl⟩
  · split
    · exact .inl ⟨_, rfl⟩
    · rename_i hroot
      split
      · exact .inl ⟨_, rfl⟩
      · rename_i i generation n hfind
        split
        · exact .inl ⟨_, rfl⟩
        · rename_i hdir
          split
          · exact .inl ⟨_, rfl⟩
          · rename_i hchildless
            refine .inr ⟨i, generation, n, hfind, by simpa using hdir, hroot, ?_, rfl⟩
            simpa using hchildless

theorem writeAt_cases (nodes : Table) (h : Handle) (offset : Nat) (src : List UInt8) :
    (writeAt nodes h offset src).2 = nodes ∨ ∃ n data, live nodes h = some n ∧ n.isDir = false ∧
      (writeAt nodes h offset src).2 = setData nodes h n data := by
  unfold writeAt
  split
  · exact .inl rfl
  · rename_i n hlive
    split
    · exact .inl rfl
    · rename_i hdir
      have hfile : n.isDir = false := by simpa using hdir
      dsimp only
      split
      · exact .inr ⟨n, _, hlive, hfile, rfl⟩
      · exact .inr ⟨n, _, hlive, hfile, rfl⟩

theorem truncate_cases (nodes : Table) (h : Handle) :
    truncate nodes h = nodes ∨ ∃ n, live nodes h = some n ∧ n.isDir = false ∧
      truncate nodes h = setData nodes h n [] := by
  unfold truncate
  split
  · exact .inl rfl
  · rename_i n hlive
    split
    · exact .inl rfl
    · rename_i hdir
      exact .inr ⟨n, hlive, by simpa using hdir, rfl⟩

end Table

/-- The calls that can change the table. -/
inductive Op where
  | create (path : Path)
  | mkdir (path : Path)
  | unlink (path : Path)
  | rmdir (path : Path)
  | writeAt (h : Handle) (offset : Nat) (src : List UInt8)
  | truncate (h : Handle)
  deriving DecidableEq, Repr

namespace Op

open Table

/-- Whether the call succeeds, and the table after it. -/
def call (nodes : Table) : Op → Except FsError Unit × Table
  | .create path => ((Table.create nodes path).1.map fun _ => (), (Table.create nodes path).2)
  | .mkdir path => Table.mkdir nodes path
  | .unlink path => Table.unlink nodes path
  | .rmdir path => Table.rmdir nodes path
  | .writeAt h offset src => (.ok (), (Table.writeAt nodes h offset src).2)
  | .truncate h => (.ok (), Table.truncate nodes h)

/-- The path a call names, or the path of the node its handle refers to. -/
def path (nodes : Table) : Op → Option Path
  | .create path | .mkdir path | .unlink path | .rmdir path => some path
  | .writeAt h _ _ | .truncate h => (live nodes h).map Node.path

abbrev Steps (nodes : Table) (op : Op) (nodes' : Table) : Prop := (op.call nodes).2 = nodes'

theorem change_make (nodes : Table) (path : Path) (isDir : Bool) :
    Change nodes path (make nodes path isDir).2 := by
  obtain ⟨e, herror⟩ | ⟨hvalid, hroot, hfresh, hparent, hok⟩ := make_cases nodes path isDir
  · rw [herror]
    exact .same path
  · rw [hok]
    exact .makes (n := ⟨path, isDir, []⟩) rfl hvalid hroot hfresh hparent

theorem change_setData {nodes : Table} {h : Handle} {n : Node} (hlive : live nodes h = some n)
    (hfile : n.isDir = false) (data : List UInt8) : Change nodes n.path (setData nodes h n data) :=
  .writes data (Arena.live_eq_some.mp hlive) hfile

/-- Every call changes the table at most at the path it names. -/
theorem call_change (nodes : Table) (op : Op) :
    (op.call nodes).2 = nodes ∨
      ∃ p, op.path nodes = some p ∧ Change nodes p (op.call nodes).2 := by
  cases op with
  | create path => exact .inr ⟨path, rfl, change_make nodes path false⟩
  | mkdir path => exact .inr ⟨path, rfl, change_make nodes path true⟩
  | unlink path =>
    obtain ⟨e, herror⟩ | ⟨i, generation, n, hfind, hfile, hok⟩ := unlink_cases nodes path
    · exact .inl (by rw [call, herror])
    · obtain ⟨hslot, rfl⟩ := find_slot hfind
      refine .inr ⟨n.path, rfl, ?_⟩
      rw [call, hok]
      apply Change.removes hslot
      simp [hfile]
  | rmdir path =>
    obtain ⟨e, herror⟩ | ⟨i, generation, n, hfind, hdir, hroot, hchildless, hok⟩ :=
      rmdir_cases nodes path
    · exact .inl (by rw [call, herror])
    · obtain ⟨hslot, rfl⟩ := find_slot hfind
      refine .inr ⟨n.path, rfl, ?_⟩
      rw [call, hok]
      exact .removes hslot fun _ => ⟨hroot, hchildless⟩
  | writeAt h offset src =>
    obtain hsame | ⟨n, data, hlive, hfile, hdata⟩ := writeAt_cases nodes h offset src
    · exact .inl hsame
    · refine .inr ⟨n.path, by simp [path, hlive], ?_⟩
      rw [call, hdata]
      exact change_setData hlive hfile data
  | truncate h =>
    obtain hsame | ⟨n, hlive, hfile, hdata⟩ := truncate_cases nodes h
    · exact .inl hsame
    · refine .inr ⟨n.path, by simp [path, hlive], ?_⟩
      rw [call, hdata]
      exact change_setData hlive hfile []

theorem call_error {nodes : Table} {op : Op} {e : FsError} (h : (op.call nodes).1 = .error e) :
    (op.call nodes).2 = nodes := by
  have hmake : ∀ path isDir, (make nodes path isDir).1.map (fun _ => ()) = .error e →
      (make nodes path isDir).2 = nodes := by
    intro path isDir herror
    obtain ⟨e', hmade⟩ | ⟨-, -, -, -, hmade⟩ := make_cases nodes path isDir
    · rw [hmade]
    · rw [hmade] at herror
      cases herror
  cases op with
  | create path => exact hmake path false h
  | mkdir path => exact hmake path true h
  | unlink path =>
    rw [call] at h ⊢
    obtain ⟨e', hunlink⟩ | ⟨_, _, _, -, -, hunlink⟩ := unlink_cases nodes path
    · rw [hunlink]
    · rw [hunlink] at h
      cases h
  | rmdir path =>
    rw [call] at h ⊢
    obtain ⟨e', hrmdir⟩ | ⟨_, _, _, -, -, -, -, hrmdir⟩ := rmdir_cases nodes path
    · rw [hrmdir]
    · rw [hrmdir] at h
      cases h
  | writeAt | truncate => cases h

variable {nodes nodes' : Table} {p : Path}

/-- Slot 0 is never freed and never reused. -/
theorem change_root (h : nodes.IsTree) (hchange : Change nodes p nodes') :
    ∃ generation n, nodes'[0]? = some ⟨generation, some n⟩ ∧ n.path = root ∧ n.isDir = true := by
  obtain ⟨generation, n, hslot, hpath, hdir⟩ := h.slot
  have hother : ∀ i node, i ≠ 0 → (nodes.put i node)[0]? = some ⟨generation, some n⟩ := by
    intro i node hi
    rw [Arena.getElem?_put, if_neg hi, hslot]
  cases hchange with
  | same => exact h.slot
  | @makes m =>
    obtain ⟨-, hkept, hreuse⟩ := nodes.insert_slot m
    refine ⟨generation, n, ?_, hpath, hdir⟩
    rw [hkept, hslot]
    intro hzero
    obtain ⟨_, hfree, -⟩ | ⟨hend, -⟩ := hreuse
    · rw [← hzero, hslot] at hfree
      cases hfree
    · have hlength : nodes.length = 0 := (congrArg Prod.fst hend).symm.trans hzero.symm
      rw [List.length_eq_zero_iff.mp hlength] at hslot
      cases hslot
  | @removes i g m slot dir =>
    refine ⟨generation, n, hother i none ?_, hpath, hdir⟩
    rintro rfl
    obtain ⟨-, rfl⟩ : generation = g ∧ n = m := by simpa using hslot.symm.trans slot
    exact (dir hdir).1 hpath
  | @writes i g m data slot file =>
    refine ⟨generation, n, hother i _ ?_, hpath, hdir⟩
    rintro rfl
    obtain ⟨-, rfl⟩ : generation = g ∧ n = m := by simpa using hslot.symm.trans slot
    rw [hdir] at file
    cases file

theorem change_isTree (h : nodes.IsTree) (hchange : Change nodes p nodes') : nodes'.IsTree := by
  have hnamed := change_named h.toIsNamed hchange
  have hfiles := (isTree_iff.mp h).2.2.change (change_refines h hchange)
  exact isTree_iff.mpr ⟨change_root h hchange, hnamed.distinct, hfiles⟩

theorem step_isNamed (nodes : Table) (op : Op) (nodes' : Table) (h : nodes.IsNamed)
    (hstep : Steps nodes op nodes') : nodes'.IsNamed := by
  obtain hsame | ⟨p, -, hchange⟩ := call_change nodes op
  · exact hstep ▸ hsame.symm ▸ h
  · exact hstep ▸ change_named h hchange

theorem step_isTree (nodes : Table) (op : Op) (nodes' : Table) (h : nodes.IsTree)
    (hstep : Steps nodes op nodes') : nodes'.IsTree := by
  obtain hsame | ⟨p, -, hchange⟩ := call_change nodes op
  · exact hstep ▸ hsame.symm ▸ h
  · exact hstep ▸ change_isTree h hchange

/-- In every table a tree is brought to by calls: it is still a tree, the next call changes
no path but the one it names, and changes nothing if it fails. -/
theorem calls_keep_tree {start nodes : Table} {ops : List Op} (tree : start.IsTree)
    (run : Run Steps start ops nodes) :
    nodes.IsTree ∧ ∀ op : Op,
      (∀ p, op.path nodes ≠ some p → (op.call nodes).2.contents p = nodes.contents p) ∧
      (∀ e, (op.call nodes).1 = .error e →
        ∀ p, (op.call nodes).2.contents p = nodes.contents p) := by
  have htree := run.preserves step_isTree tree
  refine ⟨htree, ?_⟩
  intro op
  constructor
  · intro p hp
    obtain hsame | ⟨q, hq, hchange⟩ := call_change nodes op
    · rw [hsame]
    · apply (change_refines htree hchange).other
      rintro rfl
      exact hp hq
  · intro e he p
    rw [call_error he]

/-- A directory with a file in it is not removed. -/
theorem calls_keep_tree_nonempty :
    ∃ nodes : Table, nodes.IsTree ∧ (call nodes (.rmdir (asBytes "/a"))).1 = .error .notEmpty ∧
      ∀ p, (call nodes (.rmdir (asBytes "/a"))).2.contents p = nodes.contents p := by
  have run : Run Steps rootOnly [.mkdir (asBytes "/a"), .create (asBytes "/a/b")] _ :=
    .cons rfl (.cons rfl (.nil _))
  obtain ⟨htree, hcalls⟩ := calls_keep_tree rootOnly_isTree run
  refine ⟨_, htree, ?_, ?_⟩
  · decide
  · exact (hcalls (.rmdir (asBytes "/a"))).2 .notEmpty (by decide)

end Op

end KazuOS.Fs
