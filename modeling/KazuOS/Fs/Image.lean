import KazuOS.Fs.Tree
import KazuOS.Lib.Bytes

/-! Unpacking the boot image into the table of nodes. Parents are created on the way if
nothing has their path yet, whatever that something is. -/
namespace KazuOS.Fs

open KazuOS.Lib Table

def magic : List UInt8 := [75, 70, 83, 0]
def version : Nat := 1
def headerSize : Nat := 28
def entrySize : Nat := 32
def flagDir : Nat := 1
def flagFile : Nat := 2

/-! Reading numbers and parts of the image. -/

def orInvalid (found : Option α) : Except FsError α :=
  match found with
  | some a => .ok a
  | none => .error .invalidImage

def readLe (width : Nat) (data : List UInt8) (offset : Nat) : Except FsError Nat :=
  (orInvalid (slice data offset (offset + width))).map ofLeBytes

def readU16 := readLe 2
def readU32 := readLe 4
def readU64 := readLe 8

def checkedAdd (a b : Nat) : Except FsError Nat :=
  if a + b < 2 ^ 64 then .ok (a + b) else .error .invalidImage

def checkedMul (a b : Nat) : Except FsError Nat :=
  if a * b < 2 ^ 64 then .ok (a * b) else .error .invalidImage

def fromUtf8 (bytes : List UInt8) : Except FsError Path :=
  if (ByteArray.mk bytes.toArray).validateUTF8 then .ok bytes else .error .invalidImage

/-- What the image says about one path. -/
structure Entry where
  path : Path
  dataOff : Nat
  size : Nat
  flags : Nat
  deriving DecidableEq, Repr

def Entry.isFile (e : Entry) : Bool := e.flags &&& flagFile ≠ 0

def readEntry (image : List UInt8) (pathsStart index : Nat) : Except FsError Entry := do
  let base := headerSize + index * entrySize
  let pathLen ← readU16 image base
  let pathOff ← readU16 image (base + 2)
  let dataOff ← readU64 image (base + 4)
  let size ← readU64 image (base + 12)
  let flags ← readU32 image (base + 20)
  let pstart ← checkedAdd pathsStart pathOff
  let pend ← checkedAdd pstart pathLen
  let pathBytes ← orInvalid (slice image pstart pend)
  let path ← fromUtf8 pathBytes
  validatePath path
  return ⟨path, dataOff, size, flags⟩

def push (nodes : Table) (n : Node) : Table := nodes ++ [⟨0, some n⟩]

/-- The length of the path is fuel enough: a parent other than the root is shorter. -/
def ensureParents : Nat → Table → Path → Table
  | 0, nodes, _ => nodes
  | fuel + 1, nodes, path =>
      let parent := parentOf path
      if parent = root then nodes else
        let nodes := ensureParents fuel nodes parent
        if (find nodes parent).isNone then push nodes ⟨parent, true, []⟩ else nodes

def addEntry (image : List UInt8) (nodes : Table) (e : Entry) : Except FsError Unit × Table :=
  let nodes := ensureParents e.path.length nodes e.path
  if (find nodes e.path).isSome then (.ok (), nodes)
  else if e.isFile then
    match checkedAdd e.dataOff e.size with
    | .error err => (.error err, nodes)
    | .ok stop =>
        match orInvalid (slice image e.dataOff stop) with
        | .error err => (.error err, nodes)
        | .ok data => (.ok (), push nodes ⟨e.path, false, data⟩)
  else if e.flags &&& flagDir ≠ 0 then (.ok (), push nodes ⟨e.path, true, []⟩)
  else (.error .invalidImage, nodes)

/-- The loop over the entries of the image. -/
def unpack (image : List UInt8) (pathsStart : Nat) : List Nat → Table → Except FsError Unit × Table
  | [], nodes => (.ok (), nodes)
  | index :: rest, nodes =>
      match readEntry image pathsStart index with
      | .error err => (.error err, nodes)
      | .ok e =>
          match addEntry image nodes e with
          | (.error err, nodes) => (.error err, nodes)
          | (.ok (), nodes) => unpack image pathsStart rest nodes

/-- The checks on the header: how many entries there are, and where paths start. -/
def readHeader (image : List UInt8) : Except FsError (Nat × Nat) := do
  if image.length < headerSize ∨ image.take 4 ≠ magic then throw .invalidImage
  if (← readU32 image 4) ≠ version then throw .invalidImage
  let fileCount ← readU32 image 8
  let entriesSize ← checkedMul fileCount entrySize
  let pathsStart ← checkedAdd headerSize entriesSize
  if image.length < pathsStart then throw .invalidImage
  return (fileCount, pathsStart)

def init (nodes : Table) (image : List UInt8) : Except FsError Unit × Table :=
  match readHeader image with
  | .error err => (.error err, nodes)
  | .ok (fileCount, pathsStart) => unpack image pathsStart (List.range fileCount) rootOnly

/-! Ancestors. -/

/-- The directories a path lies in, from the nearest one on, without the root. -/
def ancestorsFrom : Nat → Path → List Path
  | 0, _ => []
  | fuel + 1, path =>
      if parentOf path = root then [] else parentOf path :: ancestorsFrom fuel (parentOf path)

def ancestors (path : Path) : List Path := ancestorsFrom path.length path

variable {image : List UInt8} {path : Path} {es : List Entry} {nodes nodes' : Table} {e : Entry}

theorem ancestorsFrom_eq (h : Valid path) {fuel fuel' : Nat} (hfuel : path.length ≤ fuel)
    (hfuel' : path.length ≤ fuel') : ancestorsFrom fuel path = ancestorsFrom fuel' path := by
  induction h using Valid.parentInduction generalizing fuel fuel' with
  | top path h hparent =>
    cases fuel <;> cases fuel' <;> simp [ancestorsFrom, hparent]
  | below path h hparent ih hlt =>
    obtain ⟨n, rfl⟩ : ∃ n, fuel = n + 1 := ⟨fuel - 1, by omega⟩
    obtain ⟨m, rfl⟩ : ∃ m, fuel' = m + 1 := ⟨fuel' - 1, by omega⟩
    have hsame := @ih n m (by omega) (by omega)
    rw [ancestorsFrom, ancestorsFrom, if_neg hparent, if_neg hparent, hsame]

theorem ancestors_eq (h : Valid path) :
    ancestors path =
      if parentOf path = root then [] else parentOf path :: ancestors (parentOf path) := by
  have hlt : parentOf path = root ∨ (parentOf path).length ≤ path.length := by
    by_cases hroot : path = root
    · exact .inl (hroot ▸ parentOf_root)
    · exact .inr (length_parentOf_lt h hroot).le
  rw [ancestors, ancestorsFrom_eq h (Nat.le_refl _) (Nat.le_succ _), ancestorsFrom]
  split
  · rfl
  · rename_i hparent
    rw [ancestors, ancestorsFrom_eq h.parentOf (hlt.resolve_left hparent) (Nat.le_refl _)]

/-- What an ancestor is. -/
theorem mem_ancestors (h : Valid path) {q : Path} (hq : q ∈ ancestors path) :
    Valid q ∧ q ≠ root ∧ q.length < path.length ∧
      ∃ c ∈ path :: ancestors path, parentOf c = q := by
  induction h using Valid.parentInduction with
  | top path h hparent =>
    rw [ancestors_eq h, if_pos hparent] at hq
    cases hq
  | below path h hparent ih hlt =>
    rw [ancestors_eq h, if_neg hparent] at hq ⊢
    obtain rfl | hq := List.mem_cons.mp hq
    · exact ⟨h.parentOf, hparent, hlt, path, List.mem_cons_self, rfl⟩
    · obtain ⟨hvalid, hroot, hlength, c, hc, hcq⟩ := ih hq
      exact ⟨hvalid, hroot, hlength.trans hlt, c, List.mem_cons_of_mem _ hc, hcq⟩

/-- The parent of an ancestor is one, or the root. -/
theorem parentOf_mem_ancestors (h : Valid path) {p : Path}
    (hp : p ∈ path :: ancestors path) (hroot : parentOf p ≠ root) : parentOf p ∈ ancestors path := by
  induction h using Valid.parentInduction with
  | top path h hparent =>
    rw [ancestors_eq h, if_pos hparent] at hp
    obtain rfl := List.mem_singleton.mp hp
    exact absurd hparent hroot
  | below path h hparent ih hlt =>
    rw [ancestors_eq h, if_neg hparent] at hp ⊢
    obtain rfl | hp := List.mem_cons.mp hp
    · exact List.mem_cons_self
    · exact List.mem_cons_of_mem _ (ih hp)

/-! What the entries make of a path. -/

/-- The entry names the path or lies below it. -/
def Entry.mentions (q : Path) (e : Entry) : Bool := q ∈ e.path :: ancestors e.path

/-- Whether a path that the entry mentions becomes a directory. -/
def Entry.asDir (q : Path) (e : Entry) : Bool := !(e.path = q && e.isFile)

/-- The first entry that mentions a path decides what it is. -/
def kindAt (es : List Entry) (q : Path) : Option Bool := (es.find? (·.mentions q)).map (·.asDir q)

theorem kindAt_append (es es' : List Entry) (q : Path) :
    kindAt (es ++ es') q = (kindAt es q).or (kindAt es' q) := by
  unfold kindAt
  rw [List.find?_append]
  cases es.find? (·.mentions q) with
  | none => simp
  | some e => simp

theorem kindAt_singleton (e : Entry) (q : Path) :
    kindAt [e] q = if e.mentions q then some (e.asDir q) else none := by
  unfold kindAt
  cases h : e.mentions q with
  | true => simp [h]
  | false => simp [h]

/-- No entry lies below a regular file: the first entry to mention one of its ancestors
did not name that ancestor as a file. -/
def NoFileAbove (es : List Entry) : Prop :=
  ∀ before e after, es = before ++ e :: after →
    ∀ q ∈ ancestors e.path, kindAt before q ≠ some false

/-- Every path the entries make lies in a directory they make. -/
theorem noFileAbove_iff (hvalid : ∀ e ∈ es, Valid e.path) :
    NoFileAbove es ↔ ∀ p, p ≠ root → (kindAt es p).isSome →
      parentOf p = root ∨ kindAt es (parentOf p) = some true := by
  have hkept : ∀ {before after q b}, kindAt before q = some b →
      kindAt (before ++ after) q = some b := by
    intro before after q b h
    rw [kindAt_append, h, Option.some_or]
  constructor
  · intro h p hp hsome
    by_cases hroot : parentOf p = root
    · exact .inl hroot
    · -- the first entry that mentions the path also mentions its parent
      rw [kindAt, Option.isSome_map] at hsome
      obtain ⟨e, he⟩ := Option.isSome_iff_exists.mp hsome
      obtain ⟨hmentions, before, after, rfl, -⟩ := List.find?_eq_some_iff_append.mp he
      have hev : Valid e.path := hvalid e (by simp)
      have hparent : parentOf p ∈ ancestors e.path :=
        parentOf_mem_ancestors hev (by simpa [Entry.mentions] using hmentions) hroot
      right
      cases hkind : kindAt before (parentOf p) with
      | some b =>
        cases b with
        | true => exact hkept hkind
        | false => exact absurd hkind (h before e after rfl _ hparent)
      | none =>
        have hne : e.path ≠ parentOf p := by
          intro heq
          have hlt := (mem_ancestors hev hparent).2.2.1
          rw [heq] at hlt
          omega
        have hnow : kindAt [e] (parentOf p) = some true := by
          rw [kindAt_singleton, if_pos (by simp [Entry.mentions, hparent])]
          simp [Entry.asDir, hne]
        rw [← List.singleton_append, kindAt_append, hkind, Option.none_or]
        exact hkept hnow
  · rintro h before e after rfl q hq hfile
    have hev : Valid e.path := hvalid e (by simp)
    obtain ⟨-, hqroot, -, c, hc, rfl⟩ := mem_ancestors hev hq
    have hcroot : c ≠ root := by
      rintro rfl
      exact hqroot parentOf_root
    have hsome : (kindAt (before ++ e :: after) c).isSome := by
      rw [kindAt, Option.isSome_map, List.find?_isSome]
      exact ⟨e, by simp, by simpa [Entry.mentions] using hc⟩
    obtain hroot | hdir := h c hcroot hsome
    · exact hqroot hroot
    · rw [hkept hfile] at hdir
      cases hdir

/-! What the loop makes of the table. -/

/-- Whether a path is a directory, if it is there. -/
def kinds (nodes : Table) (q : Path) : Option Bool := (nodes.contents q).map Content.isDir

/-- The table with a node, unless its path is taken. -/
def addMissing (nodes : Table) (n : Node) : Table :=
  if (find nodes n.path).isSome then nodes else push nodes n

theorem ensureParents_eq (fuel : Nat) (nodes : Table) (path : Path) :
    ensureParents fuel nodes path =
      (ancestorsFrom fuel path).foldr (fun p nodes => addMissing nodes ⟨p, true, []⟩) nodes := by
  induction fuel generalizing path with
  | zero => rfl
  | succ fuel ih =>
    rw [ensureParents, ancestorsFrom]
    dsimp only
    split
    · rfl
    · rw [ih, List.foldr_cons]
      generalize List.foldr _ nodes _ = made
      unfold addMissing
      cases find made (parentOf path) with
      | none => rfl
      | some found => rfl

theorem find_isSome_iff {nodes : Table} : (find nodes path).isSome = (kinds nodes path).isSome := by
  rw [kinds, Option.isSome_map, contents, contentsOf, Option.isSome_map, ← Arena.position_node,
    Option.isSome_map]
  rfl

theorem addMissing_spec {nodes : Table} (h : IsRooted nodes) {n : Node} (hvalid : Valid n.path) :
    IsRooted (addMissing nodes n) ∧ ∀ q, kinds (addMissing nodes n) q =
      (kinds nodes q).or (if q = n.path then some n.isDir else none) := by
  unfold addMissing
  split
  · rename_i hfound
    rw [find_isSome_iff] at hfound
    refine ⟨h, ?_⟩
    intro q
    split
    · rename_i heq
      obtain ⟨b, hb⟩ := Option.isSome_iff_exists.mp hfound
      rw [heq, hb, Option.some_or]
    · rw [Option.or_none]
  · rename_i hfresh
    have hnodes : (push nodes n).nodes = nodes.nodes ++ [n] := by simp [push]
    have hnone : find nodes n.path = none := by simpa using hfresh
    have hperm : (push nodes n).nodes.Perm (n :: nodes.nodes) := by
      rw [hnodes]
      exact List.perm_append_singleton n _
    have hcons : ((n :: nodes.nodes).map Node.path).Nodup := by
      rw [List.map_cons, List.nodup_cons]
      refine ⟨?_, h.distinct⟩
      intro hmem
      obtain ⟨m, hm, hpath⟩ := List.mem_map.mp hmem
      exact find_eq_none.mp hnone m hm hpath
    have hnodup := (hperm.map Node.path).symm.nodup hcons
    obtain ⟨generation, first, hslot, hroot⟩ := h.slot
    refine ⟨⟨⟨hnodup, ?_⟩, generation, first, ?_, hroot⟩, ?_⟩
    · intro m hm
      obtain rfl | hm := List.mem_cons.mp (hperm.mem_iff.mp hm)
      · exact validatePath_ok_iff.mpr hvalid
      · exact h.valid m hm
    · have hpos := (List.getElem?_eq_some_iff.mp hslot).1
      rw [push, List.getElem?_append_left hpos, hslot]
    · intro q
      have hnew : (push nodes n).contents =
          Function.update nodes.contents n.path (some n.content) :=
        (contentsOf_split hnodup hperm).1
      unfold kinds
      rw [hnew]
      split
      · rename_i heq
        rw [heq, Function.update_self, contents, contentsOf_eq_none.mpr (find_eq_none.mp hnone)]
        rfl
      · rename_i hne
        rw [Function.update_of_ne hne, Option.or_none]

theorem ensureParents_spec {nodes : Table} (h : IsRooted nodes) (hvalid : Valid path) :
    IsRooted (ensureParents path.length nodes path) ∧
      ∀ q, kinds (ensureParents path.length nodes path) q =
        (kinds nodes q).or (if q ∈ ancestors path then some true else none) := by
  rw [ensureParents_eq]
  change IsRooted (List.foldr _ nodes (ancestors path)) ∧ _
  have hall : ∀ p ∈ ancestors path, Valid p := fun p hp => (mem_ancestors hvalid hp).1
  change _ ∧ ∀ q, kinds (List.foldr _ nodes (ancestors path)) q = _
  generalize ancestors path = ps at hall ⊢
  induction ps with
  | nil => exact ⟨h, fun q => by simp⟩
  | cons p ps ih =>
    obtain ⟨hrooted, hkinds⟩ := ih fun p hp => hall p (List.mem_cons_of_mem _ hp)
    obtain ⟨hrooted', hkinds'⟩ :=
      addMissing_spec hrooted (n := ⟨p, true, []⟩) (hall p List.mem_cons_self)
    refine ⟨hrooted', ?_⟩
    intro q
    rw [List.foldr_cons, hkinds', hkinds, Option.or_assoc]
    congr 1
    by_cases hps : q ∈ ps
    · simp [hps]
    · by_cases hp : q = p
      · subst hp
        simp [hps]
      · simp [hps, hp]

/-- The table when the entries so far have been unpacked. -/
structure Loaded (nodes : Table) (es : List Entry) : Prop extends IsRooted nodes where
  paths : ∀ e ∈ es, Valid e.path
  kinds : ∀ q, q ≠ root → kinds nodes q = kindAt es q

theorem addEntry_ok (h : addEntry image nodes e = (.ok (), nodes')) : ∃ data, nodes' =
      addMissing (ensureParents e.path.length nodes e.path) ⟨e.path, !e.isFile, data⟩ := by
  unfold addEntry at h
  dsimp only at h
  generalize ensureParents e.path.length nodes e.path = made at h ⊢
  unfold addMissing
  split at h
  · rename_i hfound
    cases h
    exact ⟨[], (if_pos hfound).symm⟩
  · rename_i hfresh
    split at h
    · rename_i hfile
      split at h
      · cases h
      · split at h
        · cases h
        · rename_i data _
          cases h
          exact ⟨data, by simp [hfresh, hfile]⟩
    · rename_i hfile
      split at h
      · cases h
        exact ⟨[], by simp [hfresh, hfile]⟩
      · cases h

theorem loaded_addEntry (h : Loaded nodes es) (hvalid : Valid e.path)
    (hok : addEntry image nodes e = (.ok (), nodes')) : Loaded nodes' (es ++ [e]) := by
  obtain ⟨data, rfl⟩ := addEntry_ok hok
  obtain ⟨hrooted, hkinds⟩ := ensureParents_spec h.toIsRooted hvalid
  obtain ⟨hrooted', hkinds'⟩ := addMissing_spec hrooted (n := ⟨e.path, !e.isFile, data⟩) hvalid
  refine ⟨hrooted', ?_, ?_⟩
  · intro e' he'
    obtain he' | he' := List.mem_append.mp he'
    · exact h.paths e' he'
    · exact List.mem_singleton.mp he' ▸ hvalid
  · intro q hq
    rw [hkinds', hkinds, h.kinds q hq, kindAt_append, kindAt_singleton, Option.or_assoc]
    congr 1
    by_cases hancestor : q ∈ ancestors e.path
    · have hne : e.path ≠ q := by
        rintro rfl
        exact absurd (mem_ancestors hvalid hancestor).2.2.1 (Nat.lt_irrefl _)
      simp [Entry.mentions, Entry.asDir, hancestor, hne]
    · by_cases heq : q = e.path
      · subst heq
        simp [Entry.mentions, Entry.asDir, hancestor]
      · simp [Entry.mentions, hancestor, heq]

theorem readEntry_valid {pathsStart index : Nat}
    (h : readEntry image pathsStart index = .ok e) : Valid e.path := by
  unfold readEntry at h
  simp only [bind, Except.bind, pure, Except.pure] at h
  repeat' split at h
  all_goals cases h
  rename_i hvalid
  exact validatePath_ok_iff.mp hvalid

/-- All entries of an image. -/
def entries (image : List UInt8) : Except FsError (List Entry) := do
  let (fileCount, pathsStart) ← readHeader image
  (List.range fileCount).mapM (readEntry image pathsStart)

theorem unpack_loads {pathsStart : Nat} {indices : List Nat} (h : Loaded nodes es)
    (hok : unpack image pathsStart indices nodes = (.ok (), nodes')) :
    ∃ more, indices.mapM (readEntry image pathsStart) = .ok more ∧ Loaded nodes' (es ++ more) := by
  induction indices generalizing nodes es with
  | nil =>
    cases hok
    exact ⟨[], rfl, by simpa using h⟩
  | cons index rest ih =>
    rw [unpack] at hok
    split at hok
    · cases hok
    · rename_i e he
      split at hok
      · cases hok
      · rename_i made hadd
        obtain ⟨more, hmore, hloaded⟩ := ih (loaded_addEntry h (readEntry_valid he) hadd) hok
        refine ⟨e :: more, ?_, by simpa using hloaded⟩
        rw [List.mapM_cons, he, hmore]
        rfl

theorem rootOnly_loaded : Loaded rootOnly [] := by
  refine ⟨rootOnly_isTree.toIsRooted, nofun, ?_⟩
  intro q hq
  have hfind : contentsOf rootOnly.nodes q = none := by
    rw [contentsOf_eq_none]
    intro n hn
    obtain rfl : n = ⟨root, true, []⟩ := by simpa [rootOnly] using hn
    exact hq.symm
  rw [kinds, contents, hfind]
  rfl

/-- The table is a tree exactly if its paths have directories as parents. -/
theorem loaded_isTree_iff {nodes : Table} (h : Loaded nodes es) :
    nodes.IsTree ↔ NoFileAbove es := by
  have hdir : ∀ q, nodes.contents.HasDir q ↔ kinds nodes q = some true := by
    intro q
    rw [Files.HasDir, kinds]
    cases nodes.contents q with
    | none => simp
    | some c =>
      obtain ⟨isDir, data⟩ := c
      simp
  have hroot : nodes.contents.HasDir root := by
    obtain ⟨generation, n, hslot, hpath, hisDir⟩ := h.slot
    exact (hasDir_contents h.distinct).mpr
      ⟨n, Arena.mem_nodes.mpr ⟨0, generation, hslot⟩, hpath, hisDir⟩
  rw [noFileAbove_iff h.paths]
  constructor
  · intro htree p hp hsome
    rw [← h.kinds p hp, kinds, Option.isSome_map] at hsome
    obtain ⟨c, hc⟩ := Option.isSome_iff_exists.mp hsome
    by_cases hparent : parentOf p = root
    · exact .inl hparent
    · right
      rw [← h.kinds _ hparent, ← hdir]
      exact (isTree_iff.mp htree).2.2.parent hc hp
  · intro hparents
    refine ⟨h.toIsRooted, ?_⟩
    intro n hn hne
    have hfound : nodes.contents n.path = some n.content :=
      (contentsOf_eq_some h.distinct).mpr ⟨n, hn, rfl, rfl⟩
    have hsome : (kindAt es n.path).isSome := by
      rw [← h.kinds _ hne, kinds, hfound]
      rfl
    rw [← hasDir_contents h.distinct]
    obtain hparent | hkind := hparents n.path hne hsome
    · rw [hparent]
      exact hroot
    · by_cases hparent : parentOf n.path = root
      · rw [hparent]
        exact hroot
      · rw [hdir, h.kinds _ hparent, hkind]

/-- An image that is unpacked becomes a tree exactly if no entry lies below a regular
file. -/
theorem init_isTree_iff {nodes nodes' : Table} {image : List UInt8}
    (h : init nodes image = (.ok (), nodes')) :
    ∃ es, entries image = .ok es ∧ (nodes'.IsTree ↔ NoFileAbove es) := by
  unfold init at h
  split at h
  · cases h
  · rename_i fileCount pathsStart hheader
    obtain ⟨es, hes, hloaded⟩ := unpack_loads rootOnly_loaded h
    refine ⟨es, ?_, loaded_isTree_iff hloaded⟩
    rw [entries, hheader]
    exact hes

/-- The metadata of an empty file. -/
def emptyFile (pathLen pathOff : Nat) : List UInt8 :=
  leBytes 2 pathLen ++ leBytes 2 pathOff ++ leBytes 8 0 ++ leBytes 8 0 ++ leBytes 4 flagFile ++
    leBytes 8 0

/-- An image of two empty files. -/
def twoFiles (first second : Path) : List UInt8 :=
  magic ++ leBytes 4 version ++ leBytes 4 2 ++ List.replicate 16 0 ++
    emptyFile first.length 0 ++ emptyFile second.length first.length ++ first ++ second

/-- The second file is not below the first one, and its directory is made. -/
theorem init_isTree_iff_sideBySide :
    ∃ nodes, init [] (twoFiles (asBytes "/a") (asBytes "/d/b")) = (.ok (), nodes) ∧
      nodes.IsTree := by
  have hinit : ∃ nodes, init [] (twoFiles (asBytes "/a") (asBytes "/d/b")) = (.ok (), nodes) :=
    ⟨_, rfl⟩
  obtain ⟨nodes, hinit⟩ := hinit
  obtain ⟨es, hes, hiff⟩ := init_isTree_iff hinit
  have hentries : entries (twoFiles (asBytes "/a") (asBytes "/d/b")) =
      .ok [⟨asBytes "/a", 0, 0, flagFile⟩, ⟨asBytes "/d/b", 0, 0, flagFile⟩] := rfl
  obtain rfl := Except.ok.inj (hes.symm.trans hentries)
  refine ⟨nodes, hinit, hiff.mpr ?_⟩
  intro before e after heq
  match before, heq with
  | [], heq =>
    cases heq
    decide
  | [_], heq =>
    cases heq
    decide
  | _ :: _ :: before, heq => simp at heq

/-- The second file is put below the first one. -/
theorem file_below_file :
    ∃ nodes, init [] (twoFiles (asBytes "/a") (asBytes "/a/b")) = (.ok (), nodes) ∧
      nodes.contents (asBytes "/a") = some ⟨false, []⟩ ∧
      nodes.contents (asBytes "/a/b") = some ⟨false, []⟩ ∧ ¬nodes.IsTree := by
  refine ⟨_, rfl, by decide, by decide, ?_⟩
  intro h
  have hparent := h.parent ⟨asBytes "/a/b", false, []⟩ (by decide) (by decide)
  revert hparent
  decide

end KazuOS.Fs
