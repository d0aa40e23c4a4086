import Mathlib.Data.UInt

/-! Paths of the root filesystem, as the bytes of their strings. The tree is only in the
names: a node lies in the directory before its last slash. -/
namespace KazuOS.Fs

inductive FsError where
  | notInitialized
  | invalidImage
  | invalidPath
  | notFound
  | notAFile
  | notADirectory
  | bufferTooSmall
  | alreadyExists
  | notEmpty
  deriving DecidableEq, Repr

abbrev Path := List UInt8

instance : LawfulBEq Path := inferInstance

def asBytes (s : String) : List UInt8 := s.toByteArray.data.toList

def slash : UInt8 := 47
def dot : UInt8 := 46
def root : Path := [slash]

def validatePath (path : Path) : Except FsError Unit :=
  if ¬[slash] <+: path ∨ (1 < path.length ∧ [slash] <:+ path) ∨ [slash, slash] <:+: path ∨
      [slash, dot, slash] <:+: path ∨ [slash, dot, dot, slash] <:+: path then
    .error .invalidPath
  else .ok ()

/-- The position of the last occurrence of a byte. -/
def rfind (byte : UInt8) : Path → Option Nat
  | [] => none
  | b :: rest =>
      match rfind byte rest with
      | some i => some (i + 1)
      | none => if b = byte then some 0 else none

def parentOf (path : Path) : Path :=
  match rfind slash path with
  | some 0 | none => root
  | some i => path.take i

def stripPrefix (front path : Path) : Option Path :=
  if front <+: path then some (path.drop front.length) else none

def isChild (parent child : Path) : Bool :=
  if child = parent then false else
    let rest :=
      if parent = root then stripPrefix root child
      else (stripPrefix parent child).bind (stripPrefix root)
    match rest with
    | some name => name ≠ [] && slash ∉ name
    | none => false

/-- The path of a name in a directory. -/
def join (dir name : Path) : Path := if dir = root then slash :: name else dir ++ slash :: name

/-- What a path component can be. -/
structure IsName (name : Path) : Prop where
  nonempty : name ≠ []
  plain : slash ∉ name

/-- The paths that pass `validate_path`. -/
structure Valid (path : Path) : Prop where
  absolute : [slash] <+: path
  closed : path ≠ root → ¬[slash] <:+ path
  single : ¬[slash, slash] <:+: path
  noDot : ¬[slash, dot, slash] <:+: path
  noDotDot : ¬[slash, dot, dot, slash] <:+: path

variable {path : Path} {names : List Path} {byte : UInt8} {name : Path}

theorem absolute_iff : [slash] <+: path ↔ ∃ rest, path = slash :: rest := by
  constructor
  · rintro ⟨rest, rfl⟩
    exact ⟨rest, rfl⟩
  · rintro ⟨rest, rfl⟩
    exact ⟨rest, rfl⟩

theorem validatePath_ok_iff : validatePath path = .ok () ↔ Valid path := by
  unfold validatePath
  split
  · rename_i hbad
    simp only [reduceCtorEq, false_iff]
    intro h
    obtain hbad | ⟨hlength, hbad⟩ | hbad | hbad | hbad := hbad
    · exact hbad h.absolute
    · apply h.closed _ hbad
      rintro rfl
      simp [root] at hlength
    · exact h.single hbad
    · exact h.noDot hbad
    · exact h.noDotDot hbad
  · rename_i hgood
    simp only [not_or, not_and, not_not] at hgood
    obtain ⟨habsolute, hclosed, hsingle, hdot, hdotDot⟩ := hgood
    simp only [true_iff]
    refine ⟨habsolute, ?_, hsingle, hdot, hdotDot⟩
    intro hne
    apply hclosed
    obtain ⟨rest, rfl⟩ := absolute_iff.mp habsolute
    cases rest with
    | nil => exact absurd rfl hne
    | cons b rest => simp

theorem valid_root : Valid root := validatePath_ok_iff.mp (by decide)

/-! The last slash. -/

theorem rfind_eq_none : rfind byte path = none ↔ byte ∉ path := by
  induction path with
  | nil => simp [rfind]
  | cons b rest ih =>
    rw [rfind]
    split
    · rename_i i hi
      have hmem : byte ∈ rest := by
        by_contra hnot
        rw [ih.mpr hnot] at hi
        cases hi
      simp [hmem]
    · rename_i hnone
      have hnot := ih.mp hnone
      by_cases hb : b = byte
      · simp [hb]
      · simp [hb, hnot, Ne.symm hb]

theorem rfind_append (front : Path) (h : byte ∉ name) :
    rfind byte (front ++ byte :: name) = some front.length := by
  induction front with
  | nil =>
    simp only [List.nil_append, rfind, rfind_eq_none.mpr h, if_true]
    rfl
  | cons b front ih =>
    rw [List.cons_append, rfind, ih]
    rfl

theorem exists_last (h : byte ∈ path) :
    ∃ front name, path = front ++ byte :: name ∧ byte ∉ name := by
  induction path with
  | nil => cases h
  | cons b rest ih =>
    by_cases hrest : byte ∈ rest
    · obtain ⟨front, name, rfl, hname⟩ := ih hrest
      exact ⟨b :: front, name, rfl, hname⟩
    · obtain rfl := (List.mem_cons.mp h).resolve_right hrest
      exact ⟨[], rest, rfl, hrest⟩

/-! Directories and the names in them. -/

theorem parentOf_join {dir name : Path} (hdir : dir ≠ []) (hname : slash ∉ name) :
    parentOf (join dir name) = dir := by
  unfold parentOf join
  split_ifs with hroot
  · have hfind : rfind slash (slash :: name) = some 0 := rfind_append [] hname
    rw [hfind]
    exact hroot.symm
  · rw [rfind_append dir hname]
    obtain ⟨b, dir, rfl⟩ := List.exists_cons_of_ne_nil hdir
    simp

theorem Valid.ne_nil (h : Valid path) : path ≠ [] := by
  obtain ⟨rest, rfl⟩ := absolute_iff.mp h.absolute
  exact List.cons_ne_nil _ _

/-- Every valid path but the root is a name in its parent directory. -/
theorem Valid.split (h : Valid path) (hne : path ≠ root) :
    ∃ dir name, path = join dir name ∧ dir ≠ [] ∧ IsName name := by
  obtain ⟨rest, hrest⟩ := absolute_iff.mp h.absolute
  have hslash : slash ∈ path := by simp [hrest]
  obtain ⟨front, name, hpath, hname⟩ := exists_last hslash
  have hnonempty : name ≠ [] := by
    rintro rfl
    exact h.closed hne ⟨front, hpath.symm⟩
  by_cases hfront : front = []
  · refine ⟨root, name, ?_, by simp [root], hnonempty, hname⟩
    simp [hpath, hfront, join]
  · refine ⟨front, name, ?_, hfront, hnonempty, hname⟩
    have hnotRoot : front ≠ root := by
      rintro rfl
      exact h.single ⟨[], name, by simp [hpath, root]⟩
    rw [join, if_neg hnotRoot, hpath]

theorem Valid.eq_join (h : Valid path) (hne : path ≠ root) :
    ∃ name, path = join (parentOf path) name ∧ IsName name := by
  obtain ⟨dir, name, rfl, hdir, hname⟩ := h.split hne
  rw [parentOf_join hdir hname.plain]
  exact ⟨name, rfl, hname⟩

theorem parentOf_root : parentOf root = root := by decide

/-- The beginning of a valid path up to a slash is valid. -/
theorem Valid.take {front rest : Path} (h : Valid (front ++ slash :: rest)) (hfront : front ≠ []) :
    Valid front := by
  have hinner : ∀ sub, sub <:+: front → sub <:+: front ++ slash :: rest := fun sub hsub =>
    hsub.trans (List.prefix_append front _).isInfix
  refine ⟨?_, ?_, fun hbad => h.single (hinner _ hbad), fun hbad => h.noDot (hinner _ hbad),
    fun hbad => h.noDotDot (hinner _ hbad)⟩
  · obtain ⟨b, front, rfl⟩ := List.exists_cons_of_ne_nil hfront
    obtain ⟨rest', hrest'⟩ := absolute_iff.mp h.absolute
    obtain ⟨rfl, -⟩ := List.cons.inj hrest'
    exact ⟨front, rfl⟩
  · rintro - ⟨init, rfl⟩
    exact h.single ⟨init, rest, by simp⟩

theorem Valid.parentOf (h : Valid path) : Valid (parentOf path) := by
  by_cases hne : path = root
  · rw [hne, parentOf_root]
    exact valid_root
  · obtain ⟨dir, name, rfl, hdir, hname⟩ := h.split hne
    rw [parentOf_join hdir hname.plain]
    by_cases hroot : dir = root
    · exact hroot ▸ valid_root
    · rw [join, if_neg hroot] at h
      exact h.take hdir

/-- A pattern that ends in a slash occurs in a path if it occurs before the last slash or
ends there. -/
theorem infix_last_slash {front name pre : Path} (hname : slash ∉ name)
    (h : pre ++ [slash] <:+: front ++ slash :: name) :
    pre ++ [slash] <:+: front ∨ pre <:+ front := by
  obtain ⟨before, after, heq⟩ := h
  simp only [List.append_assoc, List.singleton_append] at heq
  rw [← List.append_assoc] at heq
  obtain ⟨mid, hfront, hmid⟩ | ⟨mid, hbefore, hmid⟩ := List.append_eq_append_iff.mp heq
  · cases mid with
    | nil => exact .inr ⟨before, by simpa using hfront.symm⟩
    | cons b mid =>
      obtain ⟨rfl, -⟩ := List.cons.inj hmid
      exact .inl ⟨before, mid, by simp [hfront]⟩
  · cases mid with
    | nil => exact .inr ⟨before, by simpa using hbefore⟩
    | cons b mid =>
      obtain ⟨-, hin⟩ := List.cons.inj hmid
      exact absurd (by simp [hin]) hname

/-- Below a directory that is not named by dots, every name makes a valid path. -/
theorem valid_join {dir name : Path} (hdir : Valid dir) (hname : IsName name)
    (hdot : ¬[slash, dot] <:+ dir) (hdotDot : ¬[slash, dot, dot] <:+ dir) :
    Valid (join dir name) := by
  obtain ⟨front, hjoin, hfront⟩ : ∃ front, join dir name = front ++ slash :: name ∧
      (front = [] ∨ front = dir ∧ dir ≠ root) := by
    unfold join
    split_ifs with hroot
    · exact ⟨[], rfl, .inl rfl⟩
    · exact ⟨dir, rfl, .inr ⟨rfl, hroot⟩⟩
  have hclear : ∀ pre, pre ≠ [] → ¬pre ++ [slash] <:+: dir → (dir ≠ root → ¬pre <:+ dir) →
      ¬pre ++ [slash] <:+: join dir name := by
    intro pre hpre hinner hsuffix hbad
    rw [hjoin] at hbad
    obtain hbad | hbad := infix_last_slash hname.plain hbad
    · obtain rfl | ⟨rfl, -⟩ := hfront
      · simp at hbad
      · exact hinner hbad
    · obtain rfl | ⟨rfl, hne⟩ := hfront
      · exact hpre (List.suffix_nil.mp hbad)
      · exact hsuffix hne hbad
  refine ⟨?_, ?_, ?_, ?_, ?_⟩
  · rw [hjoin, absolute_iff]
    obtain rfl | ⟨rfl, -⟩ := hfront
    · exact ⟨name, rfl⟩
    · obtain ⟨rest, hrest⟩ := absolute_iff.mp hdir.absolute
      exact ⟨rest ++ slash :: name, by rw [hrest]; rfl⟩
  · rintro - ⟨init, hinit⟩
    rw [hjoin] at hinit
    obtain ⟨b, last, rfl⟩ : ∃ b last, name = b ++ [last] :=
      (List.eq_nil_or_concat name).resolve_left hname.nonempty |>.imp fun b h =>
        h.imp fun last h => by simpa using h
    rw [← List.cons_append, ← List.append_assoc] at hinit
    have hlast := (List.append_inj_right' hinit rfl)
    exact hname.plain (by simp [List.singleton_inj.mp hlast.symm])
  · exact hclear [slash] (by simp) hdir.single hdir.closed
  · exact hclear [slash, dot] (by simp) hdir.noDot fun _ => hdot
  · exact hclear [slash, dot, dot] (by simp) hdir.noDotDot fun _ => hdotDot

theorem length_lt_join (dir : Path) (hname : name ≠ []) : dir.length < (join dir name).length := by
  have hlength := List.length_pos_iff.mpr hname
  unfold join
  split_ifs with hroot
  · simp [hroot, root, hlength]
  · simp

theorem length_parentOf_lt (h : Valid path) (hne : path ≠ root) :
    (parentOf path).length < path.length := by
  obtain ⟨dir, name, rfl, hdir, hname⟩ := h.split hne
  rw [parentOf_join hdir hname.plain]
  exact length_lt_join dir hname.nonempty

/-- Induction from a path to its parent. -/
theorem Valid.parentInduction {motive : (path : Path) → Valid path → Prop}
    (top : ∀ path h, Fs.parentOf path = root → motive path h)
    (below : ∀ path h, Fs.parentOf path ≠ root → motive (Fs.parentOf path) h.parentOf →
      (Fs.parentOf path).length < path.length → motive path h)
    (h : Valid path) : motive path h := by
  generalize hn : path.length = n
  induction n using Nat.strongRecOn generalizing path with
  | ind n ih =>
    by_cases hparent : Fs.parentOf path = root
    · exact top path h hparent
    · have hlt : (Fs.parentOf path).length < path.length := by
        apply length_parentOf_lt h
        rintro rfl
        exact hparent parentOf_root
      exact below path h hparent (ih _ (hn ▸ hlt) h.parentOf rfl) hlt

theorem stripPrefix_eq_some {front path rest : Path} :
    stripPrefix front path = some rest ↔ path = front ++ rest := by
  unfold stripPrefix
  split
  · rename_i hfront
    obtain ⟨tail, rfl⟩ := hfront
    simp [eq_comm]
  · rename_i hfront
    simp only [reduceCtorEq, false_iff]
    rintro rfl
    exact hfront (List.prefix_append _ _)

theorem isChild_iff {dir path : Path} :
    isChild dir path = true ↔ ∃ name, path = join dir name ∧ IsName name := by
  have hrest : ∀ name, (if dir = root then stripPrefix root path
      else (stripPrefix dir path).bind (stripPrefix root)) = some name ↔ path = join dir name := by
    intro name
    unfold join
    split
    · exact stripPrefix_eq_some
    · simp only [Option.bind_eq_some_iff, stripPrefix_eq_some]
      constructor
      · rintro ⟨tail, rfl, rfl⟩
        rfl
      · rintro rfl
        exact ⟨slash :: name, rfl, rfl⟩
  unfold isChild
  split
  · rename_i heq
    simp only [Bool.false_eq_true, false_iff]
    rintro ⟨name, hpath, hname⟩
    have hlt := length_lt_join dir hname.nonempty
    rw [← hpath, heq] at hlt
    omega
  · dsimp only
    split
    · rename_i name hname
      have hpath := (hrest name).mp hname
      simp only [Bool.and_eq_true, decide_eq_true_eq]
      constructor
      · rintro ⟨hnonempty, hplain⟩
        exact ⟨name, hpath, hnonempty, hplain⟩
      · rintro ⟨name', hpath', hname'⟩
        obtain rfl : name = name' := Option.some.inj (hname.symm.trans ((hrest name').mpr hpath'))
        exact ⟨hname'.nonempty, hname'.plain⟩
    · rename_i hnone
      simp only [Bool.false_eq_true, false_iff]
      rintro ⟨name, hpath, -⟩
      rw [(hrest name).mpr hpath] at hnone
      cases hnone

/-- The children of a directory are the paths with it as their parent. -/
theorem isChild_iff_parentOf {dir path : Path} (hdir : dir ≠ []) (h : Valid path)
    (hne : path ≠ root) : isChild dir path = true ↔ parentOf path = dir := by
  rw [isChild_iff]
  constructor
  · rintro ⟨name, rfl, hname⟩
    exact parentOf_join hdir hname.plain
  · rintro rfl
    exact h.eq_join hne

theorem isChild_root {dir : Path} (hdir : dir ≠ []) : isChild dir root = false := by
  by_contra h
  obtain ⟨name, hpath, hname⟩ := isChild_iff.mp (Bool.eq_true_of_not_eq_false h)
  have hlt := length_lt_join dir hname.nonempty
  have hpos := List.length_pos_of_ne_nil hdir
  rw [← hpath] at hlt
  have hone : root.length = 1 := rfl
  omega

/-- Listing a directory and finding the parent of an entry agree on what lies in it. -/
theorem is_child_iff_parent_of {dir path : Path} (hdir : validatePath dir = .ok ())
    (hpath : validatePath path = .ok ()) :
    isChild dir path = true ↔ path ≠ root ∧ parentOf path = dir := by
  have hvalid := validatePath_ok_iff.mp hdir
  by_cases hroot : path = root
  · rw [hroot, isChild_root hvalid.ne_nil]
    simp
  · rw [isChild_iff_parentOf hvalid.ne_nil (validatePath_ok_iff.mp hpath) hroot]
    simp [hroot]

theorem is_child_iff_parent_of_bin :
    validatePath (asBytes "/bin") = .ok () ∧ validatePath (asBytes "/bin/shell") = .ok () ∧
      isChild (asBytes "/bin") (asBytes "/bin/shell") = true ∧
        parentOf (asBytes "/bin/shell") = asBytes "/bin" := by
  have hdir : validatePath (asBytes "/bin") = .ok () := by decide
  have hpath : validatePath (asBytes "/bin/shell") = .ok () := by decide
  have hchild : isChild (asBytes "/bin") (asBytes "/bin/shell") = true := by decide
  exact ⟨hdir, hpath, hchild, ((is_child_iff_parent_of hdir hpath).mp hchild).2⟩

/-! The grammar of paths. -/

/-- A name that is not `.` or `..`. -/
structure IsComponent (name : Path) : Prop extends IsName name where
  notDot : name ≠ [dot]
  notDotDot : name ≠ [dot, dot]

/-- Each name with a slash before it. -/
def compose (names : List Path) : Path := names.flatMap (slash :: ·)

/-- The root, or one component or more. -/
def WellFormed (path : Path) : Prop :=
  path = root ∨ ∃ names, names ≠ [] ∧ (∀ name ∈ names, IsComponent name) ∧ path = compose names

/-- The last name is made of dots, and the others are components. -/
def EndsInDots (path : Path) : Prop :=
  ∃ names last, (∀ name ∈ names, IsComponent name) ∧ (last = [dot] ∨ last = [dot, dot]) ∧
    path = compose (names ++ [last])

theorem compose_concat (names : List Path) (name : Path) :
    compose (names ++ [name]) = compose names ++ slash :: name := by
  simp [compose]

theorem split_last {front front' name name' : Path} (hname : slash ∉ name) (hname' : slash ∉ name')
    (h : front ++ slash :: name = front' ++ slash :: name') : front = front' ∧ name = name' := by
  have hfind := congrArg (rfind slash) h
  rw [rfind_append front hname, rfind_append front' hname'] at hfind
  obtain ⟨hfront, hrest⟩ := List.append_inj h (Option.some.inj hfind)
  exact ⟨hfront, (List.cons.inj hrest).2⟩

/-- Only the last name can stand at the end of a path. -/
theorem suffix_compose {name last : Path} (hname : slash ∉ name)
    (hlast : slash ∉ last) (h : slash :: last <:+ compose (names ++ [name])) : name = last := by
  obtain ⟨front, hfront⟩ := h
  rw [compose_concat] at hfront
  exact (split_last hlast hname hfront).2.symm

theorem compose_concat_ne_root (hname : IsName name) : compose (names ++ [name]) ≠ root := by
  rw [compose_concat]
  intro h
  have hroot : compose names ++ slash :: name = [] ++ slash :: [] := h
  exact hname.nonempty (split_last hname.plain List.not_mem_nil hroot).2

/-- Components may be followed by any name. -/
theorem valid_compose (hnames : ∀ name ∈ names, IsComponent name)
    {last : Path} (hlast : IsName last) : Valid (compose (names ++ [last])) := by
  induction names using List.reverseRecOn generalizing last with
  | nil =>
    have hone : compose ([] ++ [last]) = join root last := by simp [compose, join]
    rw [hone]
    exact valid_join valid_root hlast (by decide) (by decide)
  | append_singleton names name ih =>
    have hname : IsComponent name := hnames name (by simp)
    have hdir := ih (fun name hmem => hnames name (by simp [hmem])) hname.toIsName
    have hjoin : join (compose (names ++ [name])) last = compose (names ++ [name] ++ [last]) := by
      rw [join, if_neg (compose_concat_ne_root hname.toIsName), compose_concat (names ++ [name])]
    rw [← hjoin]
    apply valid_join hdir hlast
    · exact fun h => hname.notDot (suffix_compose hname.plain (by decide) h)
    · exact fun h => hname.notDotDot (suffix_compose hname.plain (by decide) h)

/-- A name that others follow is no `.` and no `..`: these are looked for between two slashes. -/
theorem isComponent_of_valid {name last : Path} (hname : IsName name)
    (h : Valid (compose (names ++ [name] ++ [last]))) : IsComponent name := by
  rw [compose_concat, compose_concat, List.append_assoc] at h
  refine ⟨hname, ?_, ?_⟩
  · rintro rfl
    exact h.noDot ⟨compose names, last, by simp⟩
  · rintro rfl
    exact h.noDotDot ⟨compose names, last, by simp⟩

/-- What `validate_path` accepts. -/
theorem valid_iff : Valid path ↔ path = root ∨
    ∃ names last, (∀ name ∈ names, IsComponent name) ∧ IsName last ∧
      path = compose (names ++ [last]) := by
  constructor
  · intro h
    induction h using Valid.parentInduction with
    | top path h hparent =>
      by_cases hroot : path = root
      · exact .inl hroot
      · obtain ⟨name, hpath, hname⟩ := h.eq_join hroot
        rw [hparent] at hpath
        exact .inr ⟨[], name, nofun, hname, hpath.trans (by simp [join, compose])⟩
    | below path h hparent ih =>
      have hroot : path ≠ root := by
        rintro rfl
        exact hparent parentOf_root
      obtain ⟨name, hpath, hname⟩ := h.eq_join hroot
      obtain ⟨names, dir, hnames, hdir, hcompose⟩ := ih.resolve_left hparent
      rw [join, if_neg hparent, hcompose, ← compose_concat] at hpath
      rw [hpath] at h
      refine .inr ⟨names ++ [dir], name, ?_, hname, hpath⟩
      intro c hc
      obtain hc | hc := List.mem_append.mp hc
      · exact hnames c hc
      · rw [List.mem_singleton.mp hc]
        exact isComponent_of_valid hdir h
  · rintro (rfl | ⟨names, last, hnames, hlast, rfl⟩)
    · exact valid_root
    · exact valid_compose hnames hlast

theorem EndsInDots.not_wellFormed (h : EndsInDots path) : ¬WellFormed path := by
  obtain ⟨names, last, -, hdots, rfl⟩ := h
  have hlast : IsName last := by
    obtain rfl | rfl := hdots
    · exact ⟨by decide, by decide⟩
    · exact ⟨by decide, by decide⟩
  rintro (hroot | ⟨names', hne, hnames', heq⟩)
  · exact compose_concat_ne_root hlast hroot
  · obtain ⟨front, name, rfl⟩ := (List.eq_nil_or_concat' names').resolve_left hne
    have hname := hnames' name (by simp)
    rw [compose_concat, compose_concat] at heq
    obtain ⟨-, rfl⟩ := split_last hlast.plain hname.plain heq
    obtain rfl | rfl := hdots
    · exact hname.notDot rfl
    · exact hname.notDotDot rfl

theorem EndsInDots.valid (h : EndsInDots path) : Valid path := by
  obtain ⟨names, last, hnames, rfl | rfl, rfl⟩ := h
  · exact valid_compose hnames ⟨by decide, by decide⟩
  · exact valid_compose hnames ⟨by decide, by decide⟩

/-- `validate_path` follows the grammar except for a `.` or `..` at the end, which no slash
follows. -/
theorem validate_path_iff (path : Path) :
    (validatePath path = .ok () ↔ WellFormed path) ↔ ¬EndsInDots path := by
  rw [validatePath_ok_iff]
  constructor
  · exact fun h hdots => hdots.not_wellFormed (h.mp hdots.valid)
  · intro h
    rw [valid_iff]
    apply or_congr_right
    constructor
    · rintro ⟨names, last, hnames, hlast, rfl⟩
      refine ⟨names ++ [last], by simp, ?_, rfl⟩
      intro name hmem
      obtain hmem | hmem := List.mem_append.mp hmem
      · exact hnames name hmem
      · rw [List.mem_singleton.mp hmem]
        exact ⟨hlast, fun hdot => h ⟨names, last, hnames, .inl hdot, rfl⟩,
          fun hdots => h ⟨names, last, hnames, .inr hdots, rfl⟩⟩
    · rintro ⟨names, hne, hnames, rfl⟩
      obtain ⟨front, last, rfl⟩ := (List.eq_nil_or_concat' names).resolve_left hne
      exact ⟨front, last, fun name hmem => hnames name (by simp [hmem]),
        (hnames last (by simp)).toIsName, rfl⟩

theorem dots_are_accepted :
    validatePath (asBytes "/bin/..") = .ok () ∧ ¬WellFormed (asBytes "/bin/..") := by
  refine ⟨by decide, EndsInDots.not_wellFormed ?_⟩
  refine ⟨[asBytes "bin"], [dot, dot], ?_, .inr rfl, by decide⟩
  intro name hname
  rw [List.mem_singleton.mp hname]
  exact ⟨⟨by decide, by decide⟩, by decide, by decide⟩

end KazuOS.Fs
