import KazuOS.Fs.Tree

/-! Handles outlive the files they were issued for. A slot's generation rises each time
the slot is reused, so a stale handle refers to nothing until it has come round. -/
namespace KazuOS.Fs

open KazuOS.Lib Table
open Op (Steps call call_change step_isNamed)

/-- A call on `before` returned the handle for a path and left the table `after`. -/
inductive Issued (before : Table) (path : Path) (h : Handle) : Table → Prop where
  | create {after : Table} (ok : create before path = (.ok h, after)) : Issued before path h after
  | lookup {devices : List Path} {len : Nat}
      (ok : lookup before devices path = .ok (.file h len)) : Issued before path h before

/-- A new node was put into a slot that had been freed. -/
def refilled : Option (Slot Node) → Option (Slot Node) → Nat
  | some ⟨_, none⟩, some ⟨_, some _⟩ => 1
  | _, _ => 0

/-- How often a run of calls reuses a slot. -/
def reuses (i : Nat) : Table → List Op → Nat
  | _, [] => 0
  | nodes, op :: ops =>
      let next := (op.call nodes).2
      refilled nodes[i]? next[i]? + reuses i next ops

/-- The contents after a write: zeros fill the file up to the offset. -/
def written (data : List UInt8) (offset : Nat) (src : List UInt8) : List UInt8 :=
  data.take offset ++ List.replicate (offset - data.length) 0 ++ src ++
    data.drop (offset + src.length)

/-- Every access through the handle is an access to the file with that path. -/
structure ActsOn (nodes : Table) (h : Handle) (path : Path) (data : List UInt8) : Prop where
  file : nodes.contents path = some ⟨false, data⟩
  read : ∀ offset len, readAt nodes h offset len = (data.drop offset).take len
  write : ∀ offset src, offset + src.length < 2 ^ 64 →
    (writeAt nodes h offset src).1 = some src.length ∧ (writeAt nodes h offset src).2.contents =
      Function.update nodes.contents path (some ⟨false, written data offset src⟩)
  other : ∀ offset src q, q ≠ path →
    (writeAt nodes h offset src).2.contents q = nodes.contents q
  truncate : (truncate nodes h).contents =
    Function.update nodes.contents path (some ⟨false, []⟩)

/-- No access through the handle reads or changes anything. -/
structure Stale (nodes : Table) (h : Handle) : Prop where
  read : ∀ offset len, readAt nodes h offset len = []
  write : ∀ offset src, writeAt nodes h offset src = (some 0, nodes)
  truncate : truncate nodes h = nodes

/-- The slot holds the file with that path. -/
def Holds (nodes : Table) (i : Nat) (generation : UInt32) (path : Path) : Prop :=
  ∃ n, nodes[i]? = some ⟨generation, some n⟩ ∧ n.path = path ∧ n.isDir = false

/-- The slot has been reused `k` times since it had the generation and held a file that
is gone. -/
def Reused (nodes : Table) (i : Nat) (generation : UInt32) (k : Nat) : Prop :=
  ∃ node, nodes[i]? = some ⟨generation + UInt32.ofNat k, node⟩ ∧ (k = 0 → node = none)

section Accesses

variable {nodes : Table} {h : Handle} {path : Path}

variable {src : List UInt8} {offset : Nat} {n : Node}

theorem written_eq {data : List UInt8} :
    (data ++ List.replicate (offset + src.length - data.length) 0).take offset ++ src ++
      (data ++ List.replicate (offset + src.length - data.length) 0).drop (offset + src.length) =
      written data offset src := by
  have hpad : min (offset - data.length) (offset + src.length - data.length) =
      offset - data.length := by omega
  have hdrop : List.drop (offset + src.length - data.length)
      (List.replicate (offset + src.length - data.length) (0 : UInt8)) = [] := by simp
  rw [List.take_append, List.take_replicate, List.drop_append, hdrop, hpad, List.append_nil]
  rfl

theorem readAt_of_live (hlive : live nodes h = some n) (hfile : n.isDir = false)
    (offset len : Nat) : readAt nodes h offset len = (n.data.drop offset).take len := by
  simp only [readAt, hlive, hfile, Bool.false_eq_true, false_or]
  split
  · rename_i hend
    rw [List.drop_eq_nil_of_le hend, List.take_nil]
  · rfl

theorem writeAt_of_live (hlive : live nodes h = some n) (hfile : n.isDir = false)
    (hfits : offset + src.length < 2 ^ 64) :
    writeAt nodes h offset src =
      (some src.length, setData nodes h n (written n.data offset src)) := by
  have hstop : (offset + src.length) % 2 ^ 64 = offset + src.length := Nat.mod_eq_of_lt hfits
  have horder : ¬offset + src.length < offset := by omega
  simp only [writeAt, hlive, hfile, Bool.false_eq_true, if_false, hstop, horder, written_eq]

theorem actsOn_of_holds (named : nodes.IsNamed)
    (hholds : Holds nodes h.node.toNat h.generation path) : ∃ data, ActsOn nodes h path data := by
  obtain ⟨n, hslot, rfl, hfile⟩ := hholds
  have hlive : live nodes h = some n := Arena.live_eq_some.mpr hslot
  have hset : ∀ data, (setData nodes h n data).contents =
      Function.update nodes.contents n.path (some ⟨false, data⟩) := by
    intro data
    rw [← hfile]
    exact (contents_write named.distinct hslot data).2
  refine ⟨n.data, ?_, readAt_of_live hlive hfile, ?_, ?_, ?_⟩
  · rw [contents_of_slot named.distinct hslot, Node.content, hfile]
  · intro offset src hfits
    rw [writeAt_of_live hlive hfile hfits]
    exact ⟨rfl, hset _⟩
  · intro offset src q hq
    obtain hsame | ⟨m, data, hm, -, hdata⟩ := writeAt_cases nodes h offset src
    · rw [hsame]
    · obtain rfl : n = m := Option.some.inj (hlive.symm.trans hm)
      rw [hdata, hset, Function.update_of_ne hq]
  · simp only [Table.truncate, hlive, hfile, Bool.false_eq_true, if_false]
    exact hset []

theorem stale_of_live (hlive : live nodes h = none) : Stale nodes h := by
  refine ⟨?_, ?_, ?_⟩
  · intro offset len
    simp only [readAt, hlive]
  · intro offset src
    simp only [writeAt, hlive]
  · simp only [truncate, hlive]

/-- Fewer than `2 ^ 32` reuses do not bring a generation back. -/
theorem stale_of_reused {k : Nat} (hk : k < 2 ^ 32)
    (hreused : Reused nodes h.node.toNat h.generation k) : Stale nodes h := by
  apply stale_of_live
  obtain ⟨node, hslot, hfree⟩ := hreused
  unfold live Arena.live
  rw [hslot]
  dsimp only
  split
  · rfl
  · rename_i hsame
    apply hfree
    have hzero : UInt32.ofNat k = 0 := by
      have hsum := not_not.mp hsame
      exact add_eq_left.mp hsum
    have hmod := congrArg UInt32.toNat hzero
    rw [UInt32.toNat_ofNat', Nat.mod_eq_of_lt hk] at hmod
    exact hmod

end Accesses

/-! What a call does to a slot. -/

variable {nodes : Table} {g : UInt32} {i : Nat} {p : Path}

theorem insert_other {slot : Slot Node} (hslot : nodes[i]? = some slot)
    (hnode : slot.node ≠ none) (m : Node) : (nodes.insert m).2[i]? = some slot := by
  obtain ⟨-, hkept, hreuse⟩ := nodes.insert_slot m
  rw [hkept i, hslot]
  rintro rfl
  obtain ⟨g, hfree, -⟩ | ⟨hend, -⟩ := hreuse
  · rw [hfree] at hslot
    cases hslot
    exact hnode rfl
  · rw [hend, List.getElem?_eq_none (Nat.le_refl _)] at hslot
    cases hslot

variable {node : Option Node} {ops : List Op} {path : Path} {h : Handle} {op : Op}

/-- A change keeps the generation of a slot and does not fill it, or reuses the slot. -/
theorem change_slot {nodes nodes' : Table} (h : Change nodes p nodes')
    (hslot : nodes[i]? = some ⟨g, node⟩) :
    (∃ node', nodes'[i]? = some ⟨g, node'⟩ ∧ (node = none → node' = none)) ∨
      (node = none ∧ ∃ n, nodes'[i]? = some ⟨g + 1, some n⟩) := by
  have hput : ∀ j g' m node', nodes[j]? = some (Slot.mk g' (some m)) →
      ∃ node'', (nodes.put j node')[i]? = some ⟨g, node''⟩ ∧ (node = none → node'' = none) := by
    intro j g' m node' hj
    rw [Arena.getElem?_put]
    split
    · rename_i hji
      rw [hji, hslot] at hj
      cases hj
      exact ⟨node', by rw [hslot]; rfl, nofun⟩
    · exact ⟨node, hslot, id⟩
  cases h with
  | same => exact .inl ⟨node, hslot, id⟩
  | @makes n =>
    obtain ⟨hnew, hkept, hreuse⟩ := nodes.insert_slot n
    by_cases hi : i = (nodes.insert n).1.1
    · obtain ⟨g', hfree, hg⟩ | ⟨hend, -⟩ := hreuse
      · rw [← hi, hslot] at hfree
        cases hfree
        exact .inr ⟨rfl, n, by rw [hi, hnew, hg]⟩
      · rw [hi, hend, List.getElem?_eq_none (Nat.le_refl _)] at hslot
        cases hslot
    · exact .inl ⟨node, by rw [hkept i hi, hslot], id⟩
  | removes slot dir | writes data slot file => exact .inl (hput _ _ _ _ slot)

theorem call_slot (op : Op) (hslot : nodes[i]? = some ⟨g, node⟩) :
    (∃ node', (op.call nodes).2[i]? = some ⟨g, node'⟩ ∧ (node = none → node' = none)) ∨
      (node = none ∧ ∃ n, (op.call nodes).2[i]? = some ⟨g + 1, some n⟩) := by
  obtain hsame | ⟨p, -, hchange⟩ := call_change nodes op
  · exact .inl ⟨node, by rw [hsame, hslot], id⟩
  · exact change_slot hchange hslot

/-- A slot that was freed counts its reuses in its generation. -/
theorem run_reused {nodes nodes' : Table} (run : Run Steps nodes ops nodes') {k : Nat}
    (h : Reused nodes i g k) : Reused nodes' i g (k + reuses i nodes ops) := by
  induction run generalizing k with
  | nil nodes => exact h
  | @cons nodes next nodes' op ops head _ ih =>
    obtain ⟨node, hslot, hfree⟩ := h
    subst head
    simp only [reuses]
    rw [← Nat.add_assoc]
    apply ih
    obtain ⟨node', hslot', hstays⟩ | ⟨rfl, n, hslot'⟩ := call_slot op hslot
    · have hnow : refilled nodes[i]? (op.call nodes).2[i]? = 0 := by
        rw [hslot, hslot']
        cases node with
        | none =>
          rw [hstays rfl]
          rfl
        | some n => rfl
      rw [hnow]
      exact ⟨node', hslot', fun hk => hstays (hfree hk)⟩
    · have hnow : refilled nodes[i]? (op.call nodes).2[i]? = 1 := by
        rw [hslot, hslot']
        rfl
      rw [hnow]
      refine ⟨some n, ?_, fun hk => absurd hk (Nat.succ_ne_zero k)⟩
      rw [hslot', UInt32.ofNat_add, ← add_assoc]
      rfl

/-- Only its unlinking removes a file, and only calls through its handles change it. -/
theorem call_node {n : Node} (hslot : nodes[i]? = some ⟨g, some n⟩) (hfile : n.isDir = false)
    (hop : op ≠ .unlink n.path) :
    (op.call nodes).2[i]? = some ⟨g, some n⟩ ∨
      ∃ h data, h.node.toNat = i ∧ h.generation = g ∧
        ((∃ offset src, op = .writeAt h offset src) ∨ op = .truncate h) ∧
        (op.call nodes).2[i]? = some ⟨g, some { n with data }⟩ := by
  have hmake : ∀ path isDir, (make nodes path isDir).2[i]? = some ⟨g, some n⟩ := by
    intro path isDir
    obtain ⟨e, herror⟩ | ⟨-, -, -, -, hok⟩ := make_cases nodes path isDir
    · rw [herror, hslot]
    · rw [hok]
      exact insert_other hslot (by simp) _
  have hremove : ∀ j, j ≠ i → (nodes.put j none)[i]? = some ⟨g, some n⟩ := by
    intro j hj
    rw [Arena.getElem?_put, if_neg hj, hslot]
  have hset : ∀ h m data, live nodes h = some m →
      (setData nodes h m data)[i]? = some ⟨g, some n⟩ ∨ h.node.toNat = i ∧ h.generation = g ∧
        (setData nodes h m data)[i]? = some ⟨g, some { n with data }⟩ := by
    intro h m data hlive
    have hm := Arena.live_eq_some.mp hlive
    rw [setData, Arena.getElem?_put]
    by_cases hi : h.node.toNat = i
    · rw [hi, hslot] at hm
      cases hm
      rw [if_pos hi, hslot]
      exact .inr ⟨hi, rfl, rfl⟩
    · rw [if_neg hi, hslot]
      exact .inl rfl
  cases op with
  | create path => exact .inl (hmake path false)
  | mkdir path => exact .inl (hmake path true)
  | unlink path =>
    apply Or.inl
    rw [call]
    obtain ⟨e, herror⟩ | ⟨j, g', m, hfind, -, hok⟩ := unlink_cases nodes path
    · rw [herror, hslot]
    · rw [hok]
      apply hremove
      rintro rfl
      obtain ⟨hm, rfl⟩ := find_slot hfind
      rw [hslot] at hm
      cases hm
      exact hop rfl
  | rmdir path =>
    apply Or.inl
    rw [call]
    obtain ⟨e, herror⟩ | ⟨j, g', m, hfind, hdir, -, -, hok⟩ := rmdir_cases nodes path
    · rw [herror, hslot]
    · rw [hok]
      apply hremove
      rintro rfl
      obtain ⟨hm, rfl⟩ := find_slot hfind
      rw [hslot] at hm
      cases hm
      rw [hfile] at hdir
      cases hdir
  | writeAt h offset src =>
    rw [call]
    obtain hsame | ⟨m, data, hlive, -, hdata⟩ := writeAt_cases nodes h offset src
    · exact .inl (by rw [hsame, hslot])
    · rw [hdata]
      obtain hkept | ⟨hi, hg, hnew⟩ := hset h m data hlive
      · exact .inl hkept
      · exact .inr ⟨h, data, hi, hg, .inl ⟨offset, src, rfl⟩, hnew⟩
  | truncate h =>
    rw [call]
    obtain hsame | ⟨m, hlive, -, hdata⟩ := truncate_cases nodes h
    · exact .inl (by rw [hsame, hslot])
    · rw [hdata]
      obtain hkept | ⟨hi, hg, hnew⟩ := hset h m [] hlive
      · exact .inl hkept
      · exact .inr ⟨h, [], hi, hg, .inr rfl, hnew⟩

theorem call_holds
    (h : Holds nodes i g p) (hop : op ≠ .unlink p) : Holds (op.call nodes).2 i g p := by
  obtain ⟨n, hslot, rfl, hfile⟩ := h
  obtain hsame | ⟨h, data, -, -, -, hnew⟩ := call_node hslot hfile hop
  · exact ⟨n, hsame, rfl, hfile⟩
  · exact ⟨{ n with data }, hnew, rfl, hfile⟩

theorem find_of_slot (named : nodes.IsNamed) {n : Node}
    (hslot : nodes[i]? = some ⟨g, some n⟩) : find nodes n.path = some (i, g, n) := by
  cases hfind : find nodes n.path with
  | none => exact absurd rfl (find_eq_none.mp hfind n (Arena.mem_nodes.mpr ⟨i, g, hslot⟩))
  | some found =>
    obtain ⟨j, g', m⟩ := found
    obtain ⟨hm, hpath⟩ := find_slot hfind
    obtain rfl := Arena.slot_unique named.distinct hm hslot hpath
    rw [hslot] at hm
    cases hm
    rfl

theorem unlink_frees (named : nodes.IsNamed)
    (h : Holds nodes i g p) : Reused (call nodes (.unlink p)).2 i g 0 := by
  obtain ⟨n, hslot, rfl, hfile⟩ := h
  have hvalid := named.valid n (Arena.mem_nodes.mpr ⟨i, g, hslot⟩)
  have hunlink : unlink nodes n.path = (.ok (), nodes.put i none) := by
    simp [unlink, hvalid, find_of_slot named hslot, hfile]
  refine ⟨none, ?_, fun _ => rfl⟩
  rw [call, hunlink, Arena.getElem?_put, if_pos rfl, hslot]
  simp

/-- Up to its unlinking a file stays in its slot; from then on the slot counts reuses. -/
theorem run_holds {nodes nodes' : Table} (run : Run Steps nodes ops nodes')
    (named : nodes.IsNamed) (h : Holds nodes i g p) :
    (.unlink p ∉ ops → Holds nodes' i g p) ∧
      (.unlink p ∈ ops → ∃ k ≤ reuses i nodes ops, Reused nodes' i g k) := by
  induction run with
  | nil nodes => exact ⟨fun _ => h, nofun⟩
  | @cons nodes next nodes' op ops head tail ih =>
    have hnext := step_isNamed nodes op next named head
    have hreuses : reuses i next ops ≤ reuses i nodes (op :: ops) := by
      subst head
      exact Nat.le_add_left _ _
    by_cases hop : op = .unlink p
    · subst hop
      refine ⟨fun hnot => absurd List.mem_cons_self hnot, fun _ => ?_⟩
      have hfreed := unlink_frees named h
      rw [head] at hfreed
      have hreused := run_reused tail hfreed
      rw [Nat.zero_add] at hreused
      exact ⟨_, hreuses, hreused⟩
    · have hheld : Holds next i g p := head ▸ call_holds h hop
      obtain ⟨hkept, hgone⟩ := ih hnext hheld
      constructor
      · exact fun hnot => hkept fun hmem => hnot (List.mem_cons_of_mem _ hmem)
      · intro hmem
        obtain rfl | hmem := List.mem_cons.mp hmem
        · exact absurd rfl hop
        · obtain ⟨k, hk, hreused⟩ := hgone hmem
          exact ⟨k, hk.trans hreuses, hreused⟩

/-! Handles as they are issued. -/

theorem lookup_file {devices : List Path} {len : Nat}
    (hok : lookup nodes devices path = .ok (.file h len)) :
    ∃ i generation n, find nodes path = some (i, generation, n) ∧ n.isDir = false ∧
      h = ⟨UInt32.ofNat i, generation⟩ := by
  unfold lookup at hok
  cases hvalid : validatePath path with
  | error e =>
    rw [hvalid] at hok
    cases hok
  | ok _ =>
    rw [hvalid] at hok
    change (if _ then _ else _) = _ at hok
    split at hok
    · cases hok
    · split at hok
      · cases hok
      · rename_i i generation n hfind
        split at hok
        · cases hok
        · rename_i hdir
          cases hok
          exact ⟨i, generation, n, hfind, by simpa using hdir, rfl⟩

/-- With at most `2 ^ 32` slots no position is cut, and the handle's slot holds the file. -/
theorem issued_holds {before after : Table} (named : before.IsNamed)
    (issued : Issued before path h after) (hfits : after.length ≤ 2 ^ 32) :
    after.IsNamed ∧ Holds after h.node.toNat h.generation path := by
  have hposition : ∀ {i : Nat} {slot : Slot Node}, after[i]? = some slot →
      (UInt32.ofNat i).toNat = i := by
    intro i slot hslot
    have hi := (List.getElem?_eq_some_iff.mp hslot).1
    rw [UInt32.toNat_ofNat', Nat.mod_eq_of_lt (by omega)]
  cases issued with
  | create ok =>
    have hchange := Op.change_make before path false
    unfold Table.create at ok
    obtain ⟨e, herror⟩ | ⟨-, -, -, -, hok⟩ := make_cases before path false
    · rw [herror] at ok
      cases ok
    · have hslot := (before.insert_slot ⟨path, false, []⟩).1
      rw [ok] at hchange hok
      obtain ⟨hh, rfl⟩ := Prod.mk.inj hok
      cases hh
      refine ⟨change_named named hchange, ⟨path, false, []⟩, ?_, rfl, rfl⟩
      rw [hposition hslot]
      exact hslot
  | lookup ok =>
    obtain ⟨i, generation, n, hfind, hfile, rfl⟩ := lookup_file ok
    obtain ⟨hslot, hpath⟩ := find_slot hfind
    refine ⟨named, n, ?_, hpath, hfile⟩
    rw [hposition hslot]
    exact hslot

/-- A handle acts on the file it was issued for until that file is unlinked, and then on
nothing, as long as its slot is reused fewer than `2 ^ 32` times. The kernel's heap of 256 MiB
has room for far fewer than the `2 ^ 32` slots that an index of 32 bits tells apart. -/
theorem handle_acts_on_its_file {before after nodes : Table} {path : Path} {h : Handle}
    {ops : List Op} (named : before.IsNamed) (issued : Issued before path h after)
    (hfits : after.length ≤ 2 ^ 32) (run : Run Steps after ops nodes)
    (hreuses : reuses h.node.toNat after ops < 2 ^ 32) :
    (.unlink path ∉ ops → ∃ data, ActsOn nodes h path data) ∧
      (.unlink path ∈ ops → Stale nodes h) := by
  obtain ⟨hnamed, hholds⟩ := issued_holds named issued hfits
  obtain ⟨hkept, hgone⟩ := run_holds run hnamed hholds
  constructor
  · intro hnot
    exact actsOn_of_holds (run.preserves step_isNamed hnamed) (hkept hnot)
  · intro hmem
    obtain ⟨k, hk, hreused⟩ := hgone hmem
    exact stale_of_reused (hk.trans_lt hreuses) hreused

/-- The file is unlinked and its slot given to another one. -/
theorem handle_acts_on_its_file_reused :
    ∃ nodes : Table, nodes.contents (asBytes "/b") = some ⟨false, []⟩ ∧ Stale nodes ⟨1, 0⟩ := by
  have issued : Issued rootOnly (asBytes "/a") ⟨1, 0⟩ (create rootOnly (asBytes "/a")).2 :=
    .create rfl
  have run : Run Steps (create rootOnly (asBytes "/a")).2
      [.unlink (asBytes "/a"), .create (asBytes "/b")] _ := .cons rfl (.cons rfl (.nil _))
  refine ⟨_, ?_, (handle_acts_on_its_file rootOnly_isTree.toIsNamed issued ?_ run ?_).2 ?_⟩
  · decide
  · decide
  · decide
  · decide

end KazuOS.Fs
