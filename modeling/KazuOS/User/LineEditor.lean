import KazuOS.User.Shell

/-! The line editor as its user sees it: a line with a cursor, and the lines entered before. The
shell follows it from its start, however the keys are mixed. -/
namespace KazuOS.Shell

/-- A line on the way. `saved` is the line that was left for one of the history. -/
structure Draft where
  line : Bytes
  pos : Nat
  age : Nat
  saved : Bytes
  deriving DecidableEq

def Draft.empty : Draft := ⟨[], 0, 0, []⟩

namespace Draft

def backspace (d : Draft) : Draft :=
  if 0 < d.pos then { d with line := d.line.eraseIdx (d.pos - 1), pos := d.pos - 1 } else d

def left (d : Draft) : Draft := { d with pos := d.pos - 1 }

def right (d : Draft) : Draft := { d with pos := min (d.pos + 1) d.line.length }

def insert (d : Draft) (c : UInt8) : Draft :=
  if d.line.length < 255 then { d with line := d.line.insertIdx d.pos c, pos := d.pos + 1 } else d

/-- Put another line in place of this one. -/
def showing (d : Draft) (age : Nat) (line : Bytes) : Draft :=
  { d with line, pos := line.length, age }

/-- Lines of the history are counted from the last one. -/
def up (past : List Bytes) (d : Draft) : Draft :=
  match past[d.age]? with
  | some line => { d with saved := if d.age = 0 then d.line else d.saved }.showing (d.age + 1) line
  | none => d

def down (past : List Bytes) (d : Draft) : Draft :=
  match d.age with
  | 0 => d
  | 1 => d.showing 0 d.saved
  | age + 2 => d.showing (age + 1) (past.getD age [])

end Draft

structure Model where
  past : List Bytes
  draft : Draft

def Model.key (m : Model) : Key → Model × Option Bytes
  | .enter =>
      (⟨if m.draft.line = [] then m.past else (m.draft.line :: m.past).take maxHistory, .empty⟩,
        some m.draft.line)
  | .cancel => (⟨m.past, .empty⟩, some [])
  | .backspace => ({ m with draft := m.draft.backspace }, none)
  | .left => ({ m with draft := m.draft.left }, none)
  | .right => ({ m with draft := m.draft.right }, none)
  | .up => ({ m with draft := m.draft.up m.past }, none)
  | .down => ({ m with draft := m.draft.down m.past }, none)
  | .char c => ({ m with draft := m.draft.insert c }, none)
  | .other => (m, none)

/-- Keys one after another, and the lines entered with them. -/
def Model.run (m : Model) : List Key → Model × List Bytes
  | [] => (m, [])
  | k :: rest =>
      let (m, line) := m.key k
      let (m, lines) := m.run rest
      (m, line.toList ++ lines)

def Model.boot : Model := ⟨[], .empty⟩

/-- The ring holds the last lines, the newest below `count`. -/
structure Keeps (h : History) (past : List Bytes) : Prop where
  size : past.length = min h.count maxHistory
  lines : h.lines.length = maxHistory
  lens : h.lens.length = maxHistory
  whole : ∀ line ∈ h.lines, line.length = bufSize
  slot : ∀ age line, past[age]? = some line → ∃ buf,
    h.lines[(h.count - (age + 1)) % maxHistory]? = some buf ∧ Holds buf line ∧
      h.lens[(h.count - (age + 1)) % maxHistory]? = some line.length

structure Edits (e : Editor) (d : Draft) : Prop where
  line : Holds e.buf d.line
  len : e.len = d.line.length
  pos : e.pos = d.pos
  within : d.pos ≤ d.line.length
  age : e.histAge = d.age
  saved : Holds e.savedBuf d.saved
  savedLen : e.savedLen = d.saved.length

structure Simulates (s : State) (m : Model) : Prop where
  history : Keeps s.history m.past
  editor : Edits s.editor m.draft
  reach : m.draft.age ≤ m.past.length

theorem Draft.age_backspace (d : Draft) : d.backspace.age = d.age := by
  unfold Draft.backspace
  split <;> rfl

theorem Draft.age_insert (d : Draft) (c : UInt8) : (d.insert c).age = d.age := by
  unfold Draft.insert
  split <;> rfl

theorem Draft.age_down_le (past : List Bytes) (d : Draft) : (d.down past).age ≤ d.age - 1 := by
  unfold Draft.down
  split
  · omega
  · exact Nat.zero_le _
  · dsimp only [Draft.showing]
    omega

variable {s : State} {m : Model} {h : History} {past : List Bytes} {e : Editor} {d : Draft}

theorem Edits.start {buf : Bytes} (hbuf : buf.length = bufSize) : Edits (.start buf) .empty :=
  ⟨.nil hbuf, rfl, rfl, Nat.le_refl 0, rfl, .nil List.length_replicate, rfl⟩

theorem simulates_boot : Simulates boot .boot where
  history := ⟨rfl, List.length_replicate, List.length_replicate,
    fun _ hline => List.eq_of_mem_replicate hline ▸ List.length_replicate, nofun⟩
  editor := .start List.length_replicate
  reach := Nat.le_refl 0

/-! One step for each key. -/

theorem Edits.backspace (hedit : Edits e d) :
    ∃ e', e.backspace = some e' ∧ Edits e' d.backspace := by
  have hpos := hedit.pos
  have hwithin := hedit.within
  unfold Editor.backspace Draft.backspace
  rw [hpos]
  split
  · obtain ⟨buf, hshift, hline⟩ :=
      @Holds.erase _ _ (d.pos - 1) hedit.line (by omega)
    rw [hedit.len, hshift]
    refine ⟨_, rfl, hline, ?_, rfl, ?_, hedit.age, hedit.saved, hedit.savedLen⟩
    · exact (List.length_eraseIdx_of_lt (by omega)).symm
    · dsimp only
      rw [List.length_eraseIdx_of_lt (by omega)]
      omega
  · exact ⟨e, rfl, hedit⟩

theorem Edits.left (hedit : Edits e d) : Edits e.left d.left := by
  have hpos := hedit.pos
  have hwithin := hedit.within
  unfold Editor.left Draft.left
  split
  · exact ⟨hedit.line, hedit.len, congrArg (· - 1) hpos, Nat.le_trans (Nat.sub_le _ _) hwithin,
      hedit.age, hedit.saved, hedit.savedLen⟩
  · exact ⟨hedit.line, hedit.len, by dsimp only; omega, Nat.le_trans (Nat.sub_le _ _) hwithin,
      hedit.age, hedit.saved, hedit.savedLen⟩

theorem Edits.right (hedit : Edits e d) : Edits e.right d.right := by
  have hpos := hedit.pos
  have hlen := hedit.len
  have hwithin := hedit.within
  unfold Editor.right Draft.right
  split
  · exact ⟨hedit.line, hlen, by dsimp only; omega, Nat.min_le_right _ _, hedit.age, hedit.saved,
      hedit.savedLen⟩
  · exact ⟨hedit.line, hlen, by dsimp only; omega, Nat.min_le_right _ _, hedit.age, hedit.saved,
      hedit.savedLen⟩

theorem Edits.insert (hedit : Edits e d) (c : UInt8) :
    ∃ e', e.insert c = some e' ∧ Edits e' (d.insert c) := by
  have hfull : e.len < e.buf.length - 1 ↔ d.line.length < 255 := by
    rw [hedit.len, hedit.line.size]
    exact Iff.rfl
  unfold Editor.insert Draft.insert
  by_cases hroom : d.line.length < 255
  · rw [if_pos (hfull.mpr hroom), if_pos hroom]
    obtain ⟨shifted, buf, hshift, hstore, hline⟩ :=
      hedit.line.insert hedit.within (Nat.succ_lt_succ hroom) c
    have hlength := List.length_insertIdx_of_le_length hedit.within c
    rw [hedit.pos, hedit.len, hshift]
    simp only [Option.bind_eq_bind, Option.bind_some, hstore]
    refine ⟨_, rfl, hline, hlength.symm, rfl, ?_, hedit.age, hedit.saved, hedit.savedLen⟩
    dsimp only
    rw [hlength]
    exact Nat.succ_le_succ hedit.within
  · rw [if_neg (mt hfull.mp hroom), if_neg hroom]
    exact ⟨e, rfl, hedit⟩

/-- A line of the history is shown: where the editor is, it has left the line before. -/
theorem Edits.showPast (hedit : Edits e d) (hkeeps : Keeps h past) {age : Nat} {line : Bytes}
    (hline : past[age]? = some line) :
    ∃ e', { e with histAge := age + 1 }.showPast h = some e' ∧
      Edits e' (d.showing (age + 1) line) := by
  obtain ⟨stored, hlines, hholds, hlens⟩ := hkeeps.slot age line hline
  obtain ⟨buf, hcopy, hbuf⟩ := hholds.copy hedit.line.size
  unfold Editor.showPast
  dsimp only
  rw [hlens, hlines]
  simp only [Option.bind_eq_bind, Option.bind_some, hcopy]
  exact ⟨_, rfl, hbuf, rfl, rfl, Nat.le_refl _, rfl, hedit.saved, hedit.savedLen⟩

theorem Edits.save (hedit : Edits e d) : ∃ e', e.save = some e' ∧ e'.histAge = e.histAge ∧
    Edits e' { d with saved := if d.age = 0 then d.line else d.saved } := by
  unfold Editor.save
  by_cases hzero : d.age = 0
  · obtain ⟨savedBuf, hcopy, hsaved⟩ := hedit.line.copy hedit.saved.size
    rw [if_pos (hedit.age.trans hzero), if_pos hzero, hedit.len, hcopy]
    exact ⟨_, rfl, rfl, hedit.line, rfl, hedit.pos, hedit.within, hedit.age, hsaved, rfl⟩
  · rw [if_neg (hedit.age ▸ hzero), if_neg hzero]
    exact ⟨e, rfl, rfl, hedit⟩

theorem Edits.up (hedit : Edits e d) (hkeeps : Keeps h past) :
    ∃ e', e.up h = some e' ∧ Edits e' (d.up past) := by
  unfold Editor.up Draft.up
  rw [hedit.age, ← hkeeps.size]
  cases hline : past[d.age]? with
  | none =>
    rw [if_neg (Nat.not_lt.mpr (List.getElem?_eq_none_iff.mp hline))]
    exact ⟨e, rfl, hedit⟩
  | some line =>
    obtain ⟨saved, hsave, hage, hsaved⟩ := hedit.save
    rw [if_pos (List.getElem?_eq_some_iff.mp hline).1, hsave]
    simp only [Option.bind_eq_bind, Option.bind_some, hage, hedit.age]
    exact hsaved.showPast hkeeps hline

theorem Edits.down (hedit : Edits e d) (hkeeps : Keeps h past) (hreach : d.age ≤ past.length) :
    ∃ e', e.down h = some e' ∧ Edits e' (d.down past) := by
  have hage := hedit.age
  unfold Editor.down Draft.down
  match hd : d.age with
  | 0 =>
    rw [if_neg (by omega)]
    exact ⟨e, rfl, hedit⟩
  | 1 =>
    obtain ⟨buf, hcopy, hbuf⟩ := hedit.saved.copy hedit.line.size
    have hzero : e.histAge - 1 = 0 := by omega
    rw [if_pos (by omega)]
    dsimp only
    rw [if_pos hzero, hedit.savedLen, hcopy]
    exact ⟨_, rfl, hbuf, rfl, rfl, Nat.le_refl _, hzero, hedit.saved, rfl⟩
  | age + 2 =>
    have hlt : age < past.length := by omega
    have hnext : e.histAge - 1 = age + 1 := by omega
    have hline : past[age]? = some (past.getD age []) := by
      rw [List.getD_eq_getElem?_getD, List.getElem?_eq_getElem hlt, Option.getD_some]
    rw [if_pos (by omega)]
    dsimp only
    rw [if_neg (by omega), hnext]
    exact hedit.showPast hkeeps hline

/-- A new line takes the place of the oldest. -/
theorem Keeps.push (hkeeps : Keeps h past) {buf line : Bytes} (hline : Holds buf line) :
    ∃ h', pushHistory h buf line.length = some h' ∧
      Keeps h' ((line :: past).take maxHistory) := by
  have hsize := hkeeps.size
  have hslot : h.count % maxHistory < maxHistory := Nat.mod_lt _ (by decide)
  have hlines : h.count % maxHistory < h.lines.length := hkeeps.lines.symm ▸ hslot
  have hlens : h.count % maxHistory < h.lens.length := hkeeps.lens.symm ▸ hslot
  obtain ⟨stored, hcopy, hstored⟩ := hline.copy (hkeeps.whole _ (List.getElem_mem hlines))
  refine ⟨⟨h.lines.set (h.count % maxHistory) stored, h.lens.set (h.count % maxHistory) line.length,
    h.count + 1⟩, ?_, ?_, ?_, ?_, ?_, ?_⟩
  · unfold pushHistory
    dsimp only
    rw [List.getElem?_eq_getElem hlines]
    simp only [Option.bind_eq_bind, Option.bind_some, hcopy]
    exact if_pos hlens
  · dsimp only
    rw [List.length_take, List.length_cons, hsize]
    omega
  · exact List.length_set.trans hkeeps.lines
  · exact List.length_set.trans hkeeps.lens
  · intro other hmem
    obtain hmem | rfl := List.mem_or_eq_of_mem_set hmem
    · exact hkeeps.whole other hmem
    · exact hstored.size
  · intro age other hother
    dsimp only
    have hage : age < maxHistory := by
      by_contra hage
      rw [List.getElem?_take_eq_none (Nat.le_of_not_lt hage)] at hother
      cases hother
    rw [List.getElem?_take_of_lt hage] at hother
    cases age with
    | zero =>
      cases hother
      refine ⟨stored, ?_, hstored, ?_⟩
      · rw [Nat.add_sub_cancel, List.getElem?_set_self hlines]
      · rw [Nat.add_sub_cancel, List.getElem?_set_self hlens]
    | succ age =>
      -- The slot of an older line is another one, as no more than the ring holds are kept.
      have hlt : age < past.length := Nat.lt_of_succ_lt_succ (List.getElem?_eq_some_iff.mp hother).1
      have hold : h.count + 1 - (age + 1 + 1) = h.count - (age + 1) := by omega
      have hne : h.count % maxHistory ≠ (h.count - (age + 1)) % maxHistory := by
        unfold maxHistory at hsize hage ⊢
        omega
      rw [hold, List.getElem?_set_ne hne, List.getElem?_set_ne hne]
      exact hkeeps.slot age other hother

theorem Edits.take (hedit : Edits e d) : e.buf.take e.len = d.line := by
  rw [hedit.len, hedit.line.take]

/-- A key that edits the line leaves the history as it is. -/
theorem Simulates.edit (hs : Simulates s m) {next : Option Editor} {d : Draft}
    (hnext : ∃ e, next = some e ∧ Edits e d) (hreach : d.age ≤ m.past.length) :
    ∃ s', (do some ({ s with editor := ← next }, (none : Option Bytes))) = some (s', none) ∧
      Simulates s' { m with draft := d } := by
  obtain ⟨e, rfl, hedit⟩ := hnext
  exact ⟨{ s with editor := e }, rfl, hs.history, hedit, hreach⟩

/-- A line is done with, and the next one starts in the same buffer. -/
theorem Simulates.restart (hs : Simulates s m) (hkeeps : Keeps h past) :
    Simulates ⟨h, .start s.editor.buf⟩ ⟨past, .empty⟩ :=
  ⟨hkeeps, .start hs.editor.line.size, Nat.zero_le _⟩

/-- No key leads out of the arrays, and the editor and its model do the same. -/
theorem Simulates.key (hs : Simulates s m) (k : Key) :
    ∃ s', s.key k = some (s', (m.key k).2) ∧ Simulates s' (m.key k).1 := by
  have hkeeps := hs.history
  have hedit := hs.editor
  cases k with
  | enter =>
    have hline : s.editor.buf.take s.editor.len = m.draft.line := hedit.take
    simp only [State.key, Model.key]
    by_cases hnil : m.draft.line = []
    · have hlen : ¬0 < s.editor.len := by
        rw [hedit.len, hnil]
        decide
      rw [if_neg hlen, if_pos hnil, ← hline]
      exact ⟨_, rfl, hs.restart hkeeps⟩
    · obtain ⟨h', hpush, hkept⟩ := hkeeps.push hedit.line
      have hlen : 0 < s.editor.len := hedit.len ▸ List.length_pos_iff.mpr hnil
      rw [← hedit.len] at hpush
      rw [if_pos hlen, if_neg hnil, hpush, ← hline]
      exact ⟨_, rfl, hs.restart (hline ▸ hkept)⟩
  | cancel => exact ⟨_, rfl, hs.restart hkeeps⟩
  | backspace => exact hs.edit hedit.backspace (m.draft.age_backspace ▸ hs.reach)
  | left => exact ⟨_, rfl, hkeeps, hedit.left, hs.reach⟩
  | right => exact ⟨_, rfl, hkeeps, hedit.right, hs.reach⟩
  | up =>
    refine hs.edit (hedit.up hkeeps) ?_
    unfold Draft.up
    split
    · rename_i line hline
      exact (List.getElem?_eq_some_iff.mp hline).1
    · exact hs.reach
  | down =>
    have hage := Draft.age_down_le m.past m.draft
    exact hs.edit (hedit.down hkeeps hs.reach) (hage.trans ((Nat.sub_le _ _).trans hs.reach))
  | char c => exact hs.edit (hedit.insert c) (m.draft.age_insert c ▸ hs.reach)
  | other => exact ⟨s, rfl, hs⟩

/-- Keys that come one in a read. -/
def typed (keys : Bytes) : List Poll := keys.map fun b => .bytes [b]

theorem Simulates.run (hs : Simulates s m) (keys : Bytes) :
    ∃ s', readAll s (typed keys) = some (s', (m.run (keys.map keyOf)).2, []) ∧
      Simulates s' (m.run (keys.map keyOf)).1 := by
  induction keys generalizing s m with
  | nil => exact ⟨s, rfl, hs⟩
  | cons b keys ih =>
    obtain ⟨s', hkey, hs'⟩ := hs.key (keyOf b)
    obtain ⟨s'', hrun, hs''⟩ := ih hs'
    refine ⟨s'', ?_, hs''⟩
    have hread : readChunk s [b] = some ⟨s', (m.key (keyOf b)).2, []⟩ := by
      rw [readChunk, hkey]
      dsimp only [Option.bind_eq_bind, Option.bind_some]
      cases (m.key (keyOf b)).2 <;> rfl
    rw [typed, List.map_cons, readAll, hread]
    dsimp only [Option.bind_eq_bind, Option.bind_some]
    rw [← typed, hrun]
    rfl

/-! Up and down again. -/

theorem Model.run_append (m : Model) (first second : List Key) :
    m.run (first ++ second) = (((m.run first).1.run second).1,
      (m.run first).2 ++ ((m.run first).1.run second).2) := by
  induction first generalizing m with
  | nil => rfl
  | cons k first ih =>
    rw [List.cons_append, Model.run, Model.run]
    dsimp only
    rw [ih, List.append_assoc]

theorem Model.run_replicate {k : Key} {step : List Bytes → Draft → Draft}
    (hkey : ∀ m : Model, m.key k = (⟨m.past, step m.past m.draft⟩, none)) (m : Model) (n : Nat) :
    m.run (List.replicate n k) = (⟨m.past, (step m.past)^[n] m.draft⟩, []) := by
  induction n generalizing m with
  | zero => rfl
  | succ n ih =>
    rw [List.replicate_succ, Model.run, hkey]
    dsimp only
    rw [ih]
    rfl

namespace Draft

/-- The line that comes back when the history is left. -/
def edited (d : Draft) : Bytes := if d.age = 0 then d.line else d.saved

theorem edited_up (past : List Bytes) (d : Draft) : (d.up past).edited = d.edited := by
  unfold Draft.up
  split
  · exact if_neg (Nat.succ_ne_zero _)
  · rfl

theorem edited_down (past : List Bytes) (d : Draft) : (d.down past).edited = d.edited := by
  unfold Draft.down
  split
  · rfl
  · rename_i hage
    exact (if_neg (by omega)).symm
  · rename_i age hage
    exact (if_neg (Nat.succ_ne_zero _)).trans (if_neg (by omega)).symm

theorem edited_iterate {step : Draft → Draft} (hstep : ∀ d, (step d).edited = d.edited)
    (d : Draft) (n : Nat) : (step^[n] d).edited = d.edited := by
  induction n with
  | zero => rfl
  | succ n ih => rw [Function.iterate_succ_apply', hstep, ih]

theorem age_up_le (past : List Bytes) (d : Draft) : (d.up past).age ≤ d.age + 1 := by
  unfold Draft.up
  split
  · exact Nat.le_refl _
  · exact Nat.le_succ _

theorem age_ups_le (past : List Bytes) (d : Draft) (n : Nat) :
    ((Draft.up past)^[n] d).age ≤ d.age + n := by
  induction n with
  | zero => exact Nat.le_refl _
  | succ n ih =>
    rw [Function.iterate_succ_apply']
    exact (age_up_le past _).trans (Nat.succ_le_succ ih)

theorem age_downs_le (past : List Bytes) (d : Draft) (n : Nat) :
    ((Draft.down past)^[n] d).age ≤ d.age - n := by
  induction n with
  | zero => exact Nat.le_refl _
  | succ n ih =>
    rw [Function.iterate_succ_apply']
    have hdown := age_down_le past ((Draft.down past)^[n] d)
    omega

theorem line_ups_downs {d : Draft} (h : d.age = 0) (past : List Bytes) (n : Nat) :
    ((Draft.down past)^[n] ((Draft.up past)^[n] d)).line = d.line := by
  have hage : ((Draft.down past)^[n] ((Draft.up past)^[n] d)).age = 0 := by
    have hup := age_ups_le past d n
    have hdown := age_downs_le past ((Draft.up past)^[n] d) n
    omega
  have hedited : ((Draft.down past)^[n] ((Draft.up past)^[n] d)).edited = d.edited :=
    (edited_iterate (edited_down past) _ n).trans (edited_iterate (edited_up past) d n)
  rwa [edited, edited, if_pos hage, if_pos h] at hedited

end Draft

/-- The history is left where it was entered, with the line that was being edited. -/
theorem Simulates.ups_downs (hs : Simulates s m) (hage : s.editor.histAge = 0) (n : Nat) :
    ∃ s', readAll s (typed (List.replicate n 0x82 ++ List.replicate n 0x83)) = some (s', [], []) ∧
      s'.editor.buf.take s'.editor.len = s.editor.buf.take s.editor.len := by
  obtain ⟨s', hrun, hs'⟩ := hs.run (List.replicate n 0x82 ++ List.replicate n 0x83)
  have hmodel : m.run ((List.replicate n 0x82 ++ List.replicate n 0x83 : Bytes).map keyOf) =
      (⟨m.past, (Draft.down m.past)^[n] ((Draft.up m.past)^[n] m.draft)⟩, []) := by
    rw [List.map_append, List.map_replicate, List.map_replicate,
      show keyOf 0x82 = .up by decide, show keyOf 0x83 = .down by decide, Model.run_append,
      Model.run_replicate fun _ => rfl, Model.run_replicate fun _ => rfl]
    rfl
  rw [hmodel] at hrun hs'
  refine ⟨s', hrun, ?_⟩
  rw [hs'.editor.take, hs.editor.take]
  exact Draft.line_ups_downs (hs.editor.age.symm.trans hage) m.past n

/-- Whatever is typed, the shell shows and returns the lines of the model, within its arrays. -/
theorem read_line_refines (keys : Bytes) :
    let m := Model.boot.run (keys.map keyOf)
    ∃ s, readAll boot (typed keys) = some (s, m.2, []) ∧
      s.editor.pos ≤ s.editor.len ∧ s.editor.len ≤ 255 ∧ s.editor.buf.length = bufSize ∧
      s.editor.pos = m.1.draft.pos ∧ s.editor.buf.take s.editor.len = m.1.draft.line ∧
      (s.editor.histAge = 0 → ∀ n, ∃ s',
        readAll s (typed (List.replicate n 0x82 ++ List.replicate n 0x83)) = some (s', [], []) ∧
          s'.editor.buf.take s'.editor.len = s.editor.buf.take s.editor.len) := by
  obtain ⟨s, hrun, hs⟩ := simulates_boot.run keys
  have hedit := hs.editor
  refine ⟨s, hrun, ?_, ?_, hedit.line.size, hedit.pos, hedit.take, hs.ups_downs⟩
  · rw [hedit.pos, hedit.len]
    exact hedit.within
  · rw [hedit.len]
    exact Nat.le_of_lt_succ hedit.line.short

/-- A line of the history that was edited is not saved: an up and a down lose the `x`. -/
theorem edited_past_is_lost : ∃ s s',
    readAll boot (typed [0x61, 0x0A, 0x82, 0x78]) = some (s, [[0x61]], []) ∧
      s.editor.buf.take s.editor.len = [0x61, 0x78] ∧
      readAll s (typed [0x82, 0x83]) = some (s', [], []) ∧
      s'.editor.buf.take s'.editor.len = [] := by
  obtain ⟨s, hrun, hs⟩ := simulates_boot.run [0x61, 0x0A, 0x82, 0x78]
  obtain ⟨s', hrun', hs'⟩ := hs.run [0x82, 0x83]
  exact ⟨s, s', hrun, hs.editor.take, hrun', hs'.editor.take⟩

example : (Model.boot.run ([0x61, 0x63, 0x80, 0x62, 0x0A, 0x64, 0x82, 0x0D].map keyOf)).2 =
    [[0x61, 0x62, 0x63], [0x61, 0x62, 0x63]] := by decide

/-! Several bytes in a read. -/

def EndsLine (b : UInt8) : Prop := keyOf b = .enter ∨ keyOf b = .cancel

/-- Only the last byte of a read ends a line. -/
def EndsLast (chunk : Bytes) : Prop := ∀ b ∈ chunk.dropLast, ¬EndsLine b

theorem endsLast_cons {b : UInt8} {rest : Bytes} :
    EndsLast (b :: rest) ↔ (EndsLine b → rest = []) ∧ EndsLast rest := by
  unfold EndsLast
  cases rest with
  | nil => simp
  | cons c rest => simp [List.dropLast_cons_of_ne_nil]

theorem Model.key_returns (m : Model) (b : UInt8) : (m.key (keyOf b)).2 = none ↔ ¬EndsLine b := by
  unfold EndsLine
  cases keyOf b <;> simp [Model.key]

/-- A read leaves bytes behind just if a line ends before its last byte. -/
theorem Simulates.readChunk (hs : Simulates s m) (chunk : Bytes) :
    ∃ out m', Shell.readChunk s chunk = some out ∧ Simulates out.state m' ∧
      (out.unread = [] ↔ EndsLast chunk) := by
  induction chunk generalizing s m with
  | nil => exact ⟨_, m, rfl, hs, iff_of_true rfl nofun⟩
  | cons b rest ih =>
    obtain ⟨s', hkey, hs'⟩ := hs.key (keyOf b)
    have hreturns := m.key_returns b
    rw [endsLast_cons, Shell.readChunk, hkey]
    dsimp only [Option.bind_eq_bind, Option.bind_some]
    cases hline : (m.key (keyOf b)).2 with
    | none =>
      obtain ⟨out, m', hread, hout, hunread⟩ := ih hs'
      refine ⟨out, m', hread, hout, hunread.trans ?_⟩
      exact (and_iff_right fun hends => absurd hends (hreturns.mp hline)).symm
    | some line =>
      have hends : EndsLine b := by
        by_contra hends
        cases (hreturns.mpr hends).symm.trans hline
      refine ⟨⟨s', some line, rest⟩, _, rfl, hs', ?_⟩
      constructor
      · rintro rfl
        exact ⟨fun _ => rfl, nofun⟩
      · exact fun h => h.1 hends

theorem Simulates.interrupted (hs : Simulates s m) :
    Simulates (State.returned s.history s.editor.buf 0).1 ⟨m.past, .empty⟩ :=
  hs.restart hs.history

/-- Bytes are lost just where a read goes on after the end of a line. -/
theorem Simulates.readAll (hs : Simulates s m) (polls : List Poll) :
    ∃ s' lines lost, Shell.readAll s polls = some (s', lines, lost) ∧
      (lost = [] ↔ ∀ chunk, .bytes chunk ∈ polls → EndsLast chunk) := by
  induction polls generalizing s m with
  | nil => exact ⟨s, [], [], rfl, iff_of_true rfl nofun⟩
  | cons poll polls ih =>
    cases poll with
    | interrupted =>
      obtain ⟨s', lines, lost, hread, hlost⟩ := ih hs.interrupted
      refine ⟨s', [] :: lines, lost, ?_, ?_⟩
      · rw [Shell.readAll, hread]
        rfl
      · simpa using hlost
    | bytes chunk =>
      obtain ⟨out, m', hchunk, hout, hunread⟩ := hs.readChunk chunk
      obtain ⟨s', lines, lost, hread, hlost⟩ := ih hout
      refine ⟨s', out.line.toList ++ lines, out.unread ++ lost, ?_, ?_⟩
      · rw [Shell.readAll, hchunk]
        dsimp only [Option.bind_eq_bind, Option.bind_some]
        rw [hread]
        rfl
      · rw [List.append_eq_nil_iff, hunread, hlost]
        simp

/-- The same input with one byte in each read. -/
def oneByOne (polls : List Poll) : List Poll :=
  polls.flatMap fun
    | .interrupted => [.interrupted]
    | .bytes chunk => typed chunk

theorem readAll_chunk (hs : Simulates s m) {chunk : Bytes} (h : EndsLast chunk)
    (polls : List Poll) : readAll s (.bytes chunk :: polls) = readAll s (typed chunk ++ polls) := by
  induction chunk generalizing s m with
  | nil =>
    change _ = readAll s polls
    rw [readAll, readChunk]
    dsimp only [Option.bind_eq_bind, Option.bind_some]
    cases readAll s polls <;> rfl
  | cons b rest ih =>
    obtain ⟨hends, hrest⟩ := endsLast_cons.mp h
    obtain ⟨s', hkey, hs'⟩ := hs.key (keyOf b)
    have hreturns := m.key_returns b
    cases hline : (m.key (keyOf b)).2 with
    | none =>
      rw [hline] at hkey
      have hmore : readAll s (.bytes (b :: rest) :: polls) = readAll s' (.bytes rest :: polls) := by
        rw [readAll, readAll, readChunk, hkey]
        rfl
      have hone : readAll s (typed (b :: rest) ++ polls) = readAll s' (typed rest ++ polls) := by
        rw [typed, List.map_cons, List.cons_append, readAll, readChunk, hkey]
        dsimp only [Option.bind_eq_bind, Option.bind_some, readChunk]
        rw [← typed]
        cases readAll s' (typed rest ++ polls) <;> rfl
      rw [hmore, hone, ih hs' hrest]
    | some line =>
      have hlast : rest = [] := by
        apply hends
        by_contra hends
        cases (hreturns.mpr hends).symm.trans hline
      subst hlast
      rfl

theorem readAll_oneByOne (hs : Simulates s m) {polls : List Poll}
    (h : ∀ chunk, .bytes chunk ∈ polls → EndsLast chunk) :
    readAll s (oneByOne polls) = readAll s polls := by
  induction polls generalizing s m with
  | nil => rfl
  | cons poll polls ih =>
    have hrest : ∀ chunk, .bytes chunk ∈ polls → EndsLast chunk :=
      fun chunk hmem => h chunk (List.mem_cons_of_mem _ hmem)
    cases poll with
    | interrupted =>
      change readAll s (.interrupted :: oneByOne polls) = _
      rw [readAll, readAll, ih hs.interrupted hrest]
    | bytes chunk =>
      change readAll s (typed chunk ++ oneByOne polls) = _
      rw [← readAll_chunk hs (h chunk List.mem_cons_self)]
      obtain ⟨out, m', hchunk, hout, -⟩ := hs.readChunk chunk
      rw [readAll, readAll, hchunk]
      dsimp only [Option.bind_eq_bind, Option.bind_some]
      rw [ih hout hrest]

/-- The lines are those of the input one byte at a time, and every byte is seen. -/
def CutsDoNotMatter (polls : List Poll) : Prop :=
  ∃ s s' lines, readAll boot polls = some (s, lines, []) ∧
    readAll boot (oneByOne polls) = some (s', lines, [])

/-- How the input is cut does not matter just if no read goes on after the end of a line. -/
theorem cuts_do_not_matter_iff (polls : List Poll) :
    CutsDoNotMatter polls ↔ ∀ chunk, .bytes chunk ∈ polls → EndsLast chunk := by
  obtain ⟨s, lines, lost, hread, hlost⟩ := simulates_boot.readAll polls
  constructor
  · rintro ⟨s', -, lines', hread', -⟩
    cases hread.symm.trans hread'
    exact hlost.mp rfl
  · intro h
    obtain rfl := hlost.mpr h
    exact ⟨s, s, lines, hread, (readAll_oneByOne simulates_boot h).trans hread⟩

/-- Two short lines that come in one read. -/
theorem second_line_is_lost :
    (readAll boot [.bytes [0x61, 0x0A, 0x62, 0x0A]]).map (·.2) =
        some ([[0x61]], [0x62, 0x0A]) ∧
      (readAll boot (oneByOne [.bytes [0x61, 0x0A, 0x62, 0x0A]])).map (·.2) =
        some ([[0x61], [0x62]], []) := by
  decide +kernel

end KazuOS.Shell
