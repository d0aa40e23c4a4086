import KazuOS.Kernel.PipeStream

/-! The non-blocking read. Unlike the blocking one it looks at the pipe in sections of their
own, and writers may come between them. -/
namespace KazuOS.Kernel

open KazuOS.Task KazuOS.Lib

/-- A call whose sections find the kernel as `k₁`, `k₂` and `k₃`: the first looks up the
descriptor, the second whether there is data, and the third reads it or looks for writers. -/
def sysTryRead (k₁ k₂ k₃ : Kernel) (cpu fd bufPtr bufLen : Nat) : Nat × Kernel :=
  if bufPtr = 0 ∨ bufLen = 0 then (0, k₃)
  else if !k₁.validateRange cpu bufPtr bufLen true then (failure, k₃)
  else
    match k₁.getFd (k₁.callerPid cpu) fd with
    | some .consoleIn =>
        if k₂.kbdLockedOut cpu then (0, k₃) else
          match k₃.getRaw with
          | (some _, k) => (1, k)
          | (none, k) => (0, k)
    | some (.pipeRead id) =>
        if k₂.pipeIsEmpty id then (if k₃.writerClosed id then failure else 0, k₃)
        else
          let (bytes, k) := k₃.readPipe id bufLen
          (bytes.length, k)
    | _ => (failure, k₃)

variable {k t : Kernel} {id pid fd : Nat} {es : List PipeSection}

/-- A sound section that does not end the pipe. -/
def HistoryStep (id : Nat) (k : Kernel) (e : PipeSection) (k' : Kernel) : Prop :=
  e.Sound k ∧ LiveStep id k e k'

/-- A sound section of another process. -/
def OthersStep (pid : Nat) (k : Kernel) (e : PipeSection) (k' : Kernel) : Prop :=
  SoundStep k e k' ∧ e.table ≠ some pid

theorem refsMatch_history (run : Run (HistoryStep id) k es t) (h : k.RefsMatch) : t.RefsMatch := by
  refine run.preserves ?_ h
  rintro k e k' h ⟨hsound, rfl, -⟩
  exact refsMatch_section e h hsound

/-- Other processes cannot take a pipe away from a process that holds a descriptor of it. -/
theorem live_of_others (run : Run (OthersStep pid) k es t) (h : k.RefsMatch)
    (hfd : k.getFd pid fd = some (.pipeRead id)) :
    Run (LiveStep id) k es t ∧ t.RefsMatch ∧ t.getFd pid fd = some (.pipeRead id) := by
  induction run with
  | nil k => exact ⟨.nil k, h, hfd⟩
  | @cons k k' t e es head _ ih =>
    obtain ⟨⟨hsound, rfl⟩, htable⟩ := head
    have hrefs := refsMatch_section e h hsound
    have hfd' : (e.apply k).getFd pid fd = some (.pipeRead id) := by
      rw [getFd, table_section e htable]
      exact hfd
    have hlive : ((e.apply k).pipe id).isSome = true :=
      hrefs.alive (mem_descriptors hfd') (.read id) rfl
    obtain ⟨hrest, hend⟩ := ih hrefs hfd'
    exact ⟨.cons ⟨rfl, hlive⟩ hrest, hend⟩

theorem sysTryRead_max {k₁ k₂ k₃ : Kernel} {cpu bufPtr bufLen : Nat}
    (hbuf : bufPtr ≠ 0 ∧ bufLen ≠ 0 ∧ k₁.validateRange cpu bufPtr bufLen true = true)
    (hfd : k₁.getFd (k₁.callerPid cpu) fd = some (.pipeRead id))
    (hmax : (sysTryRead k₁ k₂ k₃ cpu fd bufPtr bufLen).1 = failure) :
    k₂.pipeIsEmpty id = true ∧ k₃.writerClosed id = true := by
  obtain ⟨hptr, hlen, hvalid⟩ := hbuf
  unfold sysTryRead at hmax
  rw [if_neg (not_or.mpr ⟨hptr, hlen⟩), hvalid, hfd] at hmax
  simp only [Bool.not_true, Bool.false_eq_true, if_false] at hmax
  split at hmax
  · rename_i hempty
    dsimp only at hmax
    split at hmax
    · rename_i hclosed
      exact ⟨hempty, hclosed⟩
    · cases hmax
  · dsimp only at hmax
    have hcount : (k₃.readPipe id bufLen).1.length ≤ bufLen := length_drain_le k₃.pipes id bufLen
    have hsmall := hcount.trans (le_maxTransfer hvalid)
    rw [hmax] at hsmall
    exact absurd hsmall (by decide)

/-- The answer of the non-blocking read that a pipe is at its end, which is meant to say
that all bytes ever written have been delivered and that nobody can write any more, is right
exactly if every byte accepted between its two looks at the pipe was delivered between them
as well. -/
theorem tryRead_end_of_file_iff {k k₀ k₁ k₂ k₃ : Kernel} {id cpu fd bufPtr bufLen : Nat}
    {es₀ es₁ es₂ : List PipeSection} (hrefs : k.RefsMatch) (hcreate : k.createPipe = (id, k₀))
    (hbefore : Run (HistoryStep id) k₀ es₀ k₁)
    (hfirst : Run (OthersStep (k₁.callerPid cpu)) k₁ es₁ k₂)
    (hgap : Run (OthersStep (k₁.callerPid cpu)) k₂ es₂ k₃)
    (hbuf : bufPtr ≠ 0 ∧ bufLen ≠ 0 ∧ k₁.validateRange cpu bufPtr bufLen true = true)
    (hfd : k₁.getFd (k₁.callerPid cpu) fd = some (.pipeRead id))
    (hmax : (sysTryRead k₁ k₂ k₃ cpu fd bufPtr bufLen).1 = failure) :
    (accepted id k₀ (es₀ ++ es₁ ++ es₂) = delivered id k₀ (es₀ ++ es₁ ++ es₂) ∧
        k₃.refs (.write id) = 0) ↔
      accepted id k₂ es₂ = delivered id k₂ es₂ := by
  have hrefs₀ : k₀.RefsMatch := by
    have h := refsMatch_section .create hrefs trivial
    rwa [PipeSection.apply, hcreate] at h
  have hlive₀ : Run (LiveStep id) k₀ es₀ k₁ := hbefore.mono fun _ _ _ h => h.2
  obtain ⟨hlive₁, hrefs₂, hfd₂⟩ :=
    live_of_others hfirst (refsMatch_history hbefore hrefs₀) hfd
  obtain ⟨hlive₂, -, -⟩ := live_of_others hgap hrefs₂ hfd₂
  obtain ⟨hempty, hclosed⟩ := sysTryRead_max hbuf hfd hmax
  -- From creation to the third section, and from the second section, where the pipe is empty.
  have hnew := k.pipe_createPipe id
  rw [hcreate, if_pos rfl] at hnew
  obtain ⟨q, hq, hall⟩ := flow_sections ((hlive₀.append hlive₁).append hlive₂) hnew
  obtain ⟨p, hp⟩ : ∃ p, k₂.pipe id = some p :=
    Option.isSome_iff_exists.mp (hrefs₂.alive (mem_descriptors hfd₂) (.read id) rfl)
  obtain ⟨q', hq', hlast⟩ := flow_sections hlive₂ hp
  cases hq.symm.trans hq'
  have hdata : p.data = [] := by simpa [pipeIsEmpty, hp] using hempty
  have hwriters : k₃.refs (.write id) = 0 := by
    simpa [refs, endRefs, PipeEnd.id, hq, writerClosed] using hclosed
  rw [hdata] at hlast
  rw [← hall.eq_nil_iff, ← hlast.eq_nil_iff]
  simp [hwriters]

theorem threeProcesses_refsMatch : threeProcesses.RefsMatch := by
  intro e
  exact endRefs_none e

/-- The pipe of three processes, shared out. -/
def sharedPipe : Kernel := sharePipe.foldl PipeSection.apply threeProcesses.createPipe.2

theorem alive_of_live {entry : FdEntry} {e : PipeEnd} (he : entry.pipeEnd = some e)
    (h : (k.pipe e.id).isSome = true) : k.Alive entry := by
  intro e' he'
  cases he.symm.trans he'
  exact h

theorem sharedPipe_history : Run (HistoryStep 0) threeProcesses.createPipe.2 sharePipe sharedPipe :=
  .cons ⟨⟨by decide, alive_of_live rfl (by decide)⟩, rfl, by decide⟩
    (.cons ⟨⟨by decide, alive_of_live rfl (by decide)⟩, rfl, by decide⟩
      (.cons ⟨⟨by decide, alive_of_live rfl (by decide)⟩, rfl, by decide⟩ (.nil _)))

/-- The writer closes its end between the looks and the answer is right. -/
theorem tryRead_end_of_file_iff_sharedPipe :
    let closed := PipeSection.apply sharedPipe (.freeFd 1 0)
    (sysTryRead sharedPipe sharedPipe closed 1 0 userMin 1).1 = failure ∧
      accepted 0 threeProcesses.createPipe.2 (sharePipe ++ [] ++ [.freeFd 1 0]) =
        delivered 0 threeProcesses.createPipe.2 (sharePipe ++ [] ++ [.freeFd 1 0]) := by
  intro closed
  have hmax : (sysTryRead sharedPipe sharedPipe closed 1 0 userMin 1).1 = failure := by
    decide +kernel
  have hgap : Run (OthersStep 2) sharedPipe [.freeFd 1 0] closed :=
    .cons ⟨⟨trivial, rfl⟩, by decide⟩ (.nil _)
  have hcreate : threeProcesses.createPipe = (0, threeProcesses.createPipe.2) := rfl
  have hiff := tryRead_end_of_file_iff threeProcesses_refsMatch hcreate sharedPipe_history (.nil _)
    hgap ⟨by decide, by decide, by decide⟩ (by decide) hmax
  exact ⟨hmax, (hiff.mpr (by decide +kernel)).1⟩

/-- A writer that writes and then closes its end between the looks: the answer is that the
pipe is at its end, and its byte is still there. -/
theorem tryRead_end_of_file_with_data :
    let gap : List PipeSection := [.write 0 [7], .notify 0, .freeFd 1 0]
    let closed := gap.foldl PipeSection.apply sharedPipe
    Run (OthersStep 2) sharedPipe gap closed ∧
      (sysTryRead sharedPipe sharedPipe closed 1 0 userMin 1).1 = failure ∧
      accepted 0 threeProcesses.createPipe.2 (sharePipe ++ gap) = [7] ∧
      delivered 0 threeProcesses.createPipe.2 (sharePipe ++ gap) = [] ∧
      closed.pipe 0 = some ⟨[7], 0, 2⟩ := by
  intro gap closed
  refine ⟨?_, by decide +kernel, by decide +kernel, by decide +kernel, by decide +kernel⟩
  exact .cons ⟨⟨trivial, rfl⟩, by decide⟩ (.cons ⟨⟨trivial, rfl⟩, by decide⟩
    (.cons ⟨⟨trivial, rfl⟩, by decide⟩ (.nil _)))

end KazuOS.Kernel
