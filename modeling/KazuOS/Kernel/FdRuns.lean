import KazuOS.Kernel.FdCalls

/-! Whole runs of calls on descriptors, each of them atomic. The counts of a pipe are the
numbers of its descriptors in every state that can be reached. -/
namespace KazuOS.FileKernel

open KazuOS.Kernel KazuOS.Lib

variable {s : FileKernel}

variable {cpu : Nat} {t : FileKernel}

theorem composed_install {entry : FdEntry} (hcaller : s.callerPid cpu < s.tasks.nextPid)
    (hentry : entry.pipeEnd = none) : Composed s.toKernel (s.install cpu entry).2.toKernel := by
  have halloc := composed_allocFd hcaller (alive_of_pipeEnd entry hentry)
  unfold install
  split
  · rename_i fd k heq
    rwa [heq] at halloc
  · rename_i k heq
    rwa [heq] at halloc

theorem composed_sysOpen (hcaller : s.callerPid cpu < s.tasks.nextPid) (ptr : Nat)
    (bytes : List UInt8) : Composed s.toKernel (s.sysOpen cpu ptr bytes).2.toKernel := by
  unfold sysOpen
  split
  · exact .refl _
  · split
    · exact composed_install hcaller rfl
    · exact composed_install hcaller rfl
    · exact .refl _
    · exact .refl _

theorem composed_sysCreate (hcaller : s.callerPid cpu < s.tasks.nextPid) (ptr : Nat)
    (bytes : List UInt8) : Composed s.toKernel (s.sysCreate cpu ptr bytes).2.toKernel := by
  have hinstall : ∀ (nodes : Fs.Table) (h : Fs.Handle),
      Composed s.toKernel ({ s with nodes }.install cpu (fileEntry h 0)).2.toKernel :=
    fun nodes h => composed_install (s := { s with nodes }) hcaller rfl
  unfold sysCreate
  split
  · exact .refl _
  · split
    · exact hinstall _ _
    · split
      · exact hinstall _ _
      · exact .refl _
    · exact .refl _

theorem composed_writeFile {pid fd node generation offset : Nat}
    (hfd : s.getFd pid fd = some (.file node generation offset)) (data : List UInt8) :
    Composed s.toKernel (s.writeFile pid fd node generation offset data).2.toKernel := by
  unfold writeFile
  split
  · exact .refl _
  · exact composed_setFd hfd _

theorem composed_sysWrite (s : FileKernel) (cpu fd bufPtr : Nat) (data : List UInt8) :
    Composed s.toKernel (s.sysWrite cpu fd bufPtr data).2.toKernel := by
  unfold sysWrite
  split
  · exact .refl _
  · split
    · exact .refl _
    · split
      · exact .refl _
      · exact composed_writePipeEnd _ _ _
      · rename_i hfd
        exact composed_writeFile hfd data
      · exact composed_writeDevice _ _ _
      · exact .refl _

/-- Every call is made of sound sections. -/
theorem composed_call (h : s.Sane) (hcaller : s.callerPid cpu < s.tasks.nextPid)
    (c : FdCall) : Composed s.toKernel (s.call cpu c).2.toKernel := by
  cases c with
  | pipe outPtr => exact composed_sysPipe hcaller outPtr
  | close fd => exact composed_sysClose _ cpu fd
  | openFile ptr bytes => exact composed_sysOpen hcaller ptr bytes
  | create ptr bytes => exact composed_sysCreate hcaller ptr bytes
  | read fd bufPtr bufLen => exact composed_sysRead _ cpu fd bufPtr bufLen _
  | write fd bufPtr data => exact composed_sysWrite s cpu fd bufPtr data
  | exec ptr len loaded stdioPack => exact composed_sysExec h cpu ptr len loaded stdioPack
  | exit => exact composed_exitCurrent _ cpu

/-- A call by the process that runs on a CPU, or anything else that leaves descriptors and
pipes alone. -/
inductive FdEvent where
  | call (cpu : Nat) (c : FdCall)
  | other (s : FileKernel)

/-- Nothing comes after a panic. Processes that run have been made, and pids are not reused. -/
def step (s : FileKernel) : FdEvent → Option FileKernel
  | .call cpu c =>
      if s.callerPid cpu < s.tasks.nextPid then
        match s.call cpu c with
        | (some _, t) => some t
        | (none, _) => none
      else none
  | .other t =>
      if s.tasks.nextPid ≤ t.tasks.nextPid then
        some { t with pipes := s.pipes, tables := s.tables }
      else none

theorem step_composed (h : s.Sane) {e : FdEvent} (hstep : s.step e = some t) :
    Composed s.toKernel t.toKernel := by
  cases e with
  | call cpu c =>
    simp only [step] at hstep
    split at hstep
    · rename_i hcaller
      have hcall := composed_call h hcaller c
      split at hstep
      · rename_i result u heq
        cases hstep
        rwa [heq] at hcall
      · cases hstep
    · cases hstep
  | other u =>
    simp only [step] at hstep
    split at hstep
    · rename_i hpid
      cases hstep
      exact .other rfl rfl hpid
    · cases hstep

/-- No pipe has been made yet. -/
structure Booted (s : FileKernel) : Prop where
  pipes : s.pipes = []
  descriptors : ∀ entry ∈ s.descriptors, entry.pipeEnd = none
  unused : ∀ pid, s.tasks.nextPid ≤ pid → entriesOf (s.table pid) = []

theorem Booted.sane (h : s.Booted) : s.Sane := by
  refine ⟨?_, h.unused⟩
  intro e
  have hends : ends s.descriptors = [] := List.filterMap_eq_nil_iff.mpr h.descriptors
  have hpipe : s.pipe e.id = none := by
    rw [Kernel.pipe, h.pipes]
    rfl
  rw [hends, refs, hpipe, endRefs_none]
  rfl

theorem sane_of_run {es : List FdEvent} (hboot : s.Booted)
    (run : Run (fun s e t => step s e = some t) s es t) : t.Sane := by
  refine run.preserves (I := fun s => s.Sane) ?_ hboot.sane
  intro s e t h hstep
  exact (step_composed h hstep).sane h

theorem count_ends (entries : List FdEntry) (id : Nat) :
    (ends entries).count (.write id) = entries.count (.pipeWrite id) ∧
      (ends entries).count (.read id) = entries.count (.pipeRead id) := by
  induction entries with
  | nil => exact ⟨rfl, rfl⟩
  | cons entry entries ih =>
    cases entry with
    | pipeWrite j | pipeRead j => simpa [ends, FdEntry.pipeEnd, List.count_cons] using ih
    | _ => simpa [ends, List.filterMap_cons, FdEntry.pipeEnd, List.count_cons] using ih

/-- However the calls of all processes follow one another, the counts of a pipe are the
numbers of its descriptors, and every descriptor of a pipe names one that exists. So the next
pipe never gets an id that a descriptor still names. -/
theorem pipe_counts_its_descriptors {t : FileKernel} {es : List FdEvent} (hboot : s.Booted)
    (run : Run (fun s e t => step s e = some t) s es t) :
    (∀ id p, t.pipe id = some p →
      p.writeRefs = t.descriptors.count (.pipeWrite id) ∧
        p.readRefs = t.descriptors.count (.pipeRead id)) ∧
      (∀ id, .pipeWrite id ∈ t.descriptors ∨ .pipeRead id ∈ t.descriptors →
        (t.pipe id).isSome = true) ∧
      .pipeWrite t.createPipe.1 ∉ t.descriptors ∧ .pipeRead t.createPipe.1 ∉ t.descriptors := by
  have h := (sane_of_run hboot run).refs
  have hlive : ∀ id, .pipeWrite id ∈ t.descriptors ∨ .pipeRead id ∈ t.descriptors →
      (t.pipe id).isSome = true := by
    rintro id (hmem | hmem)
    · exact h.alive hmem (.write id) rfl
    · exact h.alive hmem (.read id) rfl
  have hfree : (t.pipe t.createPipe.1).isSome = false := by
    rw [createPipe_free]
    rfl
  refine ⟨?_, hlive, ?_, ?_⟩
  · intro id p hp
    have hwrite := h (.write id)
    have hread := h (.read id)
    rw [(count_ends t.descriptors id).1] at hwrite
    rw [(count_ends t.descriptors id).2] at hread
    simp only [refs, endRefs, PipeEnd.id, hp] at hwrite hread
    exact ⟨hwrite, hread⟩
  · intro hmem
    rw [hlive _ (.inl hmem)] at hfree
    cases hfree
  · intro hmem
    rw [hlive _ (.inr hmem)] at hfree
    cases hfree

/-- One process with a console, and no pipes. -/
def smallBoot : FileKernel := { twoThreads with nodes := Fs.rootOnly, devices := [] }

theorem smallBoot_booted : smallBoot.Booted := by
  refine ⟨rfl, by decide, ?_⟩
  intro pid hpid
  have hnone : smallBoot.tables[pid]? = none := List.getElem?_eq_none hpid
  rw [Kernel.table, hnone]
  rfl

def program (stack : Nat) : Loaded :=
  ⟨twoThreads.vm, twoThreads.pmm, [], 0, some stack, 0, 0, 0, 0, 0⟩

/-- The process makes a pipe, starts a child with its read end as standard input and closes
that end itself. -/
def pipeToChild : List FdEvent :=
  [.call 0 (.pipe 0), .call 0 (.exec userMin 1 (some (program 135168)) 0xFFFF0001),
    .call 0 (.close 1)]

theorem pipe_counts_its_descriptors_pipeToChild :
    ∃ t, pipeToChild.foldlM step smallBoot = some t ∧ t.pipe 0 = some ⟨[], 1, 1⟩ ∧
      1 = t.descriptors.count (.pipeWrite 0) ∧ 1 = t.descriptors.count (.pipeRead 0) := by
  have hrun : (pipeToChild.foldlM step smallBoot).isSome = true := by decide +kernel
  have hpipe : (pipeToChild.foldlM step smallBoot).bind (·.pipe 0) = some ⟨[], 1, 1⟩ := by
    decide +kernel
  obtain ⟨t, ht⟩ := Option.isSome_iff_exists.mp hrun
  rw [ht] at hpipe
  exact ⟨t, ht, hpipe, (pipe_counts_its_descriptors smallBoot_booted (Run.of_foldlM ht)).1 0 _ hpipe⟩

end KazuOS.FileKernel
