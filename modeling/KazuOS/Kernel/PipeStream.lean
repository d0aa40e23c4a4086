import KazuOS.Kernel.PipeRefs

/-! The bytes that go through one pipe. They leave it by a reader's own call or by a waker
that copies them into a sleeping reader's buffer, in whatever order the sections come. -/
namespace KazuOS.Kernel

open KazuOS.Memory KazuOS.Task KazuOS.Lib

variable {k : Kernel} {id : Nat}

/-! Where a section wakes readers. -/

/-- The kernel when closing a descriptor wakes the readers of a pipe. -/
def closeNotifies (id : Nat) (k : Kernel) (entry : FdEntry) : List Kernel :=
  if entry = .pipeWrite id then [k.closeWrite id] else []

def closingNotifies (id : Nat) : Kernel → List FdEntry → List Kernel
  | _, [] => []
  | k, entry :: entries =>
      closeNotifies id k entry ++ closingNotifies id (k.closeEntry entry) entries

/-- The kernel each time a section wakes the readers of a pipe. -/
def notifies (id : Nat) (k : Kernel) : PipeSection → List Kernel
  | .notify j => if j = id then [k] else []
  | .freeFd pid fd =>
      match k.getFd pid fd with
      | some entry => closeNotifies id k entry
      | none => []
  | .closeAll pid => closingNotifies id k (entriesOf (k.table pid))
  | _ => []

/-- What the sleeping readers of a pipe are given, one after the other. -/
def served (id : Nat) (k : Kernel) : List UInt8 := (k.deliveries id).flatMap Delivery.bytes

/-- The bytes a section puts into a pipe. -/
def acceptedBy (id : Nat) (k : Kernel) : PipeSection → List UInt8
  | .write j data => if j = id then data.take (k.writePipe j data).1 else []
  | _ => []

/-- The bytes a section hands to readers of a pipe. -/
def deliveredBy (id : Nat) (k : Kernel) : PipeSection → List UInt8
  | .read j maxLen => if j = id then (k.readPipe j maxLen).1 else []
  | .readEnd _ j _ bufLen => if j = id ∧ !k.pipeIsEmpty j then (k.readPipe j bufLen).1 else []
  | e => (notifies id k e).flatMap (served id)

/-- Both, over a sequence of sections. -/
def accepted (id : Nat) : Kernel → List PipeSection → List UInt8
  | _, [] => []
  | k, e :: es => acceptedBy id k e ++ accepted id (e.apply k) es

def delivered (id : Nat) : Kernel → List PipeSection → List UInt8
  | _, [] => []
  | k, e :: es => deliveredBy id k e ++ delivered id (e.apply k) es

/-! One section. -/

variable {q : PipeState} {entry : FdEntry} {p : PipeState} {j : Nat}

/-- Sleeping readers share what the pipe holds. -/
theorem deliveriesFrom_shares (vm : Vmm) (threads : Threads) {pipes : List (Option PipeState)}
    (hp : pipes[id]?.join = some p) :
    (deliveriesFrom vm id threads pipes).map (fun d => (d.bufLen, d.bytes)) =
      (threads.filterMap (readerOf vm id)).zip
        (shares (threads.filterMap (readerOf vm id)) p.data) := by
  induction threads generalizing pipes p with
  | nil => rfl
  | cons t threads ih =>
    unfold deliveriesFrom
    cases hreader : readerOf vm id t with
    | none =>
      rw [List.filterMap_cons_none hreader]
      exact ih hp
    | some bufLen =>
      have hrest : (drain pipes id bufLen).2[id]?.join = some (dropData bufLen p) := by
        rw [pipes_drain, if_pos rfl, hp]
        rfl
      have hbytes : (drain pipes id bufLen).1 = p.data.take bufLen := by
        rw [drain, hp]
      rw [List.filterMap_cons_some hreader, shares, List.zip_cons_cons]
      dsimp only
      rw [List.map_cons, ih hrest, hbytes]
      rfl

theorem served_eq (hp : k.pipe id = some p) :
    served id k = p.data.take (k.readerLengths id).sum := by
  have hpairs := congrArg (List.map Prod.snd) (deliveriesFrom_shares k.vm k.tasks.threads hp)
  rw [List.map_map, List.map_snd_zip (length_shares _ _).le] at hpairs
  have hbytes : (k.deliveries id).map Delivery.bytes = shares (k.readerLengths id) p.data := hpairs
  rw [served, List.flatMap_def, hbytes, flatten_shares]

theorem flow_notify {p q : PipeState} (hp : k.pipe id = some p)
    (hq : (k.notifyPipeReaders id).pipe id = some q) : Flow p.data [] (served id k) q.data := by
  rw [pipe_notifyPipeReaders, if_pos rfl, hp] at hq
  cases hq
  rw [served_eq hp]
  exact Flow.leave p.data _

theorem readPipe_bytes (hp : k.pipe id = some p) (maxLen : Nat) :
    (k.readPipe id maxLen).1 = p.data.take maxLen := by
  rw [Kernel.pipe] at hp
  rw [readPipe, drain, hp]

theorem flow_read {p q : PipeState} {maxLen : Nat} (hp : k.pipe id = some p)
    (hq : (k.readPipe id maxLen).2.pipe id = some q) :
    Flow p.data [] (k.readPipe id maxLen).1 q.data := by
  rw [pipe_readPipe, if_pos rfl, hp] at hq
  cases hq
  rw [readPipe_bytes hp]
  exact Flow.leave p.data maxLen

theorem flow_write {p q : PipeState} {data : List UInt8} (hp : k.pipe id = some p)
    (hq : (k.writePipe id data).2.pipe id = some q) :
    Flow p.data (data.take (k.writePipe id data).1) [] q.data := by
  rw [pipe_writePipe, if_pos rfl, hp] at hq
  cases hq
  exact Flow.arrive p.data _

/-- A pipe that a section left as it was. -/
theorem flow_same {p q : PipeState} (hp : k.pipe id = some p) (hq : k.pipe id = some q) :
    Flow p.data [] [] q.data := by
  cases hp.symm.trans hq
  exact Flow.refl p.data

/-- A pipe that is there after an update of its counts held the same bytes before. -/
theorem data_updatePipe {f : PipeState → Option PipeState}
    (hq : (k.updatePipe j f).pipe id = some q) (hf : ∀ p q, f p = some q → q.data = p.data) :
    ∃ p, k.pipe id = some p ∧ q.data = p.data := by
  rw [pipe_updatePipe] at hq
  split at hq
  · rename_i hj
    rw [hj]
    obtain ⟨p, hp, hfp⟩ := Option.bind_eq_some_iff.mp hq
    exact ⟨p, hp, hf p q hfp⟩
  · exact ⟨q, hq, rfl⟩

theorem data_dropUnreferenced {p q : PipeState} (h : dropUnreferenced p = some q) :
    q.data = p.data := by
  unfold dropUnreferenced at h
  split at h
  · cases h
  · cases h
    rfl

theorem data_closeWrite (hq : (k.closeWrite j).pipe id = some q) :
    ∃ p, k.pipe id = some p ∧ q.data = p.data := by
  apply data_updatePipe hq
  intro p q h
  have hdata := data_dropUnreferenced h
  exact hdata

theorem data_closeRead (hq : (k.closeRead j).pipe id = some q) :
    ∃ p, k.pipe id = some p ∧ q.data = p.data := by
  apply data_updatePipe hq
  intro p q h
  have hdata := data_dropUnreferenced h
  exact hdata

theorem data_pipeClone
    (hq : (k.pipeClone entry).pipe id = some q) : ∃ p, k.pipe id = some p ∧ q.data = p.data := by
  cases entry with
  | pipeWrite j | pipeRead j =>
    apply data_updatePipe hq
    rintro p q ⟨⟩
    rfl
  | _ => exact ⟨q, hq, rfl⟩

/-- Closing descriptors makes no pipe, and loses no byte of one that stays. -/
theorem flow_closeEntry (hq : (k.closeEntry entry).pipe id = some q) :
    ∃ p, k.pipe id = some p ∧
      Flow p.data [] ((closeNotifies id k entry).flatMap (served id)) q.data := by
  cases entry with
  | pipeWrite j =>
    by_cases hj : j = id
    · subst hj
      have hclosed : ∃ c, (k.closeWrite j).pipe j = some c := by
        rw [closeEntry, pipe_notifyPipeReaders, if_pos rfl] at hq
        obtain ⟨c, hc, -⟩ := Option.map_eq_some_iff.mp hq
        exact ⟨c, hc⟩
      obtain ⟨c, hc⟩ := hclosed
      obtain ⟨p, hp, hdata⟩ := data_closeWrite hc
      have hflow := flow_notify hc hq
      refine ⟨p, hp, ?_⟩
      rw [closeNotifies, if_pos rfl, List.flatMap_singleton, ← hdata]
      exact hflow
    · have hne : FdEntry.pipeWrite j ≠ .pipeWrite id := fun h => hj (FdEntry.pipeWrite.inj h)
      rw [closeEntry, pipe_notifyPipeReaders, if_neg (Ne.symm hj)] at hq
      obtain ⟨p, hp, hdata⟩ := data_closeWrite hq
      refine ⟨p, hp, ?_⟩
      rw [closeNotifies, if_neg hne, hdata]
      exact Flow.refl p.data
  | pipeRead j =>
    obtain ⟨p, hp, hdata⟩ := data_closeRead hq
    exact ⟨p, hp, hdata ▸ Flow.refl q.data⟩
  | _ => exact ⟨q, hq, Flow.refl q.data⟩

theorem flow_closeEntries (entries : List FdEntry) {k : Kernel}
    (hq : (entries.foldl closeEntry k).pipe id = some q) :
    ∃ p, k.pipe id = some p ∧
      Flow p.data [] ((closingNotifies id k entries).flatMap (served id)) q.data := by
  induction entries generalizing k with
  | nil => exact ⟨q, hq, Flow.refl q.data⟩
  | cons entry entries ih =>
    obtain ⟨c, hc, hrest⟩ := ih hq
    obtain ⟨p, hp, hfirst⟩ := flow_closeEntry hc
    refine ⟨p, hp, ?_⟩
    rw [closingNotifies, List.flatMap_append]
    exact hfirst.trans hrest

variable {es : List PipeSection} {pid fd : Nat}

theorem flow_freeFd (hq : (k.freeFd pid fd).2.pipe id = some q) :
    ∃ p, k.pipe id = some p ∧
      Flow p.data [] ((notifies id k (.freeFd pid fd)).flatMap (served id)) q.data := by
  unfold freeFd at hq
  simp only [notifies, getFd]
  cases htable : k.table pid with
  | none =>
    simp only [htable] at hq
    exact ⟨q, hq, Flow.refl q.data⟩
  | some entries =>
    simp only [htable] at hq
    rw [Option.bind_some]
    cases hentry : entries[fd]? with
    | none =>
      simp only [hentry] at hq
      exact ⟨q, hq, Flow.refl q.data⟩
    | some entry =>
      simp only [hentry] at hq
      exact flow_closeEntry hq

theorem flow_closeAll {pid : Nat} (hq : (k.closeAll pid).pipe id = some q) :
    ∃ p, k.pipe id = some p ∧
      Flow p.data [] ((notifies id k (.closeAll pid)).flatMap (served id)) q.data := by
  rw [notifies]
  unfold closeAll at hq
  split at hq
  · rename_i entries htable
    rw [htable]
    exact flow_closeEntries entries hq
  · rename_i htable
    rw [htable]
    exact ⟨q, hq, Flow.refl q.data⟩

theorem flow_of_data (h : ∃ p, k.pipe id = some p ∧ q.data = p.data) :
    ∃ p, k.pipe id = some p ∧ Flow p.data [] [] q.data := by
  obtain ⟨p, hp, hdata⟩ := h
  refine ⟨p, hp, ?_⟩
  rw [hdata]
  exact Flow.refl p.data

theorem data_of_install {k' : Kernel}
    (h : (∀ j, k'.pipe j = k.pipe j) ∨ ∀ j, k'.pipe j = (k.pipeClone entry).pipe j)
    (hq : k'.pipe id = some q) : ∃ p, k.pipe id = some p ∧ q.data = p.data := by
  obtain hsame | hcloned := h
  · rw [hsame] at hq
    exact ⟨q, hq, rfl⟩
  · rw [hcloned] at hq
    exact data_pipeClone hq

theorem flow_setFd {p q : PipeState} (hp : k.pipe id = some p)
    (hq : (k.setFd pid fd entry).2.pipe id = some q) : Flow p.data [] [] q.data := by
  obtain ⟨tables, heq⟩ := k.setFd_eq pid fd entry
  rw [heq] at hq
  exact flow_same hp hq

theorem flow_readEnd {cpu bufPtr bufLen : Nat} {p q : PipeState} (hp : k.pipe id = some p)
    (hq : (k.readPipeEnd cpu id bufPtr bufLen).2.pipe id = some q) :
    Flow p.data [] (if !k.pipeIsEmpty id then (k.readPipe id bufLen).1 else []) q.data := by
  obtain ⟨tasks, heq⟩ := k.readPipeEnd_eq cpu id bufPtr bufLen
  rw [heq] at hq
  split at hq
  · rename_i hempty
    rw [if_pos hempty]
    exact flow_read hp hq
  · rename_i hempty
    rw [if_neg hempty]
    exact flow_same hp hq

theorem readPipeEnd_pipe (k : Kernel) (cpu bufPtr bufLen : Nat) {j i : Nat} (hi : i ≠ j) :
    (k.readPipeEnd cpu j bufPtr bufLen).2.pipe i = k.pipe i := by
  obtain ⟨tasks, heq⟩ := k.readPipeEnd_eq cpu j bufPtr bufLen
  rw [heq]
  split
  · exact (k.pipe_readPipe j bufLen i).trans (if_neg hi)
  · rfl

/-- No section loses, doubles or reorders a byte of a pipe that is there before and after. -/
theorem flow_section (e : PipeSection) {p q : PipeState} (hp : k.pipe id = some p)
    (hq : (e.apply k).pipe id = some q) :
    Flow p.data (acceptedBy id k e) (deliveredBy id k e) q.data := by
  have hsome : ∀ {left}, (∃ p, k.pipe id = some p ∧ Flow p.data [] left q.data) →
      Flow p.data [] left q.data := by
    rintro left ⟨p', hp', hflow⟩
    cases hp.symm.trans hp'
    exact hflow
  cases e with
  | create =>
    have hne : id ≠ k.createPipe.1 := by
      rintro rfl
      rw [createPipe_free] at hp
      cases hp
    exact flow_same hp ((k.pipe_createPipe id).trans (if_neg hne) ▸ hq)
  | allocFd pid entry =>
    exact hsome (flow_of_data (data_of_install (k.installs_allocFd pid entry).pipe hq))
  | allocFdAt pid fd entry =>
    exact hsome (flow_of_data (data_of_install (k.installs_allocFdAt pid fd entry).pipe hq))
  | setFd pid fd entry => exact flow_setFd hp hq
  | freeFd pid fd => exact hsome (flow_freeFd hq)
  | closeAll pid => exact hsome (flow_closeAll hq)
  | write j data =>
    simp only [acceptedBy, deliveredBy]
    by_cases hj : j = id
    · subst hj
      rw [if_pos rfl]
      exact flow_write hp hq
    · rw [if_neg hj]
      exact flow_same hp ((k.pipe_writePipe j data id).trans (if_neg (Ne.symm hj)) ▸ hq)
  | read j maxLen =>
    simp only [acceptedBy, deliveredBy]
    by_cases hj : j = id
    · subst hj
      rw [if_pos rfl]
      exact flow_read hp hq
    · rw [if_neg hj]
      exact flow_same hp ((k.pipe_readPipe j maxLen id).trans (if_neg (Ne.symm hj)) ▸ hq)
  | readEnd cpu j bufPtr bufLen =>
    simp only [acceptedBy, deliveredBy]
    by_cases hj : j = id
    · subst hj
      simp only [true_and]
      exact flow_readEnd hp hq
    · rw [if_neg (fun h => hj h.1)]
      exact flow_same hp (readPipeEnd_pipe k cpu bufPtr bufLen (Ne.symm hj) ▸ hq)
  | notify j =>
    simp only [acceptedBy, deliveredBy, notifies]
    by_cases hj : j = id
    · subst hj
      rw [if_pos rfl, List.flatMap_singleton]
      exact flow_notify hp hq
    · rw [if_neg hj]
      exact flow_same hp ((k.pipe_notifyPipeReaders j id).trans (if_neg (Ne.symm hj)) ▸ hq)
  | other k' => exact flow_same hp hq

/-! Whole runs. -/

/-- A section after which the pipe is still there, as it is as long as a descriptor of
either kind names it. -/
def LiveStep (id : Nat) (k : Kernel) (e : PipeSection) (k' : Kernel) : Prop :=
  k' = e.apply k ∧ (k'.pipe id).isSome = true

theorem flow_sections {t : Kernel} (run : Run (LiveStep id) k es t) (hp : k.pipe id = some p) :
    ∃ q, t.pipe id = some q ∧ Flow p.data (accepted id k es) (delivered id k es) q.data := by
  induction run generalizing p with
  | nil k => exact ⟨p, hp, Flow.refl p.data⟩
  | cons head _ ih =>
    obtain ⟨rfl, hlive⟩ := head
    obtain ⟨c, hc⟩ := Option.isSome_iff_exists.mp hlive
    obtain ⟨q, hq, hrest⟩ := ih hc
    exact ⟨q, hq, (flow_section _ hp hc).trans hrest⟩

/-- However writers, readers and wakers follow one another: what has been delivered from a
new pipe, followed by what it still holds, is what was accepted since. -/
theorem delivered_then_buffered_eq_accepted {k₀ t : Kernel} {es : List PipeSection}
    (hcreate : k.createPipe = (id, k₀)) (run : Run (LiveStep id) k₀ es t) :
    ∃ q, t.pipe id = some q ∧ delivered id k₀ es ++ q.data = accepted id k₀ es := by
  have hnew := k.pipe_createPipe id
  rw [hcreate, if_pos rfl] at hnew
  obtain ⟨q, hq, hflow⟩ := flow_sections run hnew
  exact ⟨q, hq, hflow.symm⟩

def staysLive (id : Nat) : Kernel → List PipeSection → Bool
  | _, [] => true
  | k, e :: es => ((e.apply k).pipe id).isSome && staysLive id (e.apply k) es

theorem run_of_staysLive (h : staysLive id k es = true) :
    Run (LiveStep id) k es (es.foldl PipeSection.apply k) := by
  induction es generalizing k with
  | nil => exact .nil k
  | cons e es ih =>
    rw [staysLive, Bool.and_eq_true] at h
    exact .cons ⟨rfl, h.1⟩ (ih h.2)

/-- Three processes with one thread each, on a CPU of its own. -/
def threeProcesses : Kernel :=
  { twoThreads with
    tasks :=
      { Tasks.init 3 (fun _ => 0) with
        threads := (List.range 3).map fun i =>
          { Tasks.newThread (i + 1) (i + 1) (65536 * (i + 1)) .user i with state := .running }
        processes := kernelProcess :: (List.range 3).map fun i =>
          { kernelProcess with
            pid := i + 1, state := .running, privilege := .user, mainTid := some (i + 1),
            threads := [i + 1] }
        nextTid := 4
        nextPid := 4
        currentUserPid := fun cpu => some (cpu + 1)
        currentUserTid := fun cpu => some (cpu + 1) }
    tables := [] }

/-- The second and third process get the read end of a new pipe, the first its write end. -/
def sharePipe : List PipeSection :=
  [.allocFd 2 (.pipeRead 0), .allocFd 3 (.pipeRead 0), .allocFd 1 (.pipeWrite 0)]

/-- The second process sleeps on the pipe, is woken by a write and gets two bytes; the third
takes another one. -/
theorem delivered_then_buffered_eq_accepted_threeProcesses :
    let k₀ := threeProcesses.createPipe.2
    let es := sharePipe ++
      [.readEnd 1 0 userMin 2, .write 0 [1, 2, 3, 4], .notify 0, .read 0 1]
    ∃ q, (es.foldl PipeSection.apply k₀).pipe 0 = some q ∧ delivered 0 k₀ es = [1, 2, 3] ∧
      delivered 0 k₀ es ++ q.data = accepted 0 k₀ es := by
  intro k₀ es
  have hlive : staysLive 0 k₀ es = true := by decide +kernel
  have hbytes : delivered 0 k₀ es = [1, 2, 3] := by decide +kernel
  obtain ⟨q, hq, heq⟩ :=
    delivered_then_buffered_eq_accepted (k := threeProcesses) rfl (run_of_staysLive hlive)
  exact ⟨q, hq, hbytes, heq⟩

end KazuOS.Kernel
