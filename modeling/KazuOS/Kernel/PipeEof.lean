import KazuOS.Kernel.PipeStream

/-! What a blocking read of a pipe returns. A count of zero is how it says that the pipe is at
its end, but a reader that is woken can be given nothing for another reason. -/
namespace KazuOS.Kernel

open KazuOS.Memory KazuOS.Task KazuOS.Lib

variable {k : Kernel} {id : Nat}

/-- A read that returns: its buffer, its result, and the pipe at that moment. -/
structure ReadReturn where
  bufLen : Nat
  count : Nat
  pipe : Option PipeState
  deriving DecidableEq, Repr

/-- The results the woken readers of a pipe resume with. -/
def wokenResults (id : Nat) (k : Kernel) : List (Nat × Nat × Nat) :=
  (List.zipWith (readResult k.vm id) k.tasks.threads
    (k.notifyPipeReaders id).tasks.threads).reduceOption

def wokenReturns (id : Nat) (k : Kernel) : List ReadReturn :=
  List.zipWith (fun r d => ⟨r.2.1, r.2.2, d.pipe⟩) (wokenResults id k) (k.deliveries id)

/-- The blocking reads of a pipe that a section completes, at once or by waking the reader. -/
def readReturns (id : Nat) (k : Kernel) : PipeSection → List ReadReturn
  | .readEnd cpu j bufPtr bufLen =>
      let result := (k.readPipeEnd cpu j bufPtr bufLen).1
      if j = id ∧ result ≠ blockToScheduler then [⟨bufLen, result, k.pipe id⟩] else []
  | e => (notifies id k e).flatMap (wokenReturns id)

/-- No bytes are left and nobody can write any. -/
def AtEnd (pipe : Option PipeState) : Prop := ∀ p, pipe = some p → p.data = [] ∧ p.writeRefs = 0

/-- The sleeping readers that asked for something. -/
def hungryLengths (id : Nat) (k : Kernel) : List Nat := (k.readerLengths id).filter (· ≠ 0)

def bufferedLength (id : Nat) (k : Kernel) : Nat := (k.pipe id).elim 0 (·.data.length)

/-- Nobody can write any more, or there is a byte for each sleeping reader: those served
before the last one leave it something. -/
def Feeds (id : Nat) (k : Kernel) : Prop :=
  k.writerClosed id = true ∨ hungryLengths id k = [] ∨
    (hungryLengths id k).dropLast.sum < bufferedLength id k

theorem wokenReturns_eq (id : Nat) (k : Kernel) :
    wokenReturns id k = (k.deliveries id).map fun d => ⟨d.bufLen, d.bytes.length, d.pipe⟩ := by
  have hresults : wokenResults id k =
      (k.deliveries id).map fun d => (d.tid, d.bufLen, d.bytes.length) :=
    readResults_deliver k.vm k.tasks.mem id k.tasks.threads k.pipes
  rw [wokenReturns, hresults, List.zipWith_map_left, List.zipWith_self]

variable {p : PipeState} {d : Delivery}

/-- What each reader finds when its turn comes: the pipe without what went to those before. -/
theorem mem_deliveriesFrom (vm : Vmm) (threads : Threads) {pipes : List (Option PipeState)}
    (hd : d ∈ deliveriesFrom vm id threads pipes) :
    ∃ n, d.pipe = pipes[id]?.join.map (dropData n) ∧
      d.bytes = (d.pipe.elim [] PipeState.data).take d.bufLen := by
  induction threads generalizing pipes with
  | nil => cases hd
  | cons t threads ih =>
    unfold deliveriesFrom at hd
    cases hreader : readerOf vm id t with
    | none =>
      rw [hreader] at hd
      exact ih hd
    | some bufLen =>
      rw [hreader] at hd
      dsimp only at hd
      obtain rfl | hd := List.mem_cons.mp hd
      · refine ⟨0, ?_⟩
        dsimp only
        rw [drain]
        cases pipes[id]?.join with
        | none => exact ⟨rfl, List.take_nil.symm⟩
        | some p => exact ⟨rfl, rfl⟩
      · obtain ⟨n, hpipe, hbytes⟩ := ih hd
        rw [pipes_drain, if_pos rfl, Option.map_map] at hpipe
        refine ⟨bufLen + n, hpipe.trans ?_, hbytes⟩
        congr 1
        funext p
        exact dropData_dropData bufLen n p

theorem writerClosed_iff (hp : k.pipe id = some p) :
    k.writerClosed id = true ↔ p.writeRefs = 0 := by
  simp [writerClosed, hp]

/-- A woken reader that asked for something and got nothing found the pipe empty. -/
theorem delivery_empty {c : PipeState} (hd : d ∈ k.deliveries id)
    (hlen : d.bufLen ≠ 0) (hbytes : d.bytes = []) (hc : d.pipe = some c) :
    c.data = [] ∧ ∃ p, k.pipe id = some p ∧ c.writeRefs = p.writeRefs := by
  obtain ⟨n, hpipe, htaken⟩ := mem_deliveriesFrom k.vm k.tasks.threads hd
  rw [hbytes, hc] at htaken
  obtain ⟨p, hp, rfl⟩ := Option.map_eq_some_iff.mp (hpipe.symm.trans hc)
  refine ⟨?_, p, hp, rfl⟩
  exact (List.take_eq_nil_iff.mp htaken.symm).resolve_left hlen

theorem delivery_pipe (hp : k.pipe id = some p)
    (hd : d ∈ k.deliveries id) : ∃ n, d.pipe = some (dropData n p) := by
  obtain ⟨n, hpipe, -⟩ := mem_deliveriesFrom k.vm k.tasks.threads hd
  refine ⟨n, hpipe.trans ?_⟩
  rw [Kernel.pipe] at hp
  rw [hp]
  rfl

/-- Nobody who asked for something is left with nothing exactly if there is enough. -/
theorem deliveries_ne_nil_iff (hp : k.pipe id = some p) :
    (∀ d ∈ k.deliveries id, d.bufLen ≠ 0 → d.bytes ≠ []) ↔
      hungryLengths id k = [] ∨ (hungryLengths id k).dropLast.sum < bufferedLength id k := by
  have hpairs := deliveriesFrom_shares k.vm k.tasks.threads hp
  have hfed := shares_ne_nil_iff (k.readerLengths id) p.data
  rw [readerLengths, ← hpairs, List.forall_mem_map] at hfed
  rw [bufferedLength, hp]
  exact hfed

/-- Waking the readers of a pipe is harmless exactly if it feeds them. -/
theorem wokenReturns_at_end_iff (id : Nat) (k : Kernel) :
    (∀ r ∈ wokenReturns id k, r.bufLen ≠ 0 → r.count = 0 → AtEnd r.pipe) ↔ Feeds id k := by
  rw [wokenReturns_eq, List.forall_mem_map]
  simp only [List.length_eq_zero_iff]
  by_cases hclosed : k.writerClosed id = true
  · refine iff_of_true ?_ (.inl hclosed)
    intro d hd hlen hbytes c hc
    obtain ⟨hdata, p, hp, hrefs⟩ := delivery_empty hd hlen hbytes hc
    exact ⟨hdata, hrefs.trans ((writerClosed_iff hp).mp hclosed)⟩
  · cases hp : k.pipe id with
    | none => exact absurd (by simp [writerClosed, hp]) hclosed
    | some p =>
      have hopen : ∀ d ∈ k.deliveries id, ¬AtEnd d.pipe := by
        intro d hd hend
        obtain ⟨n, hpipe⟩ := delivery_pipe hp hd
        exact hclosed ((writerClosed_iff hp).mpr (hend _ hpipe).2)
      rw [Feeds, or_iff_right hclosed, ← deliveries_ne_nil_iff hp]
      constructor
      · intro h d hd hlen hbytes
        exact hopen d hd (h d hd hlen hbytes)
      · intro h d hd hlen hbytes
        exact absurd hbytes (h d hd hlen)

/-- A read that returns at once says so only at the end of the pipe. -/
theorem readPipeEnd_zero {cpu bufPtr bufLen : Nat} (hlen : bufLen ≠ 0)
    (hzero : (k.readPipeEnd cpu id bufPtr bufLen).1 = 0) : AtEnd (k.pipe id) := by
  intro p hp
  unfold readPipeEnd at hzero
  split at hzero
  · rename_i hdata
    dsimp only at hzero
    rw [readPipe_bytes hp, List.length_eq_zero_iff, List.take_eq_nil_iff] at hzero
    simp [pipeIsEmpty, hp, hzero.resolve_left hlen] at hdata
  · rename_i hempty
    split at hzero
    · rename_i hclosed
      refine ⟨?_, (writerClosed_iff hp).mp hclosed⟩
      simpa [pipeIsEmpty, hp] using hempty
    · cases hzero

/-- A blocking read with a buffer returns zero only at the end of the pipe, in whatever way
it completes, exactly if every waking in the section feeds its readers. -/
theorem read_zero_at_end_iff (id : Nat) (k : Kernel) (e : PipeSection) :
    (∀ r ∈ readReturns id k e, r.bufLen ≠ 0 → r.count = 0 → AtEnd r.pipe) ↔
      ∀ k' ∈ notifies id k e, Feeds id k' := by
  have hwoken : (∀ r ∈ (notifies id k e).flatMap (wokenReturns id),
      r.bufLen ≠ 0 → r.count = 0 → AtEnd r.pipe) ↔ ∀ k' ∈ notifies id k e, Feeds id k' := by
    simp only [← wokenReturns_at_end_iff, List.mem_flatMap]
    constructor
    · intro h k' hk' r hr
      exact h r ⟨k', hk', hr⟩
    · rintro h r ⟨k', hk', hr⟩
      exact h k' hk' r hr
  cases e with
  | readEnd cpu j bufPtr bufLen =>
    apply iff_of_true
    · intro r hr hlen hzero
      simp only [readReturns] at hr
      split at hr
      · rename_i hj
        obtain rfl := List.mem_singleton.mp hr
        obtain ⟨rfl, -⟩ := hj
        exact readPipeEnd_zero hlen hzero
      · cases hr
    · intro k' hk'
      cases hk'
  | _ => exact hwoken

/-- Two readers asleep on a pipe that has just got one byte. -/
def oneByteForTwo : List PipeSection :=
  sharePipe ++ [.readEnd 1 0 userMin 8, .readEnd 2 0 userMin 8, .write 0 [65]]

/-- A reader asleep on the pipe of two writers. -/
def twoWriters : List PipeSection :=
  [.allocFd 2 (.pipeRead 0), .allocFd 1 (.pipeWrite 0), .allocFd 3 (.pipeWrite 0),
    .readEnd 1 0 userMin 8]

/-- The second reader is woken with nothing, and so is the one reader when only one of the
writers closes its end. In both cases a writer is left. -/
theorem woken_with_zero_before_end :
    readReturns 0 (oneByteForTwo.foldl PipeSection.apply threeProcesses.createPipe.2) (.notify 0) =
        [⟨8, 1, some ⟨[65], 1, 2⟩⟩, ⟨8, 0, some ⟨[], 1, 2⟩⟩] ∧
      readReturns 0 (twoWriters.foldl PipeSection.apply threeProcesses.createPipe.2) (.freeFd 3 0) =
        [⟨8, 0, some ⟨[], 1, 1⟩⟩] := by
  decide +kernel

end KazuOS.Kernel
