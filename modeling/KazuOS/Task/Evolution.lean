import KazuOS.Task.Scheduler
import Mathlib.Data.List.Nodup

/-! What a critical section can do to the tables: whom it may wake, whom it may put to
sleep, and that apart from that it keeps who there is. -/
namespace KazuOS.Task

/-- Thread ids with the target they sleep on. -/
abbrev Sleepers := Nat → WaitTarget → Prop

def nobody : Sleepers := fun _ _ => False

namespace Thread

def dead (t : Thread) : Bool :=
  match t.state with
  | .exited | .empty => true
  | _ => false

/-- What of a thread only its creation, its exit and the timer's accounting change. -/
structure Record where
  tid : Nat
  pid : Nat
  cpuTicks : Nat
  kernelStackBase : Nat
  assignedCpu : Nat
  dead : Bool
  deriving DecidableEq, Repr

def record (t : Thread) : Record :=
  ⟨t.tid, t.pid, t.cpuTicks, t.kernelStackBase, t.assignedCpu, t.dead⟩

/-- A thread before and after a section that ends nobody, wakes at most the sleepers in
`A` and puts to sleep at most those in `B`. -/
structure Moves (A B : Sleepers) (t t' : Thread) : Prop where
  tid : t'.tid = t.tid
  pid : t'.pid = t.pid
  dead : t'.dead = t.dead
  asleep : t'.state = .sleeping →
    (t.state = .sleeping ∧ t'.waitTarget = t.waitTarget) ∨ B t.tid t'.waitTarget
  awake : t.state = .sleeping → t'.state ≠ .sleeping → A t.tid t.waitTarget
  cr3 : t'.userContext.cr3 = t.userContext.cr3
  record : t'.record = t.record

variable {A A' B B' : Sleepers} {t t' t'' : Thread}

theorem Moves.refl (t : Thread) : Moves A B t t :=
  ⟨rfl, rfl, rfl, fun h => .inl ⟨h, rfl⟩, fun h hne => absurd h hne, rfl, rfl⟩

theorem Moves.mono (h : Moves A B t t') (hA : ∀ tid w, A tid w → A' tid w)
    (hB : ∀ tid w, B tid w → B' tid w) : Moves A' B' t t' :=
  ⟨h.tid, h.pid, h.dead, fun hs => (h.asleep hs).imp_right (hB _ _),
    fun hs hne => hA _ _ (h.awake hs hne), h.cr3, h.record⟩

/-- A section that puts nobody to sleep leaves a sleeper's target. -/
theorem Moves.stays (h : Moves A nobody t t') (hsleeping : t'.state = .sleeping) :
    t.state = .sleeping ∧ t'.waitTarget = t.waitTarget :=
  (h.asleep hsleeping).resolve_right id

theorem Moves.trans (h : Moves A nobody t t') (h' : Moves A nobody t' t'') :
    Moves A nobody t t'' := by
  constructor
  · exact h'.tid.trans h.tid
  · exact h'.pid.trans h.pid
  · exact h'.dead.trans h.dead
  · intro hsleeping
    have hlast := h'.stays hsleeping
    have hfirst := h.stays hlast.1
    exact .inl ⟨hfirst.1, hlast.2.trans hfirst.2⟩
  · intro hsleeping hwoken
    by_cases hmid : t'.state = .sleeping
    · have hA := h'.awake hmid hwoken
      rwa [h.tid, (h.stays hmid).2] at hA
    · exact h.awake hsleeping hmid
  · exact h'.cr3.trans h.cr3
  · exact h'.record.trans h.record

/-- A change to the saved registers only. -/
theorem Moves.of_same (htid : t'.tid = t.tid) (hpid : t'.pid = t.pid) (hstate : t'.state = t.state)
    (htarget : t'.waitTarget = t.waitTarget) (hcr3 : t'.userContext.cr3 = t.userContext.cr3)
    (hrecord : t'.record = t.record) : Moves A B t t' := by
  constructor
  · exact htid
  · exact hpid
  · simp only [Thread.dead, hstate]
  · intro h
    exact .inl ⟨hstate ▸ h, htarget⟩
  · intro h hne
    exact absurd (hstate.trans h) hne
  · exact hcr3
  · exact hrecord

theorem restoreCtx_moves (mem : Memory) (retval : Nat) (t : Thread) :
    Moves A nobody t (t.restoreCtxFromBlockingFrame mem retval) := by
  unfold restoreCtxFromBlockingFrame
  split
  · exact Moves.refl t
  · exact Moves.of_same rfl rfl rfl rfl rfl rfl

theorem applyBlockingReturn_moves (mem : Memory) (t : Thread) :
    Moves A nobody t (t.applyBlockingReturnIfPending mem) := by
  unfold applyBlockingReturnIfPending
  split
  · have hretval : Moves A nobody t { t with blockingRetval := 0 } :=
      Moves.of_same rfl rfl rfl rfl rfl rfl
    exact hretval.trans (restoreCtx_moves mem _ _)
  · exact Moves.refl t

theorem setReady_moves (h : t.state = .sleeping → A t.tid t.waitTarget) :
    Moves A nobody t t.setReady := by
  constructor
  · exact t.setReady_tid
  · obtain ⟨state, h⟩ := t.setReady_eq
    rw [h]
  · unfold setReady Thread.dead
    cases hstate : t.state <;> simp [hstate]
  · unfold setReady
    cases hstate : t.state <;> simp [hstate]
  · intro hsleeping _
    exact h hsleeping
  · obtain ⟨state, h⟩ := t.setReady_eq
    rw [h]
  · unfold setReady record Thread.dead
    cases hstate : t.state <;> simp [hstate]

theorem setRunning_moves (h : t.state = .sleeping → A t.tid t.waitTarget) :
    Moves A nobody t t.setRunning := by
  constructor
  · exact t.setRunning_tid
  · obtain ⟨state, h⟩ := t.setRunning_eq
    rw [h]
  · unfold setRunning Thread.dead
    cases hstate : t.state <;> simp [hstate]
  · unfold setRunning
    cases hstate : t.state <;> simp [hstate]
  · intro hsleeping _
    exact h hsleeping
  · obtain ⟨state, h⟩ := t.setRunning_eq
    rw [h]
  · unfold setRunning record Thread.dead
    cases hstate : t.state <;> simp [hstate]

theorem wake_moves (mem : Memory) (retval : Nat) (hsleeping : t.state = .sleeping)
    (h : A t.tid t.waitTarget) : Moves A nobody t (t.wake mem retval) := by
  have hrestore := restoreCtx_moves (A := A) mem retval t
  constructor
  · exact hrestore.tid
  · exact hrestore.pid
  · simp [Thread.dead, wake, hsleeping]
  · intro hready
    cases hready
  · intro _ _
    exact h
  · exact hrestore.cr3
  · have hdead := hrestore.dead
    rw [← hrestore.record]
    simp only [record, wake, hdead]
    simp [Thread.dead, hsleeping]

/-- Putting a thread to sleep on a target, as `block` does. -/
theorem sleepOn_moves (target : WaitTarget) (h : B t.tid target) :
    Moves A B t { t with waitTarget := target }.setSleeping := by
  unfold setSleeping
  constructor
  · split <;> rfl
  · split <;> rfl
  · unfold Thread.dead
    cases t.state <;> simp
  · intro _
    cases t.state <;> simp [h]
  · cases t.state <;> simp
  · split <;> rfl
  · unfold record Thread.dead
    cases t.state <;> simp

theorem retarget_moves (target : WaitTarget) (h : B t.tid target) :
    Moves A B t { t with waitTarget := target } :=
  ⟨rfl, rfl, rfl, fun _ => .inr h, fun hs hne => absurd hs hne, rfl, rfl⟩

theorem enter_moves (t : Thread) : Moves A nobody t t.enter.2 := by
  unfold enter
  split
  · exact Moves.of_same rfl rfl rfl rfl rfl rfl
  · split
    · exact Moves.refl t
    · exact Moves.refl t

theorem switchTo_moves (mem : Memory) (ring3 : Bool) (t : Thread) :
    Moves A nobody t (t.switchTo mem ring3).2 := by
  unfold switchTo
  split
  · exact Moves.refl t
  · exact applyBlockingReturn_moves mem t

theorem preempt_moves (mem : Memory) (savedRsp : Nat) (ring3 : Bool)
    (h : t.state = .sleeping → A t.tid t.waitTarget) :
    Moves A nobody t (if ring3 then t.preemptUser mem savedRsp else t.preemptKernel savedRsp) := by
  have hsaved : ∀ t' : Thread, t'.tid = t.tid → t'.pid = t.pid → t'.state = t.state →
      t'.waitTarget = t.waitTarget → t'.userContext.cr3 = t.userContext.cr3 →
      t'.record = t.record → Moves A nobody t t'.setReady := by
    intro t' htid hpid hstate htarget hcr3 hrecord
    apply (Moves.of_same htid hpid hstate htarget hcr3 hrecord).trans
    apply setReady_moves
    rw [hstate, htid, htarget]
    exact h
  split
  · exact hsaved _ rfl rfl rfl rfl rfl rfl
  · exact hsaved _ rfl rfl rfl rfl rfl rfl

end Thread

/-- What tells processes and their threads apart. -/
def Process.shape (p : Process) : Nat × Option Nat × List Nat := (p.pid, p.mainTid, p.threads)

namespace Tasks

variable {A A' B B' : Sleepers} {a b c ts : Tasks}

/-- A CPU's current thread has been created, and while it lives its process is the
current one. -/
def Attributed (ts : Tasks) (cpu : Nat) : Prop :=
  ∀ tid, ts.currentUserTid cpu = some tid → tid < ts.nextTid ∧
    ∀ t, ts.threads.lookup tid = some t → t.dead = false → ts.currentUserPid cpu = some t.pid

/-- The tables before and after a section that neither creates nor ends anyone. -/
structure Keeps (A B : Sleepers) (a b : Tasks) : Prop where
  threads : List.Forall₂ (Thread.Moves A B) a.threads b.threads
  processes : b.processes.map Process.shape = a.processes.map Process.shape
  nextTid : b.nextTid = a.nextTid
  nextPid : b.nextPid = a.nextPid
  current : ∀ cpu, (b.currentUserTid cpu = a.currentUserTid cpu ∧
    b.currentUserPid cpu = a.currentUserPid cpu) ∨ b.Attributed cpu

theorem lookup_rel (h : Keeps A B a b) (tid : Nat) :
    Option.Rel (Thread.Moves A B) (a.threads.lookup tid) (b.threads.lookup tid) :=
  Lib.forall₂_find? Thread.tid (fun _ _ h => h.tid) h.threads tid

variable {tid : Nat} {threads : Threads} {accepts : WaitTarget → Bool} {t : Thread}

theorem Keeps.lookup (h : Keeps A B a b) {t' : Thread} (ht' : b.threads.lookup tid = some t') :
    ∃ t, a.threads.lookup tid = some t ∧ Thread.Moves A B t t' := by
  have hrel := lookup_rel h tid
  rw [ht'] at hrel
  generalize a.threads.lookup tid = found at hrel
  cases hrel with
  | some hmoves => exact ⟨_, rfl, hmoves⟩

theorem Keeps.process (h : Keeps A B a b) (pid : Nat) :
    (b.process pid).map Process.shape = (a.process pid).map Process.shape := by
  have hfind : ∀ ts : Tasks, (ts.process pid).map Process.shape =
      (ts.processes.map Process.shape).find? (·.1 = pid) := by
    intro ts
    rw [List.find?_map]
    rfl
  rw [hfind, hfind, h.processes]

theorem Keeps.mainTid (h : Keeps A B a b) (pid : Nat) : b.mainTid pid = a.mainTid pid := by
  have hshape : ∀ ts : Tasks,
      ts.mainTid pid = ((ts.process pid).map Process.shape).bind (·.2.1) := by
    intro ts
    rw [Tasks.mainTid]
    cases ts.process pid with
    | none => rfl
    | some p => rfl
  rw [hshape, hshape, h.process]

theorem Keeps.userCr3 (h : Keeps A B a b) (pid : Nat) : b.userCr3 pid = a.userCr3 pid := by
  unfold Tasks.userCr3
  rw [h.mainTid]
  cases a.mainTid pid with
  | none => rfl
  | some tid =>
    have hrel := lookup_rel h tid
    rw [Option.bind_some, Option.bind_some]
    generalize a.threads.lookup tid = before, b.threads.lookup tid = after at hrel
    cases hrel with
    | none => rfl
    | some hmoves => exact congrArg some hmoves.cr3

theorem Attributed.keeps (h : Keeps A B a b) {cpu : Nat} (hattributed : a.Attributed cpu)
    (htid : b.currentUserTid cpu = a.currentUserTid cpu)
    (hpid : b.currentUserPid cpu = a.currentUserPid cpu) : b.Attributed cpu := by
  intro tid hcurrent
  obtain ⟨hbelow, halive⟩ := hattributed tid (htid ▸ hcurrent)
  refine ⟨h.nextTid ▸ hbelow, ?_⟩
  intro t' hlookup hdead
  obtain ⟨t, ht, hmoves⟩ := h.lookup hlookup
  rw [hpid, hmoves.pid]
  exact halive t ht (hmoves.dead ▸ hdead)

namespace Keeps

theorem refl (ts : Tasks) : Keeps A B ts ts :=
  ⟨List.forall₂_same.mpr fun t _ => Thread.Moves.refl t, rfl, rfl, rfl,
    fun _ => .inl ⟨rfl, rfl⟩⟩

theorem trans (h : Keeps A nobody a b) (h' : Keeps A nobody b c) : Keeps A nobody a c := by
  constructor
  · exact Lib.forall₂_trans (fun _ _ _ hab hbc => hab.trans hbc) h.threads h'.threads
  · exact h'.processes.trans h.processes
  · exact h'.nextTid.trans h.nextTid
  · exact h'.nextPid.trans h.nextPid
  · intro cpu
    rcases h'.current cpu with ⟨htid, hpid⟩ | hattributed
    · rcases h.current cpu with ⟨htid', hpid'⟩ | hattributed
      · exact .inl ⟨htid.trans htid', hpid.trans hpid'⟩
      · exact .inr (hattributed.keeps h' htid hpid)
    · exact .inr hattributed

theorem mono (h : Keeps A B a b) (hA : ∀ tid w, A tid w → A' tid w)
    (hB : ∀ tid w, B tid w → B' tid w) : Keeps A' B' a b :=
  ⟨h.threads.imp fun _ _ hmoves => hmoves.mono hA hB, h.processes, h.nextTid, h.nextPid,
    h.current⟩

/-- A section that wakes only. -/
theorem weaken (h : Keeps A nobody a b) (hA : ∀ tid w, A tid w → A' tid w) : Keeps A' B a b :=
  h.mono hA fun _ _ => False.elim

/-- A loop each round of which wakes only. -/
theorem foldl {σ ι : Type*} (tasks : σ → Tasks) {f : σ → ι → σ} (l : List ι) (s : σ)
    (hf : ∀ s' x, x ∈ l → Keeps A nobody (tasks s) (tasks s') →
      Keeps A nobody (tasks s') (tasks (f s' x))) :
    Keeps A nobody (tasks s) (tasks (l.foldl f s)) := by
  have hrounds : ∀ s', Keeps A nobody (tasks s) (tasks s') → ∀ rest : List ι, (∀ x ∈ rest, x ∈ l) →
      Keeps A nobody (tasks s) (tasks (rest.foldl f s')) := by
    intro s' hs' rest
    induction rest generalizing s' with
    | nil => exact fun _ => hs'
    | cons x rest ih =>
      intro hmem
      apply ih
      · exact hs'.trans (hf s' x (hmem x List.mem_cons_self) hs')
      · exact fun y hy => hmem y (List.mem_cons_of_mem _ hy)
  exact hrounds s (refl _) l fun _ h => h

end Keeps

/-! One lemma for each function of the tables. -/

variable {f : Process → Process} {next : Nat}

theorem keeps_updateProcess (hshape : ∀ p, (f p).shape = p.shape)
    (ts : Tasks) (pid : Nat) : Keeps A B ts (ts.updateProcess pid f) := by
  have h := Keeps.refl (A := A) (B := B) ts
  exact ⟨h.threads, Lib.map_key_modifyFirst Process.shape hshape _, rfl, rfl, h.current⟩

theorem keeps_threads (h : List.Forall₂ (Thread.Moves A B) ts.threads threads) :
    Keeps A B ts { ts with threads } :=
  ⟨h, rfl, rfl, rfl, fun _ => .inl ⟨rfl, rfl⟩⟩

theorem moves_update {f : Thread → Thread}
    (hmoves : ∀ t, threads.lookup tid = some t → t.tid = tid → Thread.Moves A B t (f t)) :
    List.Forall₂ (Thread.Moves A B) threads (threads.update tid f) := by
  apply Lib.forall₂_modifyFirst Thread.Moves.refl
  intro t ht
  exact hmoves t ht (by simpa using List.find?_some ht)

theorem moves_setReady (hA : ∀ w, A tid w) :
    List.Forall₂ (Thread.Moves A nobody) threads (threads.setReady tid) := by
  apply moves_update
  intro t _ htid
  apply Thread.setReady_moves
  intro _
  exact htid ▸ hA t.waitTarget

/-- The main thread of a process, whatever it sleeps on. -/
def mainOf (ts : Tasks) (pid : Nat) : Sleepers := fun tid _ => ts.mainTid pid = some tid

/-- Marking a process and making its main thread ready, as set_ready, kills and SIGTERM
do. -/
theorem keeps_readyMain (hshape : ∀ p, (f p).shape = p.shape) (ts : Tasks) (pid : Nat) :
    Keeps (ts.mainOf pid) nobody ts ((ts.updateProcess pid f).onMain pid Threads.setReady) := by
  have hmark := keeps_updateProcess (A := ts.mainOf pid) (B := nobody) hshape ts pid
  apply hmark.trans
  unfold onMain
  split
  · rename_i tid hmain
    apply keeps_threads
    apply moves_setReady
    intro _
    rw [mainOf, ← hmain, hmark.mainTid]
  · exact Keeps.refl _

theorem keeps_wakeAll (mem : Memory) (retval : Nat) (ts : Tasks) :
    Keeps (fun _ w => accepts w = true) nobody ts
      { ts with threads := Threads.wakeAll mem retval accepts ts.threads } := by
  apply keeps_threads
  apply List.forall₂_map_right_iff.mpr
  apply List.forall₂_same.mpr
  intro t _
  split
  · rename_i hwaits
    simp only [Thread.waitsOn, Bool.and_eq_true, decide_eq_true_eq] at hwaits
    exact Thread.wake_moves mem retval hwaits.1 hwaits.2
  · exact Thread.Moves.refl t

theorem keeps_wakeFirst (mem : Memory) (retval : Nat) {chosen : Thread → Bool} (ts : Tasks) :
    Keeps (fun _ w => accepts w = true) nobody ts
      { ts with threads := (Threads.wakeFirst mem retval chosen accepts ts.threads).2 } := by
  apply keeps_threads
  apply Lib.forall₂_modifyFirst Thread.Moves.refl
  intro t ht
  have hwaits := List.find?_some ht
  simp only [Thread.waitsOn, Bool.and_eq_true, decide_eq_true_eq] at hwaits
  exact Thread.wake_moves mem retval hwaits.2.1 hwaits.2.2

/-- Threads that sleep on one target. -/
def sleepersOn (target : WaitTarget) : Sleepers := fun _ w => w = target

theorem keeps_wakeAll_on (mem : Memory) (retval : Nat) (target : WaitTarget) (ts : Tasks) :
    Keeps (sleepersOn target) nobody ts
      { ts with threads := Threads.wakeAll mem retval (· = target) ts.threads } := by
  apply (keeps_wakeAll mem retval ts).mono
  · intro _ w hw
    unfold sleepersOn
    simpa using hw
  · exact fun _ _ h => h

theorem keeps_wakeFirst_on (mem : Memory) (retval : Nat) (chosen : Thread → Bool)
    (target : WaitTarget) (ts : Tasks) :
    Keeps (sleepersOn target) nobody ts
      { ts with threads := (Threads.wakeFirst mem retval chosen (· = target) ts.threads).2 } := by
  apply (keeps_wakeFirst mem retval ts).mono
  · intro _ w hw
    unfold sleepersOn
    simpa using hw
  · exact fun _ _ h => h

/-- A main thread that sleeps on any channel. -/
def ipcMainOf (ts : Tasks) (pid : Nat) : Sleepers := fun tid w =>
  ts.mainTid pid = some tid ∧ Threads.isIpc w = true

theorem keeps_wakeupIpcWaiter (ts : Tasks) (pid retval : Nat) :
    Keeps (ts.ipcMainOf pid) nobody ts (ts.wakeupIpcWaiter pid retval) := by
  unfold wakeupIpcWaiter onMain
  split
  · rename_i tid hmain
    apply keeps_threads
    apply moves_update
    intro t _ htid
    split
    · rename_i hwaits
      simp only [Thread.waitsOn, Bool.and_eq_true, decide_eq_true_eq] at hwaits
      exact Thread.wake_moves _ retval hwaits.1 ⟨htid ▸ hmain, hwaits.2⟩
    · exact Thread.Moves.refl t
  · exact Keeps.refl ts

theorem keeps_killPid (ts : Tasks) (pid : Nat) :
    Keeps (ts.mainOf pid) nobody ts (ts.killPid pid) := by
  unfold killPid
  split
  · exact Keeps.refl ts
  · split
    · exact Keeps.refl ts
    · split
      · exact Keeps.refl ts
      · apply keeps_readyMain
        intro p
        rfl

/-- The main threads of the children of a process. -/
def childrenOf (ts : Tasks) (pid : Nat) : Sleepers := fun tid _ =>
  ∃ child ∈ ts.processes, child.parent = pid ∧ ts.mainTid child.pid = some tid

theorem keeps_killChildren (ts : Tasks) (pid : Nat) :
    Keeps (ts.childrenOf pid) nobody ts (ts.killChildren pid) := by
  unfold killChildren
  apply Keeps.foldl id
  intro ts' q hq hkeeps
  apply (keeps_killPid ts' q).mono
  · intro tid _ hmain
    simp only [List.mem_map, List.mem_filter, decide_eq_true_eq] at hq
    obtain ⟨child, ⟨hmem, hparent⟩, rfl⟩ := hq
    exact ⟨child, hmem, hparent, (hkeeps.mainTid child.pid).symm.trans hmain⟩
  · exact fun _ _ h => h

theorem update_update {f g : Thread → Thread} (hkey : ∀ t, (f t).tid = t.tid) (threads : Threads)
    (tid : Nat) : (threads.update tid f).update tid g = threads.update tid (g ∘ f) := by
  apply Lib.modifyFirst_modifyFirst
  intro t
  rw [hkey]

theorem keeps_interruptSleep (ts : Tasks) (hA : ∀ w, A tid w) :
    Keeps A nobody ts (ts.interruptSleep tid) := by
  unfold interruptSleep
  split
  · have hkey : ∀ t, (Thread.applyBlockingReturnIfPending ts.mem t).tid = t.tid :=
      fun t => (Thread.applyBlockingReturn_moves (A := A) ts.mem t).tid
    apply keeps_threads
    unfold Threads.setWaitTarget Threads.setReady Threads.applyBlockingReturnIfPending
    rw [update_update hkey, update_update]
    · apply moves_update
      intro t ht htid
      have happly := Thread.applyBlockingReturn_moves (A := A) ts.mem t
      have hready : Thread.Moves A nobody t (t.applyBlockingReturnIfPending ts.mem).setReady := by
        apply happly.trans
        apply Thread.setReady_moves
        intro _
        exact happly.tid ▸ htid ▸ hA _
      have hawake : (t.applyBlockingReturnIfPending ts.mem).setReady.state ≠ .sleeping := by
        unfold Thread.setReady
        split <;> simp_all
      exact ⟨hready.tid, hready.pid, hready.dead, fun h => absurd h hawake, hready.awake,
        hready.cr3, hready.record⟩
    · intro t
      rw [Function.comp_apply, Thread.setReady_tid, hkey]
  · exact Keeps.refl ts

theorem keeps_raiseSigint {pid : Nat} {p : Process} (hp : ts.process pid = some p) :
    Keeps (ts.mainOf pid) nobody ts (ts.raiseSigint p) := by
  have hmark : Keeps (ts.mainOf pid) nobody ts
      (ts.updateProcess p.pid fun p => { p with sigintPending := true }) := by
    apply keeps_updateProcess
    intro p
    rfl
  unfold raiseSigint
  apply hmark.trans
  split
  · rename_i tid hmain
    apply keeps_interruptSleep
    intro _
    rw [mainOf, Tasks.mainTid, hp]
    exact hmain
  · exact Keeps.refl _

theorem keeps_sendSigint (ts : Tasks) (pid : Nat) :
    Keeps (ts.mainOf pid) nobody ts (ts.sendSigint pid) := by
  unfold sendSigint
  split
  · exact Keeps.refl ts
  · rename_i p hp
    split
    · exact Keeps.refl ts
    · split
      · exact keeps_raiseSigint hp
      · exact keeps_killPid ts pid

theorem keeps_sendDriverExit (ts : Tasks) (pid : Nat) :
    Keeps (ts.mainOf pid) nobody ts (ts.sendDriverExit pid) := by
  unfold sendDriverExit
  split
  · exact Keeps.refl ts
  · rename_i p hp
    exact keeps_raiseSigint hp

theorem terminate_shape (p : Process) : p.terminate.shape = p.shape := by
  unfold Process.terminate
  split
  · rfl
  · rfl

theorem keeps_sendSigterm (ts : Tasks) (pid : Nat) :
    Keeps (ts.mainOf pid) nobody ts (ts.sendSigterm pid) :=
  keeps_readyMain terminate_shape ts pid

/-- The main threads of all processes but the kernel's. -/
def userMains (ts : Tasks) : Sleepers := fun tid _ =>
  ∃ p ∈ ts.processes, p.pid ≠ 0 ∧ p.mainTid = some tid

theorem keeps_shutdownAll {mark : Process → Process} (hmark : ∀ p, (mark p).shape = p.shape)
    (ts : Tasks) : Keeps ts.userMains nobody ts (shutdownAll mark ts) := by
  have hready : Keeps ts.userMains nobody ts { ts with
      threads := ((ts.processes.filter (·.pid ≠ 0)).filterMap (·.mainTid)).foldl
        Threads.setReady ts.threads } := by
    apply Keeps.foldl (fun threads => { ts with threads })
    intro threads tid htid _
    apply keeps_threads
    apply moves_setReady
    intro _
    simp only [List.mem_filterMap, List.mem_filter, decide_eq_true_eq] at htid
    obtain ⟨p, ⟨hmem, hpid⟩, hmain⟩ := htid
    exact ⟨p, hmem, hpid, hmain⟩
  refine ⟨hready.threads, ?_, rfl, rfl, hready.current⟩
  unfold shutdownAll
  rw [List.map_map]
  apply List.map_congr_left
  intro p _
  rw [Function.comp_apply]
  split
  · rfl
  · exact hmark p

/-! Blocking. -/

theorem keeps_block (ts : Tasks) (tid : Nat) (target : WaitTarget) :
    Keeps nobody (fun j w => j = tid ∧ w = target) ts (ts.block tid target) := by
  unfold block Threads.setWaitTarget Threads.setSleeping
  apply keeps_threads
  rw [update_update]
  · apply moves_update
    intro t _ htid
    exact Thread.sleepOn_moves target ⟨htid, rfl⟩
  · intro t
    rfl

theorem keeps_setWaitTarget (ts : Tasks) (pid : Nat) (target : WaitTarget) :
    Keeps nobody (fun j w => ts.mainTid pid = some j ∧ w = target) ts
      (ts.setWaitTarget pid target) := by
  unfold setWaitTarget onMain
  split
  · rename_i tid hmain
    apply keeps_threads
    apply moves_update
    intro t _ htid
    exact Thread.retarget_moves target ⟨htid ▸ hmain, rfl⟩
  · exact Keeps.refl ts

theorem keeps_setSleeping (ts : Tasks) (pid : Nat) :
    Keeps nobody (fun j w => ts.mainTid pid = some j ∧
      (ts.threads.lookup j).map (·.waitTarget) = some w) ts (ts.setSleeping pid) := by
  have hshape : ∀ p : Process, p.setSleeping.shape = p.shape := by
    intro p
    obtain ⟨state, h⟩ := p.setSleeping_eq
    rw [h]
    rfl
  have hmark := keeps_updateProcess (A := nobody) (B := nobody) hshape ts pid
  refine ⟨?_, ?_, ?_, ?_, ?_⟩
  · rw [setSleeping_threads]
    split
    · rename_i tid hmain
      apply moves_update
      intro t ht htid
      exact Thread.sleepOn_moves t.waitTarget ⟨htid ▸ hmain, by rw [htid, ht]; rfl⟩
    · exact (Keeps.refl ts).threads
  all_goals unfold setSleeping onMain
  · split <;> exact hmark.processes
  · split <;> rfl
  · split <;> rfl
  · intro cpu
    split <;> exact .inl ⟨rfl, rfl⟩

/-! Context switches. -/

theorem keeps_commitBlock (ts : Tasks) (cpu rsp : Nat) :
    Keeps A nobody ts (ts.commitBlock cpu rsp) := by
  unfold commitBlock
  split
  · apply keeps_threads
    apply moves_update
    intro t _ _
    exact Thread.Moves.of_same rfl rfl rfl rfl rfl rfl
  · exact Keeps.refl ts

theorem keeps_preempt (ts : Tasks) (currentTid savedRsp : Nat) (ring3 : Bool) :
    Keeps (fun tid _ => tid = currentTid) nobody ts (ts.preempt currentTid savedRsp ring3) := by
  unfold preempt
  split
  · exact Keeps.refl ts
  · apply keeps_threads
    apply moves_update
    intro t _ htid
    apply Thread.preempt_moves
    exact fun _ => htid

/-- Clearing the current thread of a CPU. -/
theorem keeps_current {tids pids : Nat → Option Nat}
    (h : ∀ cpu, (tids cpu = ts.currentUserTid cpu ∧ pids cpu = ts.currentUserPid cpu) ∨
      tids cpu = none) :
    Keeps A B ts { ts with currentUserTid := tids, currentUserPid := pids } := by
  have hrefl := Keeps.refl (A := A) (B := B) ts
  refine ⟨hrefl.threads, rfl, rfl, rfl, ?_⟩
  intro cpu
  rcases h cpu with hsame | hnone
  · exact .inl hsame
  · apply Or.inr
    intro tid hcurrent
    cases hnone.symm.trans hcurrent

theorem keeps_clear (ts : Tasks) (cpu : Nat) :
    Keeps A B ts { ts with
      currentUserTid := Function.update ts.currentUserTid cpu none
      currentUserPid := Function.update ts.currentUserPid cpu none } := by
  apply keeps_current
  intro other
  by_cases hother : other = cpu
  · subst hother
    exact .inr (Function.update_self ..)
  · exact .inl ⟨Function.update_of_ne hother .., Function.update_of_ne hother ..⟩

theorem keeps_clearCurrentPid (ts : Tasks) (cpu : Nat) :
    Keeps A B ts (ts.clearCurrentPid cpu) := keeps_clear ts cpu

theorem keeps_clearCurrentUser (ts : Tasks) (cpu pid : Nat) :
    Keeps A B ts (ts.clearCurrentUser cpu pid) := by
  unfold clearCurrentUser
  split
  · exact keeps_clear ts cpu
  · exact Keeps.refl ts

theorem keeps_leaveCpu (ts : Tasks) (cpu : Nat) : Keeps A nobody ts (ts.leaveCpu cpu) :=
  (keeps_clearCurrentPid ts cpu).trans (keeps_clearCurrentPid _ cpu)

/-- Ids that were handed out once each, before `next`. -/
structure Fresh (ids : List Nat) (next : Nat) : Prop where
  nodup : ids.Nodup
  below : ∀ id ∈ ids, id < next

theorem Fresh.concat {ids : List Nat} (h : Fresh ids next) : Fresh (ids ++ [next]) (next + 1) := by
  constructor
  · apply List.Nodup.append h.nodup (List.nodup_singleton next)
    intro id hid hnext
    cases List.mem_singleton.mp hnext
    exact absurd (h.below next hid) (Nat.lt_irrefl next)
  · intro id hid
    obtain hid | hid := List.mem_append.mp hid
    · exact Nat.lt_succ_of_lt (h.below id hid)
    · cases List.mem_singleton.mp hid
      exact Nat.lt_succ_self next

theorem Fresh.subperm {ids ids' : List Nat} (h : Fresh ids next)
    (hsub : ids'.Subperm ids) : Fresh ids' next := by
  constructor
  · obtain ⟨l, hperm, hl⟩ := hsub
    exact hperm.nodup_iff.mp (hl.nodup h.nodup)
  · intro id hid
    exact h.below id (hsub.subset hid)

/-- Thread and process ids are handed out once. -/
structure Distinct (ts : Tasks) : Prop where
  freshTids : Fresh (ts.threads.map (·.tid)) ts.nextTid
  freshPids : Fresh (ts.processes.map (·.pid)) ts.nextPid
  tidPositive : 0 < ts.nextTid
  pidPositive : 0 < ts.nextPid

theorem Distinct.tids (hd : ts.Distinct) : (ts.threads.map (·.tid)).Nodup := hd.freshTids.nodup

theorem Distinct.pids (hd : ts.Distinct) : (ts.processes.map (·.pid)).Nodup := hd.freshPids.nodup

theorem Distinct.tidsBelow (hd : ts.Distinct) (h : t ∈ ts.threads) : t.tid < ts.nextTid :=
  hd.freshTids.below t.tid (List.mem_map_of_mem h)

theorem Distinct.lookup (hd : ts.Distinct) (h : t ∈ ts.threads) :
    ts.threads.lookup t.tid = some t :=
  Lib.find?_of_mem Thread.tid hd.tids h

theorem mem_of_lookup (h : threads.lookup tid = some t) : t ∈ threads ∧ t.tid = tid :=
  ⟨List.mem_of_find?_eq_some h, by simpa using List.find?_some h⟩

/-- The scheduler picks a ready thread of its CPU. -/
theorem lookup_scheduleNext (hd : ts.Distinct) {cpu currentTid tid : Nat}
    (h : ts.threads.scheduleNext cpu currentTid = tid) (hne : tid ≠ 0) :
    ∃ t, ts.threads.lookup tid = some t ∧ t.state = .ready ∧ t.assignedCpu = cpu := by
  have hready : ∀ p : Thread → Bool, ∀ t ∈ (ts.threads.filter fun t =>
      t.assignedCpu = cpu && t.state = .ready).filter p, t.tid = tid →
      ∃ t, ts.threads.lookup tid = some t ∧ t.state = .ready ∧ t.assignedCpu = cpu := by
    intro p t ht htid
    simp only [List.mem_filter, Bool.and_eq_true, decide_eq_true_eq] at ht
    exact ⟨t, htid ▸ hd.lookup ht.1.1, ht.1.2.2, ht.1.2.1⟩
  unfold Threads.scheduleNext at h
  dsimp only at h
  split at h
  · rename_i next hmin
    obtain ⟨t, ht, htid⟩ := List.mem_map.mp (List.min?_mem hmin)
    exact hready _ t ht (htid.trans h)
  · cases hmin : ((ts.threads.filter fun t => t.assignedCpu = cpu && t.state = .ready).map
        (·.tid)).min? with
    | none =>
      rw [hmin] at h
      exact absurd h.symm hne
    | some next =>
      rw [hmin] at h
      obtain ⟨t, ht, htid⟩ := List.mem_map.mp (List.min?_mem hmin)
      apply hready (fun _ => true) t _ (htid.trans h)
      rwa [List.filter_true]

theorem scheduleNext_below (hd : ts.Distinct) {cpu currentTid tid : Nat}
    (h : ts.threads.scheduleNext cpu currentTid = tid) (hne : tid ≠ 0) : tid < ts.nextTid := by
  obtain ⟨t, ht, -⟩ := lookup_scheduleNext hd h hne
  obtain ⟨hmem, rfl⟩ := mem_of_lookup ht
  exact hd.tidsBelow hmem

theorem scheduleNext_awake (hd : ts.Distinct) {cpu currentTid tid : Nat}
    (h : ts.threads.scheduleNext cpu currentTid = tid) (hne : tid ≠ 0) (t : Thread)
    (ht : ts.threads.lookup tid = some t) : t.state ≠ .sleeping := by
  obtain ⟨t', ht', hready, -⟩ := lookup_scheduleNext hd h hne
  cases ht.symm.trans ht'
  simp [hready]

theorem threadPid_of_lookup (h : ts.threads.lookup tid = some t)
    (halive : t.dead = false) : ts.threadPid tid = some t.pid := by
  have hstate : t.state ≠ .empty := by
    intro hempty
    simp [Thread.dead, hempty] at halive
  obtain ⟨htid, before, after, hthreads, hbefore⟩ := List.find?_eq_some_iff_append.mp h
  have hfind : ts.threads.find? (fun t => t.tid = tid && t.state ≠ .empty) = some t := by
    apply List.find?_eq_some_iff_append.mpr
    refine ⟨by simpa [hstate] using htid, before, after, hthreads, ?_⟩
    intro u hu
    have hother := hbefore u hu
    simp only [Bool.not_eq_true', decide_eq_false_iff_not] at hother
    simp [hother]
  rw [threadPid, hfind]
  rfl

theorem launch_eq (ts : Tasks) (cpu tid : Nat) :
    ts.launch cpu tid =
      { ts.updateProcess ((ts.threadPid tid).getD 0) Process.setRunning with
        threads := ts.threads.setRunning tid
        currentUserTid := Function.update ts.currentUserTid cpu (some tid)
        currentUserPid := Function.update ts.currentUserPid cpu (ts.threadPid tid) } := by
  simp [launch, setRunning, setCurrentUserTid, updateProcess]

theorem setRunning_shape (p : Process) : p.setRunning.shape = p.shape := by
  obtain ⟨state, h⟩ := p.setRunning_eq
  rw [h]
  rfl

/-- Making a thread that does not sleep the current one. -/
theorem keeps_launch (ts : Tasks) (cpu : Nat) (hbelow : tid < ts.nextTid)
    (hawake : ∀ t, ts.threads.lookup tid = some t → t.state ≠ .sleeping) :
    Keeps A nobody ts (ts.launch cpu tid) := by
  have hmoves : List.Forall₂ (Thread.Moves A nobody) ts.threads (ts.threads.setRunning tid) := by
    apply moves_update
    intro t ht _
    apply Thread.setRunning_moves
    exact fun hsleeping => absurd hsleeping (hawake t ht)
  have hthreads : Keeps A nobody ts { ts with threads := ts.threads.setRunning tid } :=
    keeps_threads hmoves
  have hmark := keeps_updateProcess (A := A) (B := nobody) setRunning_shape ts
    ((ts.threadPid tid).getD 0)
  rw [launch_eq]
  refine ⟨hmoves, hmark.processes, rfl, rfl, ?_⟩
  intro other
  by_cases hother : other = cpu
  · subst hother
    apply Or.inr
    intro j hcurrent
    simp only [Function.update_self, Option.some.injEq] at hcurrent ⊢
    subst hcurrent
    refine ⟨hbelow, ?_⟩
    intro t' hlookup halive
    obtain ⟨t, ht, hmove⟩ := hthreads.lookup hlookup
    rw [hmove.pid]
    exact threadPid_of_lookup ht (hmove.dead ▸ halive)
  · exact .inl ⟨Function.update_of_ne hother .., Function.update_of_ne hother ..⟩

theorem keeps_dispatch (ts : Tasks) (cpu : Nat) {choose : Thread → Resumption × Thread}
    (hchoose : ∀ t, Thread.Moves A nobody t (choose t).2) (hbelow : tid < ts.nextTid)
    (hawake : ∀ t, ts.threads.lookup tid = some t → t.state ≠ .sleeping) :
    Keeps A nobody ts (ts.dispatch cpu tid choose).2 := by
  have hupdate : Keeps A nobody ts
      { ts with threads := ts.threads.update tid fun t => (choose t).2 } :=
    keeps_threads (moves_update fun t _ _ => hchoose t)
  apply hupdate.trans
  apply keeps_launch
  · exact hbelow
  · intro t' ht' hsleeping
    obtain ⟨t, ht, hmove⟩ := hupdate.lookup ht'
    exact hawake t ht (hmove.stays hsleeping).1

theorem keeps_setCurrentUserTid_none (ts : Tasks) (cpu : Nat) :
    Keeps A B ts (ts.setCurrentUserTid cpu none) := keeps_clear ts cpu

theorem keeps_enterNextProcess (hd : ts.Distinct) (cpu : Nat) :
    Keeps A nobody ts (ts.enterNextProcess cpu).2 := by
  unfold enterNextProcess
  split
  · exact (keeps_clearCurrentPid ts cpu).trans (keeps_setCurrentUserTid_none _ cpu)
  · rename_i tid hne
    apply keeps_dispatch
    · exact Thread.enter_moves
    · exact scheduleNext_below hd rfl hne
    · exact scheduleNext_awake hd rfl hne

theorem keeps_timerSwitch (hd : ts.Distinct) (cpu currentTid : Nat) (ring3 hasReturnStack : Bool) :
    Keeps A nobody ts (ts.timerSwitch cpu currentTid ring3 hasReturnStack).2 := by
  unfold timerSwitch
  split
  · exact keeps_setCurrentUserTid_none ts cpu
  · rename_i tid hne
    split
    · exact Keeps.refl ts
    · apply keeps_dispatch
      · exact Thread.switchTo_moves ts.mem ring3
      · exact scheduleNext_below hd rfl hne
      · exact scheduleNext_awake hd rfl hne

end Tasks

end KazuOS.Task
