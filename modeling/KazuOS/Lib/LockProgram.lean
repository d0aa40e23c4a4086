import KazuOS.Lib.Run
import Mathlib.Logic.Relation
import Mathlib.Data.List.Count

/-! Programs that take and release locks, run by several CPUs that interleave. A
program that nests its locks by increasing rank never takes part in a cycle of CPUs
that hold and spin. -/
namespace KazuOS.Lib

/-- Code over locks `L` and atomic actions `A` on a shared state `S`. An action hands the
state it found to the code that follows. -/
inductive Prog (L A S : Type) (α : Type) where
  | done (value : α)
  | lock (l : L) (next : Prog L A S α)
  | unlock (l : L) (next : Prog L A S α)
  | act (a : A) (next : S → Prog L A S α)

namespace Prog

variable {L A S α β : Type}

def bind : Prog L A S α → (α → Prog L A S β) → Prog L A S β
  | done value, f => f value
  | lock l next, f => .lock l (next.bind f)
  | unlock l next, f => .unlock l (next.bind f)
  | act a next, f => .act a fun s => (next s).bind f

instance : Monad (Prog L A S) where
  pure := done
  bind := bind

def perform (a : A) : Prog L A S S := .act a .done

/-- A critical section. -/
def withLock (l : L) (body : Prog L A S α) : Prog L A S α :=
  .lock l (body.bind fun value => .unlock l (.done value))

/-- The lock the code is about to take. -/
def wants : Prog L A S α → Option L
  | lock l _ => some l
  | _ => none

/-- The action the code is about to perform. -/
def action : Prog L A S α → Option A
  | act a _ => some a
  | _ => none

/-- What the code does when nothing runs beside it. -/
def exec (effect : A → S → S) : Prog L A S α → S → α × S
  | done value, s => (value, s)
  | lock _ next, s => next.exec effect s
  | unlock _ next, s => next.exec effect s
  | act a next, s => (next s).exec effect (effect a s)

section Exec

variable {effect : A → S → S}

@[simp] theorem exec_pure (value : α) (s : S) :
    (Pure.pure value : Prog L A S α).exec effect s = (value, s) := rfl

@[simp] theorem exec_bind (p : Prog L A S α) (f : α → Prog L A S β) (s : S) :
    (p >>= f).exec effect s = (f (p.exec effect s).1).exec effect (p.exec effect s).2 := by
  change (p.bind f).exec effect s = _
  induction p generalizing s with
  | done => rfl
  | lock l next ih => exact ih s
  | unlock l next ih => exact ih s
  | act a next ih => exact ih s (effect a s)

@[simp] theorem exec_perform (a : A) (s : S) :
    (perform a : Prog L A S S).exec effect s = (s, effect a s) := rfl

@[simp] theorem exec_withLock (l : L) (p : Prog L A S α) (s : S) :
    (withLock l p).exec effect s = p.exec effect s :=
  exec_bind p _ s

end Exec

/-- `Orderly after held p`: run by a CPU that holds `held`, innermost first, the code `p`
takes a new lock only above all it holds, releases the innermost first, and ends holding
`after`. Its actions are only followed from the states `ok` allows. -/
def Orderly (rank : L → Nat) (reentrant : L → Bool) (ok : (L → Prop) → A → S → Prop)
    (after : List L) : List L → Prog L A S α → Prop
  | held, done _ => held = after
  | held, lock l next =>
      ((reentrant l ∧ l ∈ held) ∨ ∀ l' ∈ held, rank l' < rank l) ∧
        Orderly rank reentrant ok after (l :: held) next
  | held, unlock l next =>
      ∃ rest, held = l :: rest ∧ Orderly rank reentrant ok after rest next
  | held, act a next =>
      ∀ s, ok (· ∈ held) a s → Orderly rank reentrant ok after held (next s)

section Orderly

variable {rank : L → Nat} {reentrant : L → Bool} {ok : (L → Prop) → A → S → Prop}
  {held between after : List L}

theorem orderly_pure (value : α) :
    Orderly rank reentrant ok held held (Pure.pure value : Prog L A S α) := rfl

variable {p : Prog L A S α}

theorem Orderly.bind {f : α → Prog L A S β} (hp : Orderly rank reentrant ok between held p)
    (hf : ∀ value, Orderly rank reentrant ok after between (f value)) :
    Orderly rank reentrant ok after held (p >>= f) := by
  change Orderly rank reentrant ok after held (p.bind f)
  induction p generalizing held with
  | done value =>
    cases hp
    exact hf value
  | lock l next ih => exact ⟨hp.1, ih hp.2⟩
  | unlock l next ih =>
    obtain ⟨rest, hheld, hnext⟩ := hp
    exact ⟨rest, hheld, ih hnext⟩
  | act a next ih =>
    intro s hok
    exact ih s (hp s hok)

theorem orderly_perform (a : A) : Orderly rank reentrant ok held held (perform a : Prog L A S S) :=
  fun _ _ => rfl

/-- An action after which the code goes on only from the states `ok` allows. -/
theorem orderly_act {a : A} {f : S → Prog L A S α}
    (hf : ∀ s, ok (· ∈ held) a s → Orderly rank reentrant ok after held (f s)) :
    Orderly rank reentrant ok after held (perform a >>= f) :=
  hf

theorem orderly_withLock {l : L} (hl : (reentrant l ∧ l ∈ held) ∨ ∀ l' ∈ held, rank l' < rank l)
    (hp : Orderly rank reentrant ok (l :: held) (l :: held) p) :
    Orderly rank reentrant ok held held (withLock l p) :=
  ⟨hl, hp.bind fun _ => ⟨held, rfl, rfl⟩⟩

end Orderly

end Prog

/-- A CPU runs the kernel code that entered it last. Each live guard holds a lock and
keeps interrupts off; code without one can be set aside for the CPU's other threads. -/
structure Cpu (L A S : Type) where
  code : Prog L A S Unit
  guards : Nat
  parked : List (Prog L A S Unit)

/-- A lock word names the CPU that holds it and how many times. -/
structure Machine (C L A S : Type) where
  shared : S
  holder : L → Option C
  depth : L → Nat
  cpus : C → Cpu L A S

inductive MachineEvent (C P : Type) where
  | enter (c : C) (p : P)
  | advance (c : C)
  | park (c : C)
  | resume (c : C) (i : Nat)

namespace Machine

open Function Prog

variable {C L A S P : Type} [DecidableEq L]

def idle (s : S) : Machine C L A S where
  shared := s
  holder _ := none
  depth _ := 0
  cpus _ := ⟨.done (), 0, []⟩

/-- The CPU is about to take a lock that it cannot enter again. -/
def Seeks (reentrant : L → Bool) (m : Machine C L A S) (c : C) (l : L) : Prop :=
  (m.cpus c).code.wants = some l ∧ ¬(m.holder l = some c ∧ reentrant l)

/-- What is asked of an action when a CPU is about to perform it. -/
def Allowed (ok : (L → Prop) → A → S → Prop) (m : Machine C L A S) : MachineEvent C P → Prop
  | .advance c => ∀ a, (m.cpus c).code.action = some a → ok (m.holder · = some c) a m.shared
  | _ => True

/-- The locks each CPU holds, innermost first, account for the lock words, and all code is
orderly under them. -/
structure InOrder (rank : L → Nat) (reentrant : L → Bool) (ok : (L → Prop) → A → S → Prop)
    (m : Machine C L A S) (held : C → List L) : Prop where
  code : ∀ c, Orderly rank reentrant ok [] (held c) (m.cpus c).code
  parked : ∀ c, ∀ p ∈ (m.cpus c).parked, Orderly rank reentrant ok [] [] p
  guards : ∀ c, (m.cpus c).guards = (held c).length
  holder : ∀ l c, m.holder l = some c ↔ l ∈ held c
  depth : ∀ l c, l ∈ held c → m.depth l = (held c).count l

section InOrder

variable {rank : L → Nat} {reentrant : L → Bool} {ok : (L → Prop) → A → S → Prop}
  {m : Machine C L A S} {held : C → List L} {c : C} {l : L}

theorem idle_inOrder (s : S) :
    InOrder rank reentrant ok (idle s : Machine C L A S) fun _ => [] where
  code _ := rfl
  parked _ p hp := by cases hp
  guards _ := rfl
  holder l c := by simp [idle]
  depth l c hl := by cases hl

theorem InOrder.held_nil (h : InOrder rank reentrant ok m held) (hg : (m.cpus c).guards = 0) :
    held c = [] :=
  List.length_eq_zero_iff.mp ((h.guards c).symm.trans hg)

theorem InOrder.not_mem_of_ne (h : InOrder rank reentrant ok m held) (hl : l ∈ held c) (d : C)
    (hd : d ≠ c) : l ∉ held d := by
  intro hl'
  have hc := (h.holder l c).mpr hl
  rw [(h.holder l d).mpr hl'] at hc
  exact hd (Option.some.inj hc)

/-- A CPU only seeks a lock above every lock it holds. -/
theorem InOrder.rank_lt (h : InOrder rank reentrant ok m held) {l' : L}
    (hholds : m.holder l = some c) (hseeks : m.Seeks reentrant c l') : rank l < rank l' := by
  obtain ⟨hwants, hagain⟩ := hseeks
  have hcode := h.code c
  cases hc : (m.cpus c).code with
  | lock l'' next =>
    rw [hc] at hwants hcode
    cases hwants
    rcases hcode.1 with ⟨hre, hmine⟩ | habove
    · exact absurd ⟨(h.holder l' c).mpr hmine, hre⟩ hagain
    · exact habove l ((h.holder l c).mp hholds)
  | done value | unlock l'' next | act a next =>
    rw [hc] at hwants
    cases hwants

end InOrder

variable [DecidableEq C]

def setCpu (m : Machine C L A S) (c : C) (cpu : Cpu L A S) : Machine C L A S :=
  { m with cpus := update m.cpus c cpu }

def setLock (m : Machine C L A S) (l : L) (holder : Option C) (depth : Nat) : Machine C L A S :=
  { m with holder := update m.holder l holder, depth := update m.depth l depth }

/-- One step of the code on a CPU. A CPU that spins for a lock makes none. -/
def advance (reentrant : L → Bool) (effect : A → S → S) (m : Machine C L A S) (c : C) :
    Option (Machine C L A S) :=
  let cpu := m.cpus c
  match cpu.code with
  | .done _ => none
  | .lock l next =>
      let m' := m.setCpu c { cpu with code := next, guards := cpu.guards + 1 }
      match m.holder l with
      | none => some (m'.setLock l (some c) 1)
      | some d =>
          if d = c ∧ reentrant l then some (m'.setLock l (some c) (m.depth l + 1)) else none
  | .unlock l next =>
      let m' := m.setCpu c { cpu with code := next, guards := cpu.guards - 1 }
      if m.depth l = 1 then some (m'.setLock l none 0)
      else some (m'.setLock l (m.holder l) (m.depth l - 1))
  | .act a next =>
      some { m.setCpu c { cpu with code := next m.shared } with shared := effect a m.shared }

/-- Code enters, is set aside and resumes only while no guard keeps interrupts off. -/
def step (reentrant : L → Bool) (effect : A → S → S) (code : C → P → Prog L A S Unit)
    (m : Machine C L A S) : MachineEvent C P → Option (Machine C L A S)
  | .advance c => m.advance reentrant effect c
  | .enter c p =>
      let cpu := m.cpus c
      if cpu.guards = 0 then some (m.setCpu c { cpu with code := (code c p).bind fun _ => cpu.code })
      else none
  | .park c =>
      let cpu := m.cpus c
      if cpu.guards = 0 then
        some (m.setCpu c { cpu with code := .done (), parked := cpu.parked ++ [cpu.code] })
      else none
  | .resume c i =>
      let cpu := m.cpus c
      match cpu.code, cpu.parked[i]? with
      | .done _, some p =>
          if cpu.guards = 0 then
            some (m.setCpu c { cpu with code := p, parked := cpu.parked.eraseIdx i })
          else none
      | _, _ => none

section Step

variable {rank : L → Nat} {reentrant : L → Bool} {ok : (L → Prop) → A → S → Prop}
  {effect : A → S → S} {code : C → P → Prog L A S Unit}
  {m m' : Machine C L A S} {held : C → List L} {c : C} {l : L}

/-- A step that touches no lock. -/
theorem InOrder.setCpu (h : InOrder rank reentrant ok m held) {cpu : Cpu L A S} (s : S)
    (hcode : Orderly rank reentrant ok [] (held c) cpu.code)
    (hparked : ∀ p ∈ cpu.parked, Orderly rank reentrant ok [] [] p)
    (hguards : cpu.guards = (held c).length) :
    InOrder rank reentrant ok { m.setCpu c cpu with shared := s } held where
  code := (forall_update_iff m.cpus fun d cpu => Orderly rank reentrant ok [] (held d) cpu.code).mpr
    ⟨hcode, fun d _ => h.code d⟩
  parked := (forall_update_iff m.cpus fun _ cpu =>
    ∀ p ∈ cpu.parked, Orderly rank reentrant ok [] [] p).mpr ⟨hparked, fun d _ => h.parked d⟩
  guards := (forall_update_iff m.cpus fun d cpu => cpu.guards = (held d).length).mpr
    ⟨hguards, fun d _ => h.guards d⟩
  holder := h.holder
  depth := h.depth

/-- The CPU's locks change at one lock, which no other CPU holds. -/
theorem InOrder.setLock (h : InOrder rank reentrant ok m held) (cpu : Cpu L A S) {mine : List L}
    (hcode : Orderly rank reentrant ok [] mine cpu.code)
    (hparked : cpu.parked = (m.cpus c).parked) (hguards : cpu.guards = mine.length)
    (hothers : ∀ d ≠ c, l ∉ held d) (hcount : ∀ l' ≠ l, mine.count l' = (held c).count l') :
    InOrder rank reentrant ok
      ((m.setCpu c cpu).setLock l (if l ∈ mine then some c else none) (mine.count l))
      (update held c mine) where
  code d := by
    by_cases hd : d = c
    · subst hd
      simpa [Machine.setCpu, Machine.setLock] using hcode
    · simpa [Machine.setCpu, Machine.setLock, hd] using h.code d
  parked d := by
    by_cases hd : d = c
    · subst hd
      simpa [Machine.setCpu, Machine.setLock, hparked] using h.parked d
    · simpa [Machine.setCpu, Machine.setLock, hd] using h.parked d
  guards d := by
    by_cases hd : d = c
    · subst hd
      simpa [Machine.setCpu, Machine.setLock] using hguards
    · simpa [Machine.setCpu, Machine.setLock, hd] using h.guards d
  holder l' d := by
    have hmem : l' ≠ l → (l' ∈ mine ↔ l' ∈ held c) := by
      intro hl
      rw [← List.count_pos_iff, hcount l' hl, List.count_pos_iff]
    by_cases hl : l' = l
    · subst hl
      by_cases hd : d = c
      · subst hd
        simp [Machine.setLock]
      · simp only [Machine.setLock, update_self, update_of_ne hd, hothers d hd, iff_false]
        split
        · simpa using Ne.symm hd
        · simp
    · have hholder : (((m.setCpu c cpu).setLock l (if l ∈ mine then some c else none)
          (mine.count l)).holder l' = some d) = (m.holder l' = some d) := by
        simp [Machine.setLock, Machine.setCpu, hl]
      rw [hholder, h.holder l' d]
      by_cases hd : d = c
      · subst hd
        rw [update_self, hmem hl]
      · rw [update_of_ne hd]
  depth l' d hl' := by
    by_cases hd : d = c
    · subst hd
      rw [update_self] at hl' ⊢
      by_cases hl : l' = l
      · subst hl
        simp [Machine.setLock]
      · have hmine : l' ∈ held d := by
          rw [← List.count_pos_iff, ← hcount l' hl, List.count_pos_iff]
          exact hl'
        rw [hcount l' hl]
        simpa [Machine.setLock, Machine.setCpu, hl] using h.depth l' d hmine
    · rw [update_of_ne hd] at hl' ⊢
      have hl : l' ≠ l := by
        rintro rfl
        exact hothers d hd hl'
      simpa [Machine.setLock, Machine.setCpu, hl] using h.depth l' d hl'

theorem advance_inOrder (h : InOrder rank reentrant ok m held)
    (hok : ∀ a, (m.cpus c).code.action = some a → ok (m.holder · = some c) a m.shared)
    (hm : m.advance reentrant effect c = some m') :
    ∃ held', InOrder rank reentrant ok m' held' := by
  have hcode := h.code c
  have hguards := h.guards c
  unfold advance at hm
  simp only at hm
  split at hm
  · cases hm
  · rename_i l next hc
    rw [hc] at hcode
    have hcount : ∀ l' ≠ l, (l :: held c).count l' = (held c).count l' := by
      intro l' hl
      rw [List.count_cons_of_ne hl.symm]
    split at hm
    · -- the lock is free
      rename_i hfree
      have hnone : ∀ d, l ∉ held d := by
        intro d hl
        rw [(h.holder l d).mpr hl] at hfree
        cases hfree
      have hset := h.setLock ⟨next, (m.cpus c).guards + 1, (m.cpus c).parked⟩ hcode.2 rfl
        (congrArg (· + 1) hguards) (fun d _ => hnone d) hcount
      rw [if_pos List.mem_cons_self, List.count_cons_self, List.count_eq_zero.mpr (hnone c)] at hset
      cases hm
      exact ⟨_, hset⟩
    · -- the CPU enters a lock it holds once more
      rename_i d hd
      split at hm
      · rename_i hagain
        obtain ⟨rfl, -⟩ := hagain
        have hmine := (h.holder l d).mp hd
        have hset := h.setLock ⟨next, (m.cpus d).guards + 1, (m.cpus d).parked⟩ hcode.2 rfl
          (congrArg (· + 1) hguards) (h.not_mem_of_ne hmine) hcount
        rw [if_pos List.mem_cons_self, List.count_cons_self, ← h.depth l d hmine] at hset
        cases hm
        exact ⟨_, hset⟩
      · cases hm
  · rename_i l next hc
    rw [hc] at hcode
    obtain ⟨rest, hheld, hnext⟩ := hcode
    have hmine : l ∈ held c := by
      rw [hheld]
      exact List.mem_cons_self
    have hdepth := h.depth l c hmine
    rw [hheld, List.count_cons_self] at hdepth
    have hset := h.setLock ⟨next, (m.cpus c).guards - 1, (m.cpus c).parked⟩ hnext rfl
      (by simp [hguards, hheld]) (h.not_mem_of_ne hmine) (fun l' hl => by
        rw [hheld, List.count_cons_of_ne hl.symm])
    split at hm
    · rename_i hone
      have hrest : rest.count l = 0 := by omega
      rw [if_neg (List.count_eq_zero.mp hrest), hrest] at hset
      cases hm
      exact ⟨_, hset⟩
    · rename_i hmore
      have hrest : l ∈ rest := List.count_pos_iff.mp (by omega)
      have hcount : rest.count l = m.depth l - 1 := by omega
      rw [if_pos hrest, ← (h.holder l c).mpr hmine, hcount] at hset
      cases hm
      exact ⟨_, hset⟩
  · rename_i a next hc
    rw [hc] at hcode
    have hholder : (m.holder · = some c) = (· ∈ held c) := by
      funext l
      exact propext (h.holder l c)
    have hallowed := hok a (by rw [hc]; rfl)
    rw [hholder] at hallowed
    cases hm
    exact ⟨held, h.setCpu _ (hcode m.shared hallowed) (h.parked c) hguards⟩

theorem step_inOrder (hcode : ∀ c p, Orderly rank reentrant ok [] [] (code c p))
    (h : InOrder rank reentrant ok m held) {e : MachineEvent C P} (hok : m.Allowed ok e)
    (hm : m.step reentrant effect code e = some m') :
    ∃ held', InOrder rank reentrant ok m' held' := by
  cases e with
  | advance c => exact advance_inOrder h hok hm
  | enter c p =>
    obtain ⟨hg, hm⟩ := Option.ite_none_right_eq_some.mp hm
    cases hm
    have hnil := h.held_nil hg
    have hnow := h.code c
    rw [hnil] at hnow
    refine ⟨held, h.setCpu m.shared ?_ (h.parked c) (h.guards c)⟩
    rw [hnil]
    exact (hcode c p).bind fun _ => hnow
  | park c =>
    obtain ⟨hg, hm⟩ := Option.ite_none_right_eq_some.mp hm
    cases hm
    have hnil := h.held_nil hg
    have hnow := h.code c
    rw [hnil] at hnow
    refine ⟨held, h.setCpu m.shared hnil ?_ (h.guards c)⟩
    intro p hp
    rcases List.mem_append.mp hp with hp | hp
    · exact h.parked c p hp
    · cases List.mem_singleton.mp hp
      exact hnow
  | resume c i =>
    unfold step at hm
    simp only at hm
    split at hm
    · rename_i p _ hp
      obtain ⟨hg, hm⟩ := Option.ite_none_right_eq_some.mp hm
      cases hm
      refine ⟨held, h.setCpu m.shared ?_ ?_ (h.guards c)⟩
      · rw [h.held_nil hg]
        exact h.parked c p (List.mem_of_getElem? hp)
      · intro q hq
        exact h.parked c q (List.mem_of_mem_eraseIdx hq)
    · cases hm

/-- Orderly code stays in order along every run whose actions are all allowed. -/
theorem run_inOrder (hcode : ∀ c p, Orderly rank reentrant ok [] [] (code c p)) {s : S}
    {es : List (MachineEvent C P)}
    (run : Run (fun m e m' => m.Allowed ok e ∧ m.step reentrant effect code e = some m')
      (idle s) es m) :
    ∃ held, InOrder rank reentrant ok m held := by
  apply run.preserves (I := fun m => ∃ held, InOrder rank reentrant ok m held)
  · intro m e m' hm hstep
    obtain ⟨held, h⟩ := hm
    exact step_inOrder hcode h hstep.1 hstep.2
  · exact ⟨_, idle_inOrder s⟩

end Step

end Machine

end KazuOS.Lib
