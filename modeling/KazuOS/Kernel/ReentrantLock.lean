import KazuOS.Lib.Run
import Mathlib.Algebra.BigOperators.Group.List.Basic
import Mathlib.Algebra.GroupWithZero.Nat

/-! The reentrant spin lock that protects the thread and process tables, at the grain of
its atomic operations. Ownership is spread over three atomics that `lock` and `unlock`
write one after the other, so the invariant gives, for every program point, what the
three hold while a CPU stands there. -/
namespace KazuOS

def usizeMax : Nat := 2 ^ 64 - 1

structure ReentrantSpinLock where
  locked : Bool
  owner : Nat
  depth : Nat
  deriving DecidableEq, Repr

namespace ReentrantSpinLock

def new : ReentrantSpinLock := ⟨false, usizeMax, 0⟩

/-- The next atomic operation of a CPU that runs the lock's code. -/
inductive Point where
  /-- Outside the lock's code. -/
  | rest
  | loadOwner
  | loadLocked
  | addDepth
  /-- At the `compare_exchange_weak` of the loop. -/
  | spin
  | storeOwner
  | storeDepth
  | subDepth
  | clearOwner
  | clearLocked
  /-- `unlock` has returned; the guard's saved flags are still to be restored. -/
  | restoreFlags
  deriving DecidableEq, Repr

/-- One atomic operation of `lock` or `unlock`. A weak compare-exchange may fail although
the lock is free: `fails`. -/
def atomic (cpu : Nat) (fails : Bool) : Point → ReentrantSpinLock → ReentrantSpinLock × Point
  | .loadOwner, l => (l, if l.owner = cpu then .loadLocked else .spin)
  | .loadLocked, l => (l, if l.locked then .addDepth else .spin)
  | .addDepth, l => ({ l with depth := (l.depth + 1) % 2 ^ 64 }, .rest)
  | .spin, l => if l.locked || fails then (l, .spin) else ({ l with locked := true }, .storeOwner)
  | .storeOwner, l => ({ l with owner := cpu }, .storeDepth)
  | .storeDepth, l => ({ l with depth := 1 }, .rest)
  | .subDepth, l =>
    ({ l with depth := (l.depth + (2 ^ 64 - 1)) % 2 ^ 64 },
      if l.depth = 1 then .clearOwner else .restoreFlags)
  | .clearOwner, l => ({ l with owner := usizeMax }, .clearLocked)
  | .clearLocked, l => ({ l with locked := false }, .restoreFlags)
  | .rest, l => (l, .rest)
  | .restoreFlags, l => (l, .restoreFlags)

/-- Code running on a CPU: its place in the lock's code, and the interrupt flags its guards
have saved, innermost first. -/
structure Context where
  point : Point
  flags : List Bool
  deriving DecidableEq, Repr

def Context.idle : Context := ⟨.rest, []⟩

/-- How many guards are between the return of their `lock` and the decrement of their
`unlock`. -/
def Context.nesting (x : Context) : Nat :=
  match x.point with
  | .rest | .subDepth => x.flags.length
  | _ => x.flags.length - 1

/-- Between the compare-exchange that takes the lock and the store that frees it. -/
def Context.Holds (x : Context) : Prop :=
  0 < x.nesting ∨ x.point = .storeOwner ∨ x.point = .storeDepth ∨ x.point = .clearOwner ∨
    x.point = .clearLocked

instance (x : Context) : Decidable x.Holds := by unfold Context.Holds; infer_instance

/-- A CPU: the code it runs, the code that interrupts have suspended, and whether interrupts
are enabled. -/
structure Core where
  running : Context
  suspended : List Context
  interrupts : Bool
  deriving DecidableEq, Repr

def Core.boot : Core := ⟨.idle, [], false⟩

def Core.nesting (core : Core) : Nat :=
  ((core.running :: core.suspended).map Context.nesting).sum

def Core.Holds (core : Core) : Prop := ∃ x ∈ core.running :: core.suspended, x.Holds

/-- CPUs with distinct indices, none of which is the mark of a free lock. -/
structure Indexing (κ : Type) where
  index : κ → Nat
  distinct : ∀ c d, index c = index d → c = d
  unmarked : ∀ c, index c ≠ usizeMax

structure Machine (κ : Type) where
  lock : ReentrantSpinLock
  cores : κ → Core

def Machine.boot {κ : Type} : Machine κ := ⟨.new, fun _ => .boot⟩

/-- A guard is a saved flags word and a reference to the lock. -/
def guardBytes : Nat := 16

inductive Event (κ : Type) where
  /-- `ReentrantIrqGuard::new` saves the flags, disables interrupts and calls `lock`. -/
  | guard (c : κ)
  /-- The innermost guard is dropped. -/
  | drop (c : κ)
  | atomic (c : κ) (fails : Bool)
  /-- The dropped guard's `IrqGuard` restores the flags. -/
  | restore (c : κ)
  | interrupt (c : κ)
  | iret (c : κ)
  /-- `cli` or `sti` outside every guard. -/
  | setInterrupts (c : κ) (enabled : Bool)
  deriving DecidableEq, Repr

/-- What a CPU does to itself and to the lock. A new guard has to fit into the address space
beside those the CPU has. -/
def turn (cpu : Nat) {κ : Type} (core : Core) (l : ReentrantSpinLock) :
    Event κ → Option (Core × ReentrantSpinLock)
  | .guard _ =>
    if core.running.point = .rest ∧ (core.running.flags.length + 1) * guardBytes ≤ 2 ^ 64 then
      some ({ core with running := ⟨.loadOwner, core.interrupts :: core.running.flags⟩
                        interrupts := false }, l)
    else none
  | .drop _ =>
    if core.running.point = .rest ∧ core.running.flags ≠ [] then
      some ({ core with running := { core.running with point := .subDepth } }, l)
    else none
  | .atomic _ fails =>
    let (l', point) := ReentrantSpinLock.atomic cpu fails core.running.point l
    some ({ core with running := { core.running with point := point } }, l')
  | .restore _ =>
    match core.running with
    | ⟨.restoreFlags, saved :: flags⟩ =>
      some ({ core with running := ⟨.rest, flags⟩, interrupts := saved }, l)
    | _ => none
  | .interrupt _ =>
    if core.interrupts then
      some ({ running := .idle, suspended := core.running :: core.suspended,
              interrupts := false }, l)
    else none
  | .iret _ =>
    match core.suspended with
    | x :: rest =>
      if core.running = .idle then
        some ({ running := x, suspended := rest, interrupts := true }, l)
      else none
    | [] => none
  | .setInterrupts _ enabled =>
    if core.running = .idle then some ({ core with interrupts := enabled }, l) else none

def Event.cpu {κ : Type} : Event κ → κ
  | .guard c | .drop c | .atomic c _ | .restore c | .interrupt c | .iret c
  | .setInterrupts c _ => c

def Machine.step {κ : Type} [DecidableEq κ] (cpus : Indexing κ) (m : Machine κ) (e : Event κ) :
    Option (Machine κ) :=
  (turn (cpus.index e.cpu) (m.cores e.cpu) m.lock e).map fun (core, l) =>
    ⟨l, Function.update m.cores e.cpu core⟩

/-- What the three atomics hold while a CPU stands at a point between the acquiring
compare-exchange and the freeing store. -/
def Context.view (cpu : Nat) (x : Context) : ReentrantSpinLock where
  locked := true
  owner := if x.point = .storeOwner ∨ x.point = .clearLocked then usizeMax else cpu
  depth := x.nesting

/-- What a CPU keeps to itself. A guard disables interrupts before it calls `lock`, so no
handler ever runs on top of the lock's code or of a held lock. -/
structure Core.Guarded (core : Core) : Prop where
  suspended : ∀ x ∈ core.suspended, x = .idle
  masked : core.running ≠ .idle → core.interrupts = false
  saved : core.running.point ≠ .rest → core.running.flags ≠ []
  /-- Only the outermost guard can have found interrupts enabled. -/
  inner : ∀ enabled ∈ core.running.flags.dropLast, enabled = false
  fits : core.running.flags.length * guardBytes ≤ 2 ^ 64
  entered : core.running.point = .loadLocked ∨ core.running.point = .addDepth →
    0 < core.running.nesting
  outermost : core.running.point = .spin ∨ core.running.point = .storeOwner ∨
    core.running.point = .storeDepth ∨ core.running.point = .clearOwner ∨
    core.running.point = .clearLocked → core.running.nesting = 0

@[simp] theorem Context.nesting_idle : Context.idle.nesting = 0 := rfl

theorem Context.not_holds_idle : ¬ Context.idle.Holds := by decide

variable {core : Core}

theorem Core.Guarded.nesting_eq (h : core.Guarded) : core.nesting = core.running.nesting := by
  have hzero : (core.suspended.map Context.nesting).sum = 0 := by
    apply List.sum_eq_zero
    intro n hn
    obtain ⟨x, hx, rfl⟩ := List.mem_map.mp hn
    rw [h.suspended x hx, Context.nesting_idle]
  simp only [Core.nesting, List.map_cons, List.sum_cons, hzero, Nat.add_zero]

theorem Core.Guarded.holds_iff (h : core.Guarded) : core.Holds ↔ core.running.Holds := by
  constructor
  · rintro ⟨x, hx, hholds⟩
    rcases List.mem_cons.mp hx with rfl | hx
    · exact hholds
    · rw [h.suspended x hx] at hholds
      exact absurd hholds Context.not_holds_idle
  · intro hholds
    exact ⟨core.running, List.mem_cons_self, hholds⟩

/-- What a CPU may rely on about the lock, whatever the others do. -/
structure Sees (cpu : Nat) (x : Context) (l : ReentrantSpinLock) : Prop where
  held : x.Holds → l = x.view cpu
  foreign : ¬ x.Holds → l.owner ≠ cpu
  free : l.locked = false → l = .new

/-- What a turn of one CPU can do to the lock. -/
inductive Moves (cpu : Nat) (x : Context) (l : ReentrantSpinLock) (x' : Context)
    (l' : ReentrantSpinLock) : Prop where
  | keeps (before : ¬ x.Holds) (after : ¬ x'.Holds) (same : l' = l)
  | acquires (before : ¬ x.Holds) (free : l = .new) (after : x'.Holds) (taken : l' = x'.view cpu)
  | within (before : x.Holds) (after : x'.Holds) (kept : l' = x'.view cpu)
  | releases (before : x.Holds) (after : ¬ x'.Holds) (freed : l' = .new)

section Turn

variable {κ : Type} {cpu : Nat} {core core' : Core} {l l' : ReentrantSpinLock}

attribute [local simp] Context.Holds Context.nesting Context.view

/-- A turn that touches neither the lock nor whether the CPU holds it, nor what its point says
about the lock. -/
theorem Moves.stay {x x' : Context} (hsees : Sees cpu x l) (hholds : x'.Holds ↔ x.Holds)
    (hview : x.Holds → x'.view cpu = x.view cpu) : Moves cpu x l x' l := by
  by_cases h : x.Holds
  · exact .within h (hholds.mpr h) ((hsees.held h).trans (hview h).symm)
  · exact .keeps h (mt hholds.mp h) rfl

variable {c : κ}

theorem guard_moves (hcore : core.Guarded) (hsees : Sees cpu core.running l)
    (h : turn cpu core l (.guard c) = some (core', l')) :
    core'.Guarded ∧ Moves cpu core.running l core'.running l' := by
  obtain ⟨⟨point, flags⟩, suspended, interrupts⟩ := core
  simp only [turn, Option.ite_none_right_eq_some, Option.some.injEq, Prod.mk.injEq] at h
  obtain ⟨⟨rfl, hfits⟩, rfl, rfl⟩ := h
  constructor
  · refine ⟨hcore.suspended, fun _ => rfl, fun _ => List.cons_ne_nil _ _, ?_, hfits, by simp,
      by simp⟩
    cases flags with
    | nil => simp
    | cons saved outer =>
      have hmasked := hcore.masked (by simp [Context.idle])
      rw [List.dropLast_cons_of_ne_nil (List.cons_ne_nil _ _)]
      exact List.forall_mem_cons.mpr ⟨hmasked, hcore.inner⟩
  · apply Moves.stay hsees
    · simp
    · intro _
      simp

theorem drop_moves (hcore : core.Guarded) (hsees : Sees cpu core.running l)
    (h : turn cpu core l (.drop c) = some (core', l')) :
    core'.Guarded ∧ Moves cpu core.running l core'.running l' := by
  obtain ⟨⟨point, flags⟩, suspended, interrupts⟩ := core
  simp only [turn, Option.ite_none_right_eq_some, Option.some.injEq, Prod.mk.injEq] at h
  obtain ⟨⟨rfl, hflags⟩, rfl, rfl⟩ := h
  constructor
  · refine ⟨hcore.suspended, fun _ => hcore.masked ?_, fun _ => hflags, hcore.inner,
      hcore.fits, by simp, by simp⟩
    simpa [Context.idle] using hflags
  · apply Moves.stay hsees
    · simp
    · intro _
      simp

/-- Inside the lock's code the guards stay and interrupts stay off. -/
theorem Core.Guarded.atPoint (h : core.Guarded) (hflags : core.running.flags ≠ []) {p : Point}
    (entered : p = .loadLocked ∨ p = .addDepth → 0 < core.running.flags.length - 1)
    (outermost : p = .spin ∨ p = .storeOwner ∨ p = .storeDepth ∨ p = .clearOwner ∨
      p = .clearLocked → core.running.flags.length - 1 = 0) :
    Core.Guarded { core with running := { core.running with point := p } } where
  suspended := h.suspended
  masked := fun _ => h.masked fun hidle => hflags (congrArg Context.flags hidle)
  saved := fun _ => hflags
  inner := h.inner
  fits := h.fits
  entered := by
    rintro (rfl | rfl)
    · exact entered (.inl rfl)
    · exact entered (.inr rfl)
  outermost := by
    rintro (rfl | rfl | rfl | rfl | rfl) <;> exact outermost (by simp)

/-- The step lemma: one case per program point. -/
theorem atomic_moves {point : Point} {flags : List Bool} {fails : Bool}
    (hrunning : core.running = ⟨point, flags⟩) (hcore : core.Guarded)
    (hsees : Sees cpu core.running l) (h : atomic cpu fails point l = (l', point')) :
    Core.Guarded { core with running := ⟨point', flags⟩ } ∧
      Moves cpu core.running l ⟨point', flags⟩ l' := by
  obtain ⟨running, suspended, interrupts⟩ := core
  cases hrunning
  -- Outside the lock's code nothing happens; elsewhere there is an innermost guard.
  by_cases hrest : point = .rest
  · subst hrest
    cases h
    exact ⟨hcore, .stay hsees Iff.rfl fun _ => rfl⟩
  obtain ⟨saved, outer, rfl⟩ := List.exists_cons_of_ne_nil (hcore.saved hrest)
  have hfits : outer.length + 1 < 2 ^ 64 := by
    have := hcore.fits
    simp only [List.length_cons, guardBytes] at this
    omega
  have hguards := fun (p : Point) => hcore.atPoint (List.cons_ne_nil saved outer) (p := p)
  simp only [List.length_cons, Nat.add_sub_cancel] at hguards
  have hentered := hcore.entered
  have houtermost := hcore.outermost
  simp only [Context.nesting, List.length_cons, Nat.add_sub_cancel] at hentered houtermost
  cases point with
  | rest => exact absurd rfl hrest
  | loadOwner =>
    cases h
    have hown : l.owner = cpu ↔ 0 < outer.length := by
      constructor
      · intro howner
        have hholds := not_not.mp fun hnot => hsees.foreign hnot howner
        simpa using hholds
      · intro hpos
        have hlock := hsees.held (.inl (by simpa using hpos))
        simp [hlock]
    split
    next howner =>
      refine ⟨hguards .loadLocked (fun _ => hown.mp howner) (by simp), .stay hsees ?_ ?_⟩
      · simp
      · simp
    next hnot =>
      have hzero : outer.length = 0 := by omega
      refine ⟨hguards .spin (by simp) (fun _ => hzero), .stay hsees ?_ ?_⟩
      · simp
      · simp
  | loadLocked =>
    cases h
    have hpos := hentered (.inl rfl)
    have hlock := hsees.held (.inl hpos)
    rw [if_pos (by rw [hlock]; rfl)]
    refine ⟨hguards .addDepth (fun _ => hpos) (by simp), .stay hsees ?_ ?_⟩
    · simp
    · simp
  | addDepth =>
    cases h
    have hheld : Context.Holds ⟨.addDepth, saved :: outer⟩ := .inl (hentered (.inr rfl))
    refine ⟨hguards .rest (by simp) (by simp), .within hheld (.inl (Nat.succ_pos _)) ?_⟩
    rw [hsees.held hheld]
    simpa using hfits
  | spin =>
    have hzero := houtermost (.inl rfl)
    have hnot : ¬ Context.Holds ⟨.spin, saved :: outer⟩ := by
      simp [hzero]
    simp only [atomic] at h
    split at h
    next =>
      cases h
      exact ⟨hcore, .keeps hnot hnot rfl⟩
    next hopen =>
      cases h
      have hnew : l = .new := hsees.free (by simp_all)
      refine ⟨hguards .storeOwner (by simp) (fun _ => hzero),
        .acquires hnot hnew (by simp) ?_⟩
      simp [hnew, new, hzero]
  | storeOwner =>
    cases h
    have hzero := houtermost (by simp)
    have hheld : Context.Holds ⟨.storeOwner, saved :: outer⟩ := by simp
    refine ⟨hguards .storeDepth (by simp) (fun _ => hzero),
      .within hheld (by simp) ?_⟩
    rw [hsees.held hheld]
    simp
  | storeDepth =>
    cases h
    have hzero := houtermost (by simp)
    have hheld : Context.Holds ⟨.storeDepth, saved :: outer⟩ := by simp
    refine ⟨hguards .rest (by simp) (by simp), .within hheld (.inl (Nat.succ_pos _)) ?_⟩
    rw [hsees.held hheld]
    simp [hzero]
  | subDepth =>
    cases h
    have hheld : Context.Holds ⟨.subDepth, saved :: outer⟩ := .inl (Nat.succ_pos _)
    have hdepth : l.depth = outer.length + 1 := congrArg depth (hsees.held hheld)
    have hless : (l.depth + (2 ^ 64 - 1)) % 2 ^ 64 = outer.length := by omega
    rw [hless]
    split
    next hone =>
      have hzero : outer.length = 0 := by omega
      refine ⟨hguards .clearOwner (by simp) (fun _ => hzero),
        .within hheld (by simp) ?_⟩
      rw [hsees.held hheld]
      simp
    next hmore =>
      have hpos : 0 < outer.length := by omega
      refine ⟨hguards .restoreFlags (by simp) (by simp), .within hheld (.inl hpos) ?_⟩
      rw [hsees.held hheld]
      simp
  | clearOwner =>
    cases h
    have hzero := houtermost (by simp)
    have hheld : Context.Holds ⟨.clearOwner, saved :: outer⟩ := by simp
    refine ⟨hguards .clearLocked (by simp) (fun _ => hzero),
      .within hheld (by simp) ?_⟩
    rw [hsees.held hheld]
    simp
  | clearLocked =>
    cases h
    have hzero := houtermost (by simp)
    have hheld : Context.Holds ⟨.clearLocked, saved :: outer⟩ := by simp
    have hfreed : ¬ Context.Holds ⟨.restoreFlags, saved :: outer⟩ := by
      simp [hzero]
    refine ⟨hguards .restoreFlags (by simp) (by simp), .releases hheld hfreed ?_⟩
    rw [hsees.held hheld]
    simp [hzero, new]
  | restoreFlags =>
    cases h
    exact ⟨hcore, .stay hsees Iff.rfl fun _ => rfl⟩

theorem restore_moves (hcore : core.Guarded) (hsees : Sees cpu core.running l)
    (h : turn cpu core l (.restore c) = some (core', l')) :
    core'.Guarded ∧ Moves cpu core.running l core'.running l' := by
  obtain ⟨⟨point, flags⟩, suspended, interrupts⟩ := core
  simp only [turn] at h
  split at h
  next saved outer hrunning =>
    cases hrunning
    cases h
    constructor
    · refine ⟨hcore.suspended, ?_, by simp, ?_, ?_, by simp, by simp⟩
      · intro hrunning
        have houter : outer ≠ [] := by simpa [Context.idle] using hrunning
        exact hcore.inner saved (by simp [List.dropLast_cons_of_ne_nil houter])
      · intro enabled hmem
        have houter : outer ≠ [] := List.ne_nil_of_mem (List.dropLast_subset _ hmem)
        exact hcore.inner enabled (by simp [List.dropLast_cons_of_ne_nil houter, hmem])
      · have := hcore.fits
        simp only [List.length_cons, guardBytes] at this ⊢
        omega
    · apply Moves.stay hsees
      · simp
      · simp
  next => cases h

theorem Core.Guarded.switch {x : Context} {suspended : List Context} {interrupts : Bool}
    (hidle : x = .idle) (hsuspended : ∀ x ∈ suspended, x = .idle) :
    Core.Guarded ⟨x, suspended, interrupts⟩ := by
  subst hidle
  exact ⟨hsuspended, fun h => absurd rfl h, by simp [Context.idle], by simp [Context.idle],
    by simp [Context.idle], by simp [Context.idle], by simp [Context.idle]⟩

theorem Core.Guarded.idle_of_interrupts (h : core.Guarded) (henabled : core.interrupts = true) :
    core.running = .idle := by
  by_contra hbusy
  rw [h.masked hbusy] at henabled
  cases henabled

/-- Interrupts only arrive outside every guard, so a handler starts from an idle context and
returns to one. -/
theorem interrupt_moves (hcore : core.Guarded) (hsees : Sees cpu core.running l)
    (h : turn cpu core l (.interrupt c) = some (core', l')) :
    core'.Guarded ∧ Moves cpu core.running l core'.running l' := by
  simp only [turn, Option.ite_none_right_eq_some, Option.some.injEq, Prod.mk.injEq] at h
  obtain ⟨henabled, rfl, rfl⟩ := h
  have hidle := hcore.idle_of_interrupts henabled
  constructor
  · exact .switch rfl (List.forall_mem_cons.mpr ⟨hidle, hcore.suspended⟩)
  · rw [hidle] at hsees ⊢
    exact .stay hsees Iff.rfl fun _ => rfl

theorem iret_moves (hcore : core.Guarded) (hsees : Sees cpu core.running l)
    (h : turn cpu core l (.iret c) = some (core', l')) :
    core'.Guarded ∧ Moves cpu core.running l core'.running l' := by
  obtain ⟨running, suspended, interrupts⟩ := core
  cases suspended with
  | nil => cases h
  | cons x rest =>
    simp only [turn, Option.ite_none_right_eq_some, Option.some.injEq, Prod.mk.injEq] at h
    obtain ⟨hrunning, rfl, rfl⟩ := h
    obtain ⟨hx, hrest⟩ := List.forall_mem_cons.mp hcore.suspended
    refine ⟨.switch hx hrest, ?_⟩
    cases hrunning
    cases hx
    exact .stay hsees Iff.rfl fun _ => rfl

/-- What one turn of a CPU does. -/
theorem turn_moves {e : Event κ} (hcore : core.Guarded) (hsees : Sees cpu core.running l)
    (h : turn cpu core l e = some (core', l')) :
    core'.Guarded ∧ Moves cpu core.running l core'.running l' := by
  cases e with
  | guard c => exact guard_moves hcore hsees h
  | drop c => exact drop_moves hcore hsees h
  | atomic c fails =>
    cases h
    exact atomic_moves rfl hcore hsees rfl
  | restore c => exact restore_moves hcore hsees h
  | interrupt c => exact interrupt_moves hcore hsees h
  | iret c => exact iret_moves hcore hsees h
  | setInterrupts c enabled =>
    simp only [turn, Option.ite_none_right_eq_some, Option.some.injEq, Prod.mk.injEq] at h
    obtain ⟨hidle, rfl, rfl⟩ := h
    exact ⟨.switch hidle hcore.suspended, .stay hsees Iff.rfl fun _ => rfl⟩

end Turn

/-! All CPUs together. -/

section Machine

variable {κ : Type} {cpus : Indexing κ} {m m' : Machine κ}

/-- The invariant: the lock is what its only holder sees, or new. -/
structure Machine.Sound (cpus : Indexing κ) (m : Machine κ) : Prop where
  guarded : ∀ c, (m.cores c).Guarded
  unique : ∀ c d, (m.cores c).running.Holds → (m.cores d).running.Holds → c = d
  held : ∀ c, (m.cores c).running.Holds → m.lock = (m.cores c).running.view (cpus.index c)
  free : (∀ c, ¬ (m.cores c).running.Holds) → m.lock = .new

theorem Machine.sound_boot : (Machine.boot : Machine κ).Sound cpus where
  guarded := fun _ => .switch rfl (by simp)
  unique := fun _ _ h => absurd h Context.not_holds_idle
  held := fun _ h => absurd h Context.not_holds_idle
  free := fun _ => rfl

theorem Machine.Sound.sees (h : m.Sound cpus) (c : κ) :
    Sees (cpus.index c) (m.cores c).running m.lock where
  held := h.held c
  foreign := by
    intro hnot
    by_cases hsome : ∃ d, (m.cores d).running.Holds
    · obtain ⟨d, hd⟩ := hsome
      rw [h.held d hd, Context.view]
      split
      · exact (cpus.unmarked c).symm
      · intro heq
        exact hnot (cpus.distinct d c heq ▸ hd)
    · rw [h.free (not_exists.mp hsome)]
      exact (cpus.unmarked c).symm
  free := by
    intro hopen
    apply h.free
    intro d hd
    rw [h.held d hd] at hopen
    cases hopen

/-- A machine with at most one holder is sound if the lock is what that holder sees. -/
theorem Machine.sound_of_only {c : κ} (hguarded : ∀ d, (m.cores d).Guarded)
    (hothers : ∀ d, d ≠ c → ¬ (m.cores d).running.Holds)
    (hheld : (m.cores c).running.Holds → m.lock = (m.cores c).running.view (cpus.index c))
    (hfree : ¬ (m.cores c).running.Holds → m.lock = .new) : m.Sound cpus where
  guarded := hguarded
  unique := by
    intro d d' hd hd'
    have hc := not_not.mp fun hne => hothers d hne hd
    exact hc.trans (not_not.mp fun hne => hothers d' hne hd').symm
  held := by
    intro d hd
    obtain rfl := not_not.mp fun hne => hothers d hne hd
    exact hheld hd
  free := fun hnone => hfree (hnone c)

section Update

variable [DecidableEq κ]

theorem Machine.Sound.guarded_update (h : m.Sound cpus) {c : κ} {core : Core}
    (hcore : core.Guarded) (d : κ) : (Function.update m.cores c core d).Guarded := by
  by_cases hd : d = c
  · subst hd
    rwa [Function.update_self]
  · rw [Function.update_of_ne hd]
    exact h.guarded d

/-- A turn of one CPU keeps the invariant of all. -/
theorem Machine.Sound.update (h : m.Sound cpus) {c : κ} {core : Core}
    {l : ReentrantSpinLock} (hcore : core.Guarded)
    (hmoves : Moves (cpus.index c) (m.cores c).running m.lock core.running l) :
    Machine.Sound cpus ⟨l, Function.update m.cores c core⟩ := by
  -- Unless the turn changes nothing for the others, no other CPU holds the lock.
  have hsole (hothers : ∀ d, d ≠ c → ¬ (m.cores d).running.Holds)
      (hheld : core.running.Holds → l = core.running.view (cpus.index c))
      (hfree : ¬ core.running.Holds → l = .new) :
      Machine.Sound cpus ⟨l, Function.update m.cores c core⟩ := by
    apply Machine.sound_of_only (h.guarded_update hcore)
    · intro d hd
      dsimp only
      rw [Function.update_of_ne hd]
      exact hothers d hd
    · dsimp only
      rwa [Function.update_self]
    · dsimp only
      rwa [Function.update_self]
  cases hmoves with
  | keeps before after same =>
    subst same
    have hholds (d : κ) : (Function.update m.cores c core d).running.Holds →
        (m.cores d).running.Holds ∧ Function.update m.cores c core d = m.cores d := by
      intro hd
      by_cases hdc : d = c
      · subst hdc
        rw [Function.update_self] at hd
        exact absurd hd after
      · rw [Function.update_of_ne hdc] at hd ⊢
        exact ⟨hd, rfl⟩
    refine ⟨h.guarded_update hcore, ?_, ?_, ?_⟩
    · intro d d' hd hd'
      exact h.unique d d' (hholds d hd).1 (hholds d' hd').1
    · intro d hd
      dsimp only
      rw [(hholds d hd).2]
      exact h.held d (hholds d hd).1
    · intro hnone
      apply h.free
      intro d hd
      have hdc : d ≠ c := fun heq => before (heq ▸ hd)
      apply hnone d
      dsimp only
      rwa [Function.update_of_ne hdc]
  | acquires before free after taken =>
    apply hsole
    · intro d _ hd
      have hlocked := h.held d hd
      rw [free] at hlocked
      cases congrArg locked hlocked
    · exact fun _ => taken
    · exact fun hnot => absurd after hnot
  | within before after kept =>
    apply hsole
    · intro d hne hd
      exact hne (h.unique d c hd before)
    · exact fun _ => kept
    · exact fun hnot => absurd after hnot
  | releases before after freed =>
    apply hsole
    · intro d hne hd
      exact hne (h.unique d c hd before)
    · exact fun hholds => absurd hholds after
    · exact fun _ => freed

theorem Machine.Sound.step (h : m.Sound cpus) {e : Event κ} (hstep : m.step cpus e = some m') :
    m'.Sound cpus := by
  obtain ⟨⟨core, l⟩, hturn, rfl⟩ := Option.map_eq_some_iff.mp hstep
  obtain ⟨hcore, hmoves⟩ := turn_moves (h.guarded e.cpu) (h.sees e.cpu) hturn
  exact h.update hcore hmoves

/-- Every interleaving of the CPUs' atomic operations: the invariant holds throughout. -/
theorem Machine.sound_run {es : List (Event κ)}
    (run : Lib.Run (fun m e m' => Machine.step cpus m e = some m') .boot es m) : m.Sound cpus :=
  run.preserves (fun _ _ _ h hstep => h.step hstep) sound_boot

/-- Mutual exclusion, in every state of every interleaving. At most one CPU is between its
outermost acquire and release, which includes all code it runs under its guards; the depth is
that CPU's nesting level; and the lock is free exactly while there is no such CPU. -/
theorem reentrantLock_excludes {es : List (Event κ)}
    (run : Lib.Run (fun m e m' => Machine.step cpus m e = some m') .boot es m) :
    (∀ c d, (m.cores c).Holds → (m.cores d).Holds → c = d) ∧
      (∀ c, (m.cores c).Holds → m.lock.depth = (m.cores c).nesting) ∧
      (m.lock.locked = false ∧ m.lock.owner = usizeMax ↔ ∀ c, ¬ (m.cores c).Holds) := by
  have h := Machine.sound_run run
  have hholds (c : κ) : (m.cores c).Holds → (m.cores c).running.Holds :=
    (h.guarded c).holds_iff.mp
  refine ⟨?_, ?_, ?_, ?_⟩
  · intro c d hc hd
    exact h.unique c d (hholds c hc) (hholds d hd)
  · intro c hc
    rw [h.held c (hholds c hc), (h.guarded c).nesting_eq]
    rfl
  · rintro ⟨hopen, -⟩ c hc
    rw [h.held c (hholds c hc)] at hopen
    cases hopen
  · intro hnone
    rw [h.free fun c hc => hnone c ((h.guarded c).holds_iff.mpr hc)]
    exact ⟨rfl, rfl⟩

end Update

/-- Two CPUs that contend: the first takes the lock twice while the second spins. -/
def contending : List (Event (Fin 2)) :=
  [.guard 0, .guard 1, .atomic 0 false, .atomic 1 false, .atomic 0 true, .atomic 0 false,
    .atomic 1 false, .atomic 0 false, .atomic 0 false, .guard 0, .atomic 0 false,
    .atomic 0 false, .atomic 0 false, .atomic 1 false]

def twoCpus : Indexing (Fin 2) := ⟨Fin.val, fun _ _ => Fin.ext, by decide⟩

theorem reentrantLock_excludes_contending :
    ∃ m, Lib.Run (fun m e m' => Machine.step twoCpus m e = some m') .boot contending m ∧
      m.lock = ⟨true, 0, 2⟩ ∧ (m.cores 1).running.point = .spin ∧
      (∀ c d, (m.cores c).Holds → (m.cores d).Holds → c = d) ∧
      ¬ (m.lock.locked = false ∧ m.lock.owner = usizeMax) := by
  have hrun : ∃ m, contending.foldlM (Machine.step twoCpus) .boot = some m ∧
      m.lock = ⟨true, 0, 2⟩ ∧ (m.cores 1).running.point = .spin := ⟨_, rfl, rfl, rfl⟩
  obtain ⟨m, hrun, hlock, hspin⟩ := hrun
  have hrun := Lib.Run.of_foldlM hrun
  obtain ⟨hunique, -, -⟩ := reentrantLock_excludes hrun
  exact ⟨m, hrun, hlock, hspin, hunique, by rw [hlock]; decide⟩

end Machine

end ReentrantSpinLock

end KazuOS
