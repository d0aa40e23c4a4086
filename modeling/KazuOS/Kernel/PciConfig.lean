import KazuOS.Lib.Interleaving
import Mathlib.Algebra.Order.Group.Nat

/-! PCI configuration space. One port names a dword and another moves it, so that an access
takes two steps, and an access of another CPU between them would be misled. -/
namespace KazuOS.Kernel.PciConfig

open KazuOS.Lib Function

/-- A dword of the configuration space of a function. -/
structure Register where
  bus : Nat
  device : Nat
  function : Nat
  dword : Nat
  deriving DecidableEq, Repr

/-- A call of `read_u32`, or of `write_u32` with the value. -/
structure Access where
  bus : Fin 256
  device : Fin 256
  function : Fin 256
  offset : Fin 256
  value : Option (BitVec 32)
  deriving DecidableEq, Repr

def Access.configAddress (a : Access) : Nat :=
  (1 <<< 31) ||| (a.bus.val <<< 16) ||| (a.device.val <<< 11) ||| (a.function.val <<< 8) |||
    (a.offset.val &&& 0xFC)

/-- The fields of `CONFIG_ADDRESS`, as the host bridge reads them. -/
def decode (address : Nat) : Register :=
  ⟨address / 2 ^ 16 % 256, address / 2 ^ 11 % 32, address / 2 ^ 8 % 8, address / 4 % 64⟩

def Access.register (a : Access) : Register := decode a.configAddress

theorem and_dword_mask (o : Fin 256) : o.val &&& 0xFC = 4 * (o.val / 4) := by
  decide +revert +kernel

theorem configAddress_eq {a : Access} (hdevice : a.device.val < 32) (hfunction : a.function.val < 8) :
    a.configAddress = 2 ^ 31 + (2 ^ 16 * a.bus.val + (2 ^ 11 * a.device.val +
      (2 ^ 8 * a.function.val + 4 * (a.offset.val / 4)))) := by
  have hbus := a.bus.isLt
  have hoffset := a.offset.isLt
  -- the fields do not overlap, from the lowest up
  have hfields : ∀ {b i : Nat} (x : Nat), b < 2 ^ i → x <<< i ||| b = 2 ^ i * x + b := by
    intro b i x hb
    rw [← Nat.shiftLeft_add_eq_or_of_lt hb, Nat.shiftLeft_eq, Nat.mul_comm]
  rw [Access.configAddress, and_dword_mask, Nat.or_assoc, Nat.or_assoc, Nat.or_assoc,
    hfields a.function.val (by omega), hfields a.device.val (by omega),
    hfields a.bus.val (by omega), hfields 1 (by omega), Nat.mul_one]

/-- A call reaches the function that it names exactly if the numbers fit their fields. -/
theorem access_reaches_iff (a : Access) :
    a.register = ⟨a.bus, a.device, a.function, a.offset / 4⟩ ↔
      a.device.val < 32 ∧ a.function.val < 8 := by
  have hbus := a.bus.isLt
  have hoffset := a.offset.isLt
  constructor
  · intro h
    simp only [Access.register, decode, Register.mk.injEq] at h
    omega
  · rintro ⟨hdevice, hfunction⟩
    rw [Access.register, configAddress_eq hdevice hfunction]
    simp only [decode, Register.mk.injEq]
    omega

/-- What a device leaves of a write in a dword: the register, its old value and the one written. -/
abbrev Devices := Register → BitVec 32 → BitVec 32 → BitVec 32

/-- An access to a dword: its result, and the space behind it. -/
def Access.perform (a : Access) (devices : Devices) (r : Register) (space : Register → BitVec 32) :
    BitVec 32 × (Register → BitVec 32) :=
  match a.value with
  | none => (space r, space)
  | some value => (0, update space r (devices r (space r) value))

/-! Each access in one step somewhere between its call and its return. -/

inductive Stage where
  | idle
  | pending (a : Access)
  | answered (result : BitVec 32)

structure Registers where
  space : Register → BitVec 32
  cpus : Nat → Stage

inductive Action where
  | call (cpu : Nat) (a : Access)
  | perform (cpu : Nat)
  | answer (cpu : Nat) (result : BitVec 32)

inductive Registers.Step (devices : Devices) : Registers → Action → Registers → Prop where
  | call {s : Registers} {c} (a) (h : s.cpus c = .idle) :
      Step devices s (.call c a) { s with cpus := update s.cpus c (.pending a) }
  | perform {s : Registers} {c a} (h : s.cpus c = .pending a) :
      Step devices s (.perform c) ⟨(a.perform devices a.register s.space).2,
        update s.cpus c (.answered (a.perform devices a.register s.space).1)⟩
  | answer {s : Registers} {c result} (h : s.cpus c = .answered result) :
      Step devices s (.answer c result) { s with cpus := update s.cpus c .idle }

/-! The code. -/

/-- The next instruction of a CPU in `read_u32` or `write_u32`, with interrupts off. -/
inductive Point where
  | rest
  | lock (a : Access)
  | outAddress (a : Access)
  | data (a : Access)
  | unlock (result : BitVec 32)

structure Ports where
  locked : Bool
  /-- What `CONFIG_ADDRESS` holds. -/
  address : Nat
  space : Register → BitVec 32
  cpus : Nat → Point

/-- One instruction of a CPU, with its label if it shows in the registers or to the caller. A turn
of the lock's loop that fails changes nothing. -/
inductive Ports.Step (devices : Devices) : Ports → Option Action → Ports → Prop where
  | call {s : Ports} {c} (a) (h : s.cpus c = .rest) :
      Step devices s (some (.call c a)) { s with cpus := update s.cpus c (.lock a) }
  | take {s : Ports} {c a} (h : s.cpus c = .lock a) (hfree : s.locked = false) :
      Step devices s none { s with locked := true, cpus := update s.cpus c (.outAddress a) }
  | outAddress {s : Ports} {c a} (h : s.cpus c = .outAddress a) :
      Step devices s none
        { s with address := a.configAddress, cpus := update s.cpus c (.data a) }
  | data {s : Ports} {c a} (h : s.cpus c = .data a) :
      Step devices s (some (.perform c))
        { s with
          space := (a.perform devices (decode s.address) s.space).2
          cpus := update s.cpus c (.unlock (a.perform devices (decode s.address) s.space).1) }
  | unlock {s : Ports} {c result} (h : s.cpus c = .unlock result) :
      Step devices s (some (.answer c result))
        { s with locked := false, cpus := update s.cpus c .rest }

def Ports.boot (space : Register → BitVec 32) : Ports := ⟨false, 0, space, fun _ => .rest⟩

def Point.stage : Point → Stage
  | .rest => .idle
  | .lock a | .outAddress a | .data a => .pending a
  | .unlock result => .answered result

def Ports.registers (s : Ports) : Registers := ⟨s.space, fun c => (s.cpus c).stage⟩

def Point.Inside : Point → Prop
  | .rest | .lock _ => False
  | _ => True

/-- The lock is held between the ports, and the address port then has the holder's address. -/
structure Ports.Ordered (s : Ports) : Prop where
  exclusive : Exclusive s.locked fun c => (s.cpus c).Inside
  addressed : ∀ c a, s.cpus c = .data a → s.address = a.configAddress

theorem stage_update (cpus : Nat → Point) (c : Nat) (p : Point) :
    (fun d => (update cpus c p d).stage) = update (fun d => (cpus d).stage) c p.stage :=
  funext fun d => apply_update (fun _ => Point.stage) cpus c p d

theorem ordered_boot (space : Register → BitVec 32) : (Ports.boot space).Ordered :=
  ⟨⟨fun _ h => h.elim, fun _ _ h => h.elim⟩, fun _ _ h => Point.noConfusion h⟩

variable {devices : Devices} {s t : Ports}

theorem Ports.Ordered.step {label : Option Action} (h : s.Ordered)
    (hstep : s.Step devices label t) : t.Ordered := by
  have haddressed : ∀ {c : Nat} {p : Point}, (∀ a, p ≠ .data a) →
      ∀ d a, update s.cpus c p d = .data a → s.address = a.configAddress := by
    intro c p hp d a hd
    obtain hd | hd := of_update (P := (· = Point.data a)) hd
    · exact absurd hd.2 (hp a)
    · exact h.addressed d a hd.2
  cases hstep with
  | call a hc => exact ⟨h.exclusive.move fun hin => hin.elim, haddressed (by simp)⟩
  | @take c a hc hfree =>
    exact ⟨(hfree ▸ h.exclusive).acquire c (.outAddress a), haddressed (by simp)⟩
  | @outAddress c a hc =>
    have hin : (s.cpus c).Inside := by rw [hc]; trivial
    refine ⟨h.exclusive.move fun _ => hin, fun d b hd => ?_⟩
    obtain ⟨-, hd⟩ | ⟨hne, hd⟩ := of_update (P := (· = Point.data b)) hd
    · cases hd
      rfl
    · -- a second CPU at the data port would be inside as well
      exact absurd (h.exclusive.unique d c (by rw [hd]; trivial) hin) hne
  | data hc => exact ⟨h.exclusive.move fun _ => by rw [hc]; trivial, haddressed (by simp)⟩
  | unlock hc => exact ⟨h.exclusive.release (by rw [hc]; trivial) id, haddressed (by simp)⟩

theorem registers_of_hidden (hstep : s.Step devices none t) : t.registers = s.registers := by
  have hsame : ∀ {c : Nat} {p : Point}, p.stage = (s.cpus c).stage →
      (fun d => (update s.cpus c p d).stage) = fun d => (s.cpus d).stage := by
    intro c p hp
    rw [stage_update, hp, update_eq_self]
  cases hstep with
  | take hc | outAddress hc =>
    have hstage := congrArg Point.stage hc
    exact congrArg (Registers.mk s.space) (hsame hstage.symm)

/-- At the data port an access happens as a whole. -/
theorem registers_step {action : Action} (h : s.Ordered) (hstep : s.Step devices (some action) t) :
    Registers.Step devices s.registers action t.registers := by
  have hstage : ∀ {c : Nat} {p : Point}, s.cpus c = p → s.registers.cpus c = p.stage :=
    fun hc => congrArg Point.stage hc
  cases hstep with
  | call a hc =>
    simp only [Ports.registers, stage_update]
    exact .call a (hstage hc)
  | data hc =>
    have hdecode : decode s.address = _ := congrArg decode (h.addressed _ _ hc)
    simp only [Ports.registers, stage_update, hdecode]
    exact .perform (hstage hc)
  | unlock hc =>
    simp only [Ports.registers, stage_update]
    exact .answer (hstage hc)

/-- Whatever the order in which the CPUs run, configuration space behaves as if each call of
`read_u32` and `write_u32` were one step between its call and its return. -/
theorem config_accesses_atomic {space : Register → BitVec 32} {labels : List (Option Action)}
    (run : Run (Ports.Step devices) (Ports.boot space) labels s) :
    Run (Registers.Step devices) ⟨space, fun _ => .idle⟩ (labels.filterMap id) s.registers := by
  have hboot : (Ports.boot space).registers = ⟨space, fun _ => .idle⟩ := rfl
  rw [← hboot]
  refine run.simulates (I := Ports.Ordered) ?_ ?_ ?_ (ordered_boot space)
  · exact fun _ _ _ hs hstep => hs.step hstep
  · rintro _ _ _ _ hstep rfl
    exact registers_of_hidden hstep
  · rintro _ _ _ _ hs hstep rfl
    exact registers_step hs hstep

theorem config_accesses_atomic_contended :
    let a : Access := ⟨0, 31, 3, 0x40, some 1⟩
    ∃ s : Ports, s.space ⟨0, 31, 3, 0x10⟩ = 1 ∧ s.cpus 1 = .lock a ∧
      Run (Registers.Step fun _ _ value => value) ⟨fun _ => 0, fun _ => .idle⟩
        [.call 0 a, .call 1 a, .perform 0, .answer 0 0] s.registers := by
  intro a
  have run : Run (Ports.Step fun _ _ value => value) (Ports.boot fun _ => 0)
      [some (.call 0 a), some (.call 1 a), none, none, some (.perform 0), some (.answer 0 0)] _ :=
    .cons (.call a rfl) (.cons (.call a rfl) (.cons (.take (c := 0) rfl rfl)
      (.cons (.outAddress (c := 0) rfl) (.cons (.data rfl) (.cons (.unlock rfl) (.nil _))))))
  exact ⟨_, by decide, rfl, config_accesses_atomic run⟩

end KazuOS.Kernel.PciConfig
