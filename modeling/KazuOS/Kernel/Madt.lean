import KazuOS.Kernel.Smp

/-! The route of the keyboard. The firmware's table may move an ISA interrupt to another input of
the I/O APIC. The scan of the table keeps one such entry, the last it meets, and looks whose it is
afterwards. -/
namespace KazuOS.Kernel

open KazuOS.Lib

structure IoApicInfo where
  id : UInt8
  addr : Nat
  globalIrqBase : Nat
  deriving DecidableEq, Repr

structure IrqOverride where
  busIrq : UInt8
  globalIrq : Nat
  flags : Nat
  deriving DecidableEq, Repr

structure InterruptConfig where
  ioapic : Option IoApicInfo
  irqOverride : Option IrqOverride
  bspApicId : UInt8
  deriving DecidableEq, Repr

/-- The id of the enabled local APIC of processor 0, if the entry at `ptr` is one. -/
def bspLapic (mem : Nat → UInt8) (ptr : Nat) : Option UInt8 :=
  if mem (ptr + 2) = 0 then enabledLapic mem ptr else none

def ioApicEntry (mem : Nat → UInt8) (ptr : Nat) : Option IoApicInfo :=
  if mem ptr = 1 ∧ 12 ≤ (mem (ptr + 1)).toNat then
    some ⟨mem (ptr + 2), readPhys mem (ptr + 4) 4, readPhys mem (ptr + 8) 4⟩
  else none

def overrideEntry (mem : Nat → UInt8) (ptr : Nat) : Option IrqOverride :=
  if mem ptr = 2 ∧ 10 ≤ (mem (ptr + 1)).toNat then
    some ⟨mem (ptr + 3), readPhys mem (ptr + 4) 4, readPhys mem (ptr + 8) 2⟩
  else none

/-- What an entry leaves of the configuration read before it. -/
def InterruptConfig.read (mem : Nat → UInt8) (ptr : Nat) (config : InterruptConfig) :
    InterruptConfig where
  ioapic := (ioApicEntry mem ptr).or config.ioapic
  irqOverride := (overrideEntry mem ptr).or config.irqOverride
  bspApicId := (bspLapic mem ptr).getD config.bspApicId

/-- The registers of an I/O APIC by number. They keep what is written to them. -/
abbrev IoApic := UInt8 → BitVec 32

/-- The lower half of the entry of an input, as numbers of eight bits are added. -/
def lowReg (irq : UInt8) : UInt8 := 0x10 + irq * 2

namespace IoApic

def maxRedirectionEntry (regs : IoApic) : Nat := (regs 1).toNat / 2 ^ 16 % 256

def maskIrq (regs : IoApic) (irq : UInt8) : IoApic :=
  Function.update regs (lowReg irq) (regs (lowReg irq) ||| 1#32 <<< 16)

def unmaskIrq (regs : IoApic) (irq : UInt8) : IoApic :=
  Function.update regs (lowReg irq) (regs (lowReg irq) &&& ~~~(1#32 <<< 16))

def maskAll (regs : IoApic) : IoApic :=
  (List.range (regs.maxRedirectionEntry + 1)).foldl (fun regs i =>
    maskIrq (Function.update regs (lowReg (UInt8.ofNat i) + 1) 0) (UInt8.ofNat i)) regs

/-- Polarity or trigger mode: zero leaves the bit alone. -/
def setMode (low : BitVec 32) (bit mode : Nat) : BitVec 32 :=
  if mode ≠ 0 then low &&& ~~~(1#32 <<< bit) ||| BitVec.ofNat 32 (mode % 2) <<< bit else low

def setIrqExt (regs : IoApic) (irq : UInt8) (vector : BitVec 8) (lapicId : UInt8) (flags : Nat) :
    IoApic :=
  let regs := Function.update regs (lowReg irq + 1) (lapicId.toBitVec.setWidth 32 <<< 24)
  let low := regs (lowReg irq) &&& ~~~0x1F7FF#32 ||| vector.setWidth 32
  Function.update regs (lowReg irq) (setMode (setMode low 13 (flags % 4)) 15 (flags / 4 % 4))

/-- What an input is set to: the vector, whether it is active low, and whether it is level
triggered. -/
def entry (regs : IoApic) (irq : UInt8) : BitVec 8 × Bool × Bool :=
  let low := regs (lowReg irq)
  (low.setWidth 8, low.getLsbD 13, low.getLsbD 15)

end IoApic

/-- What `init_interrupts` does to the interrupt controllers. -/
inductive ControllerOp where
  | maskAll
  | setIrqExt (irq : UInt8) (vector : BitVec 8) (lapicId : UInt8) (flags : Nat)
  | unmaskIrq (irq : UInt8)
  | maskIrq (irq : UInt8)
  | picUnmaskIrq (irq : UInt8)
  deriving DecidableEq, Repr

def ControllerOp.apply (regs : IoApic) : ControllerOp → IoApic
  | .maskAll => regs.maskAll
  | .setIrqExt irq vector lapicId flags => regs.setIrqExt irq vector lapicId flags
  | .unmaskIrq irq => regs.unmaskIrq irq
  | .maskIrq irq => regs.maskIrq irq
  | .picUnmaskIrq _ => regs

def usableIrq (irq : Option UInt8) : Option UInt8 := irq.filter fun irq => irq ≠ 0 && irq ≠ 255

namespace IoApic

theorem lowReg_ne_high (a b : UInt8) : lowReg a ≠ lowReg b + 1 := by
  intro h
  have hnat := congrArg UInt8.toNat h
  simp only [lowReg, UInt8.toNat_add, UInt8.toNat_mul, UInt8.reduceToNat] at hnat
  omega

theorem entry_high (regs : IoApic) (irq n : UInt8) (value : BitVec 32) :
    entry (Function.update regs (lowReg irq + 1) value) n = entry regs n := by
  rw [entry, Function.update_of_ne (lowReg_ne_high n irq)]
  rfl

theorem entry_update (regs : IoApic) (irq n : UInt8) {low : BitVec 32}
    (h : lowReg n = lowReg irq → entry (fun _ => low) n = entry regs n) :
    entry (Function.update regs (lowReg irq) low) n = entry regs n := by
  by_cases hreg : lowReg n = lowReg irq
  · rw [← h hreg]
    simp only [entry, hreg, Function.update_self]
  · simp only [entry, Function.update_of_ne hreg]

@[simp] theorem entry_maskIrq (regs : IoApic) (irq n : UInt8) :
    entry (regs.maskIrq irq) n = entry regs n :=
  entry_update regs irq n fun h => by simp [entry, h]

@[simp] theorem entry_unmaskIrq (regs : IoApic) (irq n : UInt8) :
    entry (regs.unmaskIrq irq) n = entry regs n := by
  have hones : (~~~(1#32 <<< 16)).setWidth 8 = BitVec.allOnes 8 := rfl
  refine entry_update regs irq n fun h => ?_
  simp only [entry, h, BitVec.setWidth_and, hones, BitVec.and_allOnes]
  simp

@[simp] theorem entry_maskAll (regs : IoApic) (n : UInt8) :
    entry regs.maskAll n = entry regs n := by
  unfold maskAll
  generalize regs.maxRedirectionEntry + 1 = count
  induction count with
  | zero => rfl
  | succ count ih =>
    rw [List.range_succ, List.foldl_append, List.foldl_cons, List.foldl_nil, entry_maskIrq,
      entry_high, ih]

/-- A mode is set by its lowest bit alone. -/
theorem getLsbD_setMode (low : BitVec 32) {bit : Nat} (hbit : bit < 32) (mode i : Nat) :
    (setMode low bit mode).getLsbD i =
      if i = bit ∧ mode ≠ 0 then decide (mode % 2 = 1) else low.getLsbD i := by
  have hone : ∀ j, (1#32).getLsbD j = decide (j = 0) := by simp
  unfold setMode
  by_cases hmode : mode = 0
  · simp [hmode]
  · rw [if_pos hmode]
    simp only [BitVec.getLsbD_or, BitVec.getLsbD_and, BitVec.getLsbD_not, BitVec.getLsbD_shiftLeft]
    obtain h | h := Nat.mod_two_eq_zero_or_one mode
    · simp [h, hmode, hone]
      grind
    · simp [h, hmode, hone]
      grind

@[simp] theorem entry_setIrqExt (regs : IoApic) (irq n : UInt8) (vector : BitVec 8) (lapicId : UInt8)
    (flags : Nat) : entry (regs.setIrqExt irq vector lapicId flags) n =
      if lowReg irq = lowReg n then (vector, flags.testBit 0, flags.testBit 2)
      else entry regs n := by
  by_cases hreg : lowReg irq = lowReg n
  · simp only [entry, setIrqExt, hreg, Function.update_self, if_true]
    generalize Function.update regs _ _ (lowReg n) = low
    have hcleared : ∀ i < 17, i ≠ 11 → (~~~0x1F7FF#32).getLsbD i = false := by decide
    have hlow : ∀ i < 17, i ≠ 11 →
        (low &&& ~~~0x1F7FF#32 ||| vector.setWidth 32).getLsbD i = vector.getLsbD i := by
      intro i hi hne
      rw [BitVec.getLsbD_or, BitVec.getLsbD_and, hcleared i hi hne, BitVec.getLsbD_setWidth]
      simp [show i < 32 by omega]
    simp only [Prod.mk.injEq]
    refine ⟨BitVec.eq_of_getLsbD_eq fun i hi => ?_, ?_, ?_⟩
    · rw [BitVec.getLsbD_setWidth, getLsbD_setMode _ (by omega), if_neg (by omega),
        getLsbD_setMode _ (by omega), if_neg (by omega), hlow i (by omega) (by omega)]
      simp [hi]
    · rw [getLsbD_setMode _ (by omega), if_neg (by omega), getLsbD_setMode _ (by omega),
        hlow 13 (by omega) (by omega), Nat.testBit_zero]
      grind
    · rw [getLsbD_setMode _ (by omega), getLsbD_setMode _ (by omega),
        hlow 15 (by omega) (by omega), Nat.testBit_succ, Nat.testBit_succ, Nat.testBit_zero]
      grind
  · simp only [setIrqExt, entry, if_neg hreg, Function.update_of_ne (Ne.symm hreg),
      Function.update_of_ne (lowReg_ne_high n irq)]

end IoApic

/-- The inputs that are set up after the keyboard's, with their vectors. -/
def laterRoutes (info : IoApicInfo) (hdaIrq sciIrq : Option UInt8) : List (UInt8 × BitVec 8) :=
  (12, 0x2c) :: (usableIrq hdaIrq).toList.map (·, 0x31) ++
    (usableIrq sciIrq).toList.map fun sci => (sci - UInt8.ofNat info.globalIrqBase, 0x32)

/-- A later call for an input decides. -/
def overwrite (n : UInt8) (setting : BitVec 8 × Bool × Bool) (route : UInt8 × BitVec 8) :
    BitVec 8 × Bool × Bool :=
  if lowReg route.1 = lowReg n then (route.2, false, false) else setting

section Routes

variable {config : InterruptConfig} {info : IoApicInfo} {platform : Platform}
  {hdaIrq sciIrq : Option UInt8}

/-- What flags ask for: a mode is 0 as on the bus, 1 for active high or edge, and 3 for active low
or level. -/
def wanted (flags : Nat) : BitVec 8 × Bool × Bool := (0x21, flags % 4 = 3, flags / 4 % 4 = 3)

/-- The input of a global IRQ. -/
def IsInput (regs : IoApic) (info : IoApicInfo) (irq : Nat) (n : UInt8) : Prop :=
  irq = info.globalIrqBase + n.toNat ∧ n.toNat ≤ regs.maxRedirectionEntry ∧ n.toNat < 120

/-- The input is not set up again for another vector, and the flags kept set the same modes; or the
input was left as it is wanted from before. -/
def Reaches (regs : IoApic) (info : IoApicInfo) (kept : UInt8 × Nat) (hdaIrq sciIrq : Option UInt8)
    (irq flags : Nat) : Prop :=
  ∃ n, IsInput regs info irq n ∧
    (∀ route ∈ laterRoutes info hdaIrq sciIrq, lowReg route.1 ≠ lowReg n) ∧
    if lowReg kept.1 = lowReg n then (kept.2.testBit 0, kept.2.testBit 2) = (wanted flags).2
    else regs.entry n = wanted flags

end Routes

end KazuOS.Kernel
