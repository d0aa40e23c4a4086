import Mathlib.Data.BitVec

/-! The size of a PCI BAR. A device decodes as many address bits of a BAR as its size leaves,
and the others do not take a write; `bar_size` writes ones to all of them and counts from what
it reads back, with the device's decoding switched off meanwhile. -/
namespace KazuOS.Kernel

/-- A register whose bits outside of `mask` are wired. -/
def latch (mask old value : BitVec 32) : BitVec 32 := (old &&& ~~~mask) ||| (value &&& mask)

def commandOffset : Nat := 0x04
def barOffset (barIndex : Nat) : Nat := 0x10 + barIndex * 4

/-- A function of a device, as `bar_size` finds it. What a write leaves in a dword is up to the
device; of the dword at 0x04 the lower half is the command register, and the upper half,
the status, may do anything. -/
structure PciFunction where
  config : Nat → BitVec 32
  written : Nat → BitVec 32 → BitVec 32 → BitVec 32
  commandMask : BitVec 32
  command_written : ∀ old value, (written commandOffset old value).setWidth 16 =
    (latch commandMask old value).setWidth 16
  /-- A decoding bit that cannot be cleared is not set. -/
  decode_clears : config commandOffset &&& ~~~commandMask &&& 3 = 0

/-- A write, and the dword of the command register at that time. -/
structure ConfigWrite where
  offset : Nat
  value : BitVec 32
  command : BitVec 32

structure ConfigSpace where
  dwords : Nat → BitVec 32
  writes : List ConfigWrite

inductive BarType where
  | io
  | mmio32
  | mmio64
  deriving DecidableEq, Repr

def barType (bar : BitVec 32) : BarType :=
  if bar &&& 0x1 = 0x1 then .io
  else if (bar >>> 1) &&& 0x3 = 0x2 then .mmio64
  else .mmio32

namespace PciFunction

def initial (dev : PciFunction) : ConfigSpace := ⟨dev.config, []⟩

def writeU32 (dev : PciFunction) (s : ConfigSpace) (offset : Nat) (value : BitVec 32) :
    ConfigSpace where
  dwords := Function.update s.dwords offset (dev.written offset (s.dwords offset) value)
  writes := s.writes ++ [⟨offset, value, s.dwords commandOffset⟩]

def readCommand (s : ConfigSpace) : BitVec 16 := (s.dwords commandOffset &&& 0xffff).setWidth 16

def writeCommand (dev : PciFunction) (s : ConfigSpace) (value : BitVec 16) : ConfigSpace :=
  dev.writeU32 s commandOffset ((s.dwords commandOffset &&& 0xffff0000) ||| value.setWidth 32)

/-- The size of a BAR of two dwords, with decoding off. -/
def barSize64 (dev : PciFunction) (s : ConfigSpace) (barIndex : Nat) (original : BitVec 32) :
    BitVec 64 × ConfigSpace :=
  if 5 ≤ barIndex then (0, s) else
    let offset := barOffset barIndex
    let highOffset := offset + 4
    let originalHigh := s.dwords highOffset
    let s := dev.writeU32 s offset (BitVec.allOnes 32)
    let s := dev.writeU32 s highOffset (BitVec.allOnes 32)
    let decodedLow := s.dwords offset
    let decodedHigh := s.dwords highOffset
    let s := dev.writeU32 s highOffset originalHigh
    let s := dev.writeU32 s offset original
    let mask := (decodedHigh.setWidth 64 <<< 32) ||| (decodedLow &&& 0xfffffff0).setWidth 64
    (~~~mask + 1, s)

/-- The size of a BAR of one dword, with decoding off. -/
def barSize32 (dev : PciFunction) (s : ConfigSpace) (barIndex : Nat) (original : BitVec 32) :
    BitVec 64 × ConfigSpace :=
  let offset := barOffset barIndex
  let addressMask : BitVec 32 := if barType original = .io then 0xfffffffc else 0xfffffff0
  let s := dev.writeU32 s offset (BitVec.allOnes 32)
  let decoded := s.dwords offset
  let s := dev.writeU32 s offset original
  ((~~~(decoded &&& addressMask) + 1).setWidth 64, s)

def barSize (dev : PciFunction) (s : ConfigSpace) (barIndex : Nat) : BitVec 64 × ConfigSpace :=
  let original := s.dwords (barOffset barIndex)
  if original = 0 then (0, s) else
    let command := readCommand s
    let s := dev.writeCommand s (command &&& ~~~0x03)
    let (size, s) := if barType original = .mmio64 then dev.barSize64 s barIndex original
      else dev.barSize32 s barIndex original
    (size, dev.writeCommand s command)

end PciFunction

/-- The bits of a dword from `k` on. -/
def addressBits (k : Nat) : BitVec 32 := ~~~(BitVec.allOnes k).setWidth 32

/-- A BAR of one dword for `2 ^ k` bytes of memory: type bits, zeros up to the size, then the
bits that take a write. -/
structure IsBar32 (dev : PciFunction) (barIndex k : Nat) : Prop where
  index : barIndex < 6
  bounds : 4 ≤ k ∧ k ≤ 31
  type : barType (dev.config (barOffset barIndex)) = .mmio32
  assigned : dev.config (barOffset barIndex) ≠ 0
  aligned : dev.config (barOffset barIndex) &&& ~~~addressBits k &&& 0xfffffff0 = 0
  wired : ∀ old value, dev.written (barOffset barIndex) old value = latch (addressBits k) old value

/-- A BAR of two dwords. Bit `i` of the second is bit `32 + i` of the address. -/
structure IsBar64 (dev : PciFunction) (barIndex k : Nat) : Prop where
  bounds : 4 ≤ k ∧ k ≤ 63
  paired : barIndex < 5
  type : barType (dev.config (barOffset barIndex)) = .mmio64
  aligned : dev.config (barOffset barIndex) &&& ~~~addressBits k &&& 0xfffffff0 = 0
  aligned_high : dev.config (barOffset barIndex + 4) &&& ~~~addressBits (k - 32) = 0
  wired : ∀ old value, dev.written (barOffset barIndex) old value = latch (addressBits k) old value
  wired_high : ∀ old value,
    dev.written (barOffset barIndex + 4) old value = latch (addressBits (k - 32)) old value

theorem getLsbD_latch (mask old value : BitVec 32) (i : Nat) :
    (latch mask old value).getLsbD i =
      if mask.getLsbD i then value.getLsbD i else old.getLsbD i := by
  by_cases hi : i < 32
  · simp only [latch, BitVec.getLsbD_or, BitVec.getLsbD_and, BitVec.getLsbD_not, hi]
    cases mask.getLsbD i <;> simp
  · simp [BitVec.getLsbD_of_ge _ i (Nat.le_of_not_lt hi)]

theorem latch_latch (mask old value : BitVec 32) : latch mask (latch mask old value) old = old := by
  apply BitVec.eq_of_getLsbD_eq
  intro i hi
  rw [getLsbD_latch, getLsbD_latch]
  cases mask.getLsbD i <;> rfl

theorem getLsbD_addressBits {i k : Nat} (hi : i < 32) :
    (addressBits k).getLsbD i = decide (k ≤ i) := by
  by_cases hk : k ≤ i <;> simp [addressBits, hi, hk, Nat.lt_of_not_le]

/-- Bit by bit, what is read back after ones are written. -/
theorem getLsbD_latch_ones {k i : Nat} {old rest : BitVec 32} (hi : i < 32)
    (haligned : old &&& ~~~addressBits k &&& rest = 0) (hrest : rest.getLsbD i = true) :
    (latch (addressBits k) old (BitVec.allOnes 32)).getLsbD i = decide (k ≤ i) := by
  have hbit := congrArg (BitVec.getLsbD · i) haligned
  simp only [BitVec.getLsbD_and, BitVec.getLsbD_not, getLsbD_addressBits hi, hi, hrest] at hbit
  rw [getLsbD_latch, getLsbD_addressBits hi]
  by_cases hk : k ≤ i
  · rw [BitVec.getLsbD_allOnes]
    simp [hk, hi]
  · simpa [hk] using hbit

/-- The bits of a memory BAR that are not its type. -/
theorem getLsbD_memory {i : Nat} (hi : i < 32) :
    (0xfffffff0 : BitVec 32).getLsbD i = decide (4 ≤ i) := by
  have hall : ∀ i : Fin 32, (0xfffffff0 : BitVec 32).getLsbD i = decide (4 ≤ i.val) := by decide
  exact hall ⟨i, hi⟩

/-- The complement of the address bits and one more is the size. -/
theorem toNat_size {w k : Nat} (hk : k < w) {mask : BitVec w}
    (hmask : ∀ i < w, mask.getLsbD i = decide (k ≤ i)) : (~~~mask + 1).toNat = 2 ^ k := by
  have hones : ~~~mask = (BitVec.allOnes k).setWidth w := by
    apply BitVec.eq_of_getLsbD_eq
    intro i hi
    rw [BitVec.getLsbD_not, hmask i hi]
    by_cases hki : k ≤ i <;> simp [hi, hki, Nat.lt_of_not_le]
  have hlt : 2 ^ k < 2 ^ w := Nat.pow_lt_pow_right (by decide) hk
  have hpos : 0 < 2 ^ k := Nat.two_pow_pos k
  have hw : 1 < 2 ^ w := Nat.one_lt_two_pow (by omega)
  rw [hones, BitVec.toNat_add, BitVec.toNat_setWidth, BitVec.toNat_allOnes,
    Nat.mod_eq_of_lt (by omega : 2 ^ k - 1 < 2 ^ w)]
  have hone : (1 : BitVec w).toNat = 1 := by simp [Nat.mod_eq_of_lt hw]
  rw [hone, Nat.sub_add_cancel hpos, Nat.mod_eq_of_lt hlt]

variable {k : Nat}

theorem toNat_size32 {old : BitVec 32} (hk : 4 ≤ k ∧ k ≤ 31)
    (haligned : old &&& ~~~addressBits k &&& 0xfffffff0 = 0) :
    ((~~~(latch (addressBits k) old (BitVec.allOnes 32) &&& 0xfffffff0) + 1).setWidth 64).toNat =
      2 ^ k := by
  rw [BitVec.toNat_setWidth, toNat_size (by omega : k < 32)]
  · exact Nat.mod_eq_of_lt (Nat.pow_lt_pow_right (by decide) (by omega))
  · intro i hi
    rw [BitVec.getLsbD_and, getLsbD_memory hi]
    by_cases hlow : 4 ≤ i
    · rw [getLsbD_latch_ones hi haligned (by rw [getLsbD_memory hi]; exact decide_eq_true hlow)]
      simp [hlow]
    · simp [hlow]
      omega

theorem toNat_size64 {low high : BitVec 32} (hk : 4 ≤ k ∧ k ≤ 63)
    (hlow : low &&& ~~~addressBits k &&& 0xfffffff0 = 0)
    (hhigh : high &&& ~~~addressBits (k - 32) = 0) :
    (~~~(((latch (addressBits (k - 32)) high (BitVec.allOnes 32)).setWidth 64 <<< 32) |||
      (latch (addressBits k) low (BitVec.allOnes 32) &&& 0xfffffff0).setWidth 64) + 1).toNat =
        2 ^ k := by
  apply toNat_size (by omega : k < 64)
  intro i hi
  have hhigh' : high &&& ~~~addressBits (k - 32) &&& BitVec.allOnes 32 = 0 := by
    rw [BitVec.and_allOnes, hhigh]
  rw [BitVec.getLsbD_or, BitVec.getLsbD_shiftLeft, BitVec.getLsbD_setWidth,
    BitVec.getLsbD_setWidth, BitVec.getLsbD_and]
  by_cases hi32 : i < 32
  · rw [getLsbD_memory hi32]
    by_cases hlow4 : 4 ≤ i
    · rw [getLsbD_latch_ones hi32 hlow (by rw [getLsbD_memory hi32]; exact decide_eq_true hlow4)]
      simp [hi32, hlow4, hi]
    · simp [hi32, hlow4]
      omega
  · have hi' : i - 32 < 32 := by omega
    have hi64 : i - 32 < 64 := by omega
    rw [getLsbD_latch_ones hi' hhigh' (by rw [BitVec.getLsbD_allOnes]; exact decide_eq_true hi'),
      BitVec.getLsbD_of_ge _ i (Nat.le_of_not_lt hi32)]
    simp only [hi, hi32, hi64, decide_true, decide_false, Bool.not_false, Bool.true_and, Bool.and_true,
      Bool.false_and, Bool.and_false, Bool.or_false, decide_eq_decide]
    omega

/-! Decoding is off while a BAR is written. -/

theorem barOffset_ne (barIndex : Nat) : barOffset barIndex ≠ commandOffset := by
  unfold barOffset commandOffset
  omega

theorem highOffset_ne (barIndex : Nat) : barOffset barIndex + 4 ≠ commandOffset := by
  unfold barOffset commandOffset
  omega

/-- Every write from `s` to `s'` finds the command register as it is in `s`, and leaves it. -/
structure Quiet (s s' : ConfigSpace) : Prop where
  command : s'.dwords commandOffset = s.dwords commandOffset
  writes : ∀ w ∈ s'.writes, w ∈ s.writes ∨ w.command = s.dwords commandOffset

theorem Quiet.refl (s : ConfigSpace) : Quiet s s := ⟨rfl, fun _ hw => .inl hw⟩

namespace PciFunction

variable {dev : PciFunction} {s s' : ConfigSpace} {barIndex k : Nat}

theorem writeU32_same (offset : Nat) (value : BitVec 32) :
    (dev.writeU32 s offset value).dwords offset = dev.written offset (s.dwords offset) value :=
  Function.update_self ..

theorem writeU32_other {offset other : Nat} (h : other ≠ offset) (value : BitVec 32) :
    (dev.writeU32 s offset value).dwords other = s.dwords other :=
  Function.update_of_ne h ..

variable {offset : Nat} {i : Nat}

theorem quiet_write (h : Quiet s s') (hoffset : offset ≠ commandOffset) (value : BitVec 32) :
    Quiet s (dev.writeU32 s' offset value) := by
  refine ⟨(writeU32_other hoffset.symm value).trans h.command, fun w hw => ?_⟩
  obtain hw | hw := List.mem_append.mp hw
  · exact h.writes w hw
  · rw [List.mem_singleton.mp hw]
    exact .inr h.command

theorem barSize32_quiet (original : BitVec 32) : Quiet s (dev.barSize32 s barIndex original).2 := by
  have hoffset := barOffset_ne barIndex
  exact quiet_write (quiet_write (.refl s) hoffset _) hoffset _

theorem barSize64_quiet (original : BitVec 32) : Quiet s (dev.barSize64 s barIndex original).2 := by
  have hoffset := barOffset_ne barIndex
  have hhigh := highOffset_ne barIndex
  unfold barSize64
  split
  · exact .refl s
  · exact quiet_write (quiet_write (quiet_write (quiet_write (.refl s) hoffset _) hhigh _)
      hhigh _) hoffset _

/-- The size of a BAR of one dword, which is put back. -/
theorem barSize32_exact (h : IsBar32 dev barIndex k)
    (hs : ∀ offset, offset ≠ commandOffset → s.dwords offset = dev.config offset) :
    (dev.barSize32 s barIndex (dev.config (barOffset barIndex))).1.toNat = 2 ^ k ∧
      (dev.barSize32 s barIndex (dev.config (barOffset barIndex))).2.dwords = s.dwords := by
  have hlow := hs _ (barOffset_ne barIndex)
  unfold barSize32
  dsimp only
  rw [if_neg (by rw [h.type]; decide), writeU32_same, h.wired, hlow]
  refine ⟨toNat_size32 h.bounds h.aligned, funext fun offset => ?_⟩
  by_cases hoffset : offset = barOffset barIndex
  · rw [hoffset, writeU32_same, writeU32_same, h.wired, h.wired, hlow, latch_latch]
  · rw [writeU32_other hoffset, writeU32_other hoffset]

/-- The size of a BAR of two dwords, which are put back. -/
theorem barSize64_exact (h : IsBar64 dev barIndex k)
    (hs : ∀ offset, offset ≠ commandOffset → s.dwords offset = dev.config offset) :
    (dev.barSize64 s barIndex (dev.config (barOffset barIndex))).1.toNat = 2 ^ k ∧
      (dev.barSize64 s barIndex (dev.config (barOffset barIndex))).2.dwords = s.dwords := by
  have hlow := hs _ (barOffset_ne barIndex)
  have hhigh := hs _ (highOffset_ne barIndex)
  have hne : barOffset barIndex ≠ barOffset barIndex + 4 := by omega
  unfold barSize64
  rw [if_neg (Nat.not_le.mpr h.paired)]
  dsimp only
  rw [writeU32_other hne, writeU32_same, writeU32_same, writeU32_other hne.symm, h.wired,
    h.wired_high, hlow, hhigh]
  refine ⟨toNat_size64 h.bounds h.aligned h.aligned_high, funext fun offset => ?_⟩
  by_cases hoffset : offset = barOffset barIndex
  · rw [hoffset, writeU32_same, writeU32_other hne, writeU32_other hne, writeU32_same, h.wired,
      h.wired, hlow, latch_latch]
  · rw [writeU32_other hoffset]
    by_cases hoffset' : offset = barOffset barIndex + 4
    · rw [hoffset', writeU32_same, writeU32_same, writeU32_other hne.symm, h.wired_high,
        h.wired_high, hhigh, latch_latch]
    · rw [writeU32_other hoffset', writeU32_other hoffset', writeU32_other hoffset]

/-! The command register. -/

theorem getLsbD_command (old : BitVec 32) (value : BitVec 16) (hi : i < 16) :
    ((old &&& 0xffff0000) ||| value.setWidth 32).getLsbD i = value.getLsbD i := by
  have hall : ∀ i : Fin 16, (0xffff0000 : BitVec 32).getLsbD i = false := by decide
  rw [BitVec.getLsbD_or, BitVec.getLsbD_and, hall ⟨i, hi⟩, BitVec.getLsbD_setWidth]
  simp [show i < 32 by omega]

/-- What a write to the command register leaves of its bits. -/
theorem getLsbD_writeCommand (value : BitVec 16) (hi : i < 16) :
    ((dev.writeCommand s value).dwords commandOffset).getLsbD i =
      if dev.commandMask.getLsbD i then value.getLsbD i
      else (s.dwords commandOffset).getLsbD i := by
  have hbit := congrArg (BitVec.getLsbD · i) (dev.command_written (s.dwords commandOffset)
    ((s.dwords commandOffset &&& 0xffff0000) ||| value.setWidth 32))
  simp only [BitVec.getLsbD_setWidth, hi, decide_true, Bool.true_and] at hbit
  rw [writeCommand, writeU32_same, hbit, getLsbD_latch, getLsbD_command _ _ hi]

theorem getLsbD_readCommand (hi : i < 16) :
    (readCommand s).getLsbD i = (s.dwords commandOffset).getLsbD i := by
  have hall : ∀ i : Fin 16, (0xffff : BitVec 32).getLsbD i = true := by decide
  rw [readCommand, BitVec.getLsbD_setWidth, BitVec.getLsbD_and, hall ⟨i, hi⟩]
  simp [hi]

/-- The state in which a BAR is sized. -/
def quieted (dev : PciFunction) : ConfigSpace :=
  dev.writeCommand dev.initial (readCommand dev.initial &&& ~~~0x03)

theorem quieted_decode (dev : PciFunction) : dev.quieted.dwords commandOffset &&& 3 = 0 := by
  apply BitVec.eq_of_getLsbD_eq
  intro i hi
  have hclears := congrArg (BitVec.getLsbD · i) dev.decode_clears
  simp only [BitVec.getLsbD_and, BitVec.getLsbD_not, hi, decide_true, Bool.true_and] at hclears
  rw [BitVec.getLsbD_and]
  by_cases hlow : i < 2
  · have hdecode : ∀ i : Fin 2, (3 : BitVec 32).getLsbD i = true ∧
        (~~~0x03 : BitVec 16).getLsbD i = false := by decide
    obtain ⟨hthree, hnot⟩ := hdecode ⟨i, hlow⟩
    rw [hthree, Bool.and_true] at hclears ⊢
    rw [quieted, getLsbD_writeCommand _ (by omega), BitVec.getLsbD_and, hnot, Bool.and_false]
    cases hmask : dev.commandMask.getLsbD i
    · rw [hmask] at hclears
      simpa [initial] using hclears
    · simp
  · have hrest : ∀ i : Fin 32, 2 ≤ i.val → (3 : BitVec 32).getLsbD i = false := by decide
    rw [hrest ⟨i, hi⟩ (Nat.le_of_not_lt hlow)]
    simp

/-- Writing the command register back undoes the first write to it. -/
theorem readCommand_restored (h : Quiet dev.quieted s) :
    readCommand (dev.writeCommand s (readCommand dev.initial)) = readCommand dev.initial := by
  apply BitVec.eq_of_getLsbD_eq
  intro i hi
  rw [getLsbD_readCommand hi, getLsbD_writeCommand _ hi, h.command, quieted,
    getLsbD_writeCommand _ hi, getLsbD_readCommand hi]
  cases dev.commandMask.getLsbD i <;> simp

/-- One branch of `bar_size`, with the command register written before and after. -/
theorem barSize_eq (hne : dev.config (barOffset barIndex) ≠ 0) :
    dev.barSize dev.initial barIndex =
      let sized := if barType (dev.config (barOffset barIndex)) = .mmio64 then
          dev.barSize64 dev.quieted barIndex (dev.config (barOffset barIndex))
        else dev.barSize32 dev.quieted barIndex (dev.config (barOffset barIndex))
      (sized.1, dev.writeCommand sized.2 (readCommand dev.initial)) :=
  if_neg hne

theorem sized_quiet (original : BitVec 32) :
    Quiet s (if barType original = .mmio64 then dev.barSize64 s barIndex original
      else dev.barSize32 s barIndex original).2 := by
  split
  · exact barSize64_quiet original
  · exact barSize32_quiet original

theorem quieted_other (dev : PciFunction) (h : offset ≠ commandOffset) :
    dev.quieted.dwords offset = dev.config offset :=
  writeU32_other h _

/-- A memory BAR is sized and put back. -/
theorem barSize_restores (h : IsBar32 dev barIndex k ∨ IsBar64 dev barIndex k) :
    (dev.barSize dev.initial barIndex).1.toNat = 2 ^ k ∧
      (∀ offset, offset ≠ commandOffset →
        (dev.barSize dev.initial barIndex).2.dwords offset = dev.config offset) ∧
      readCommand (dev.barSize dev.initial barIndex).2 = readCommand dev.initial := by
  have hs := fun offset (hoffset : offset ≠ commandOffset) => dev.quieted_other hoffset
  have hne : dev.config (barOffset barIndex) ≠ 0 := by
    rcases h with h | h
    · exact h.assigned
    · intro hzero
      have htype := h.type
      rw [hzero] at htype
      cases htype
  rw [barSize_eq hne]
  dsimp only
  refine ⟨?_, fun offset hoffset => ?_, readCommand_restored (sized_quiet _)⟩
  · rcases h with h | h
    · rw [h.type, if_neg (by decide)]
      exact (barSize32_exact h hs).1
    · rw [h.type, if_pos rfl]
      exact (barSize64_exact h hs).1
  · rw [writeCommand, writeU32_other hoffset, ← dev.quieted_other hoffset]
    rcases h with h | h
    · rw [h.type, if_neg (by decide), (barSize32_exact h hs).2]
    · rw [h.type, if_pos rfl, (barSize64_exact h hs).2]

/-- No BAR, assigned or not, is written while its device decodes. -/
theorem barSize_writes (dev : PciFunction) (barIndex : Nat) :
    ∀ w ∈ (dev.barSize dev.initial barIndex).2.writes,
      w.offset ≠ commandOffset → w.command &&& 3 = 0 := by
  intro w hw hoffset
  by_cases hne : dev.config (barOffset barIndex) = 0
  · rw [barSize, show dev.initial.dwords = dev.config from rfl, if_pos hne] at hw
    cases hw
  · rw [barSize_eq hne] at hw
    obtain hw | hw := List.mem_append.mp hw
    · obtain hw | hw := (sized_quiet (dev.config (barOffset barIndex))).writes w hw
      · rw [List.mem_singleton.mp hw] at hoffset
        exact absurd rfl hoffset
      · rw [hw]
        exact dev.quieted_decode
    · rw [List.mem_singleton.mp hw] at hoffset
      exact absurd rfl hoffset

/-- `bar_size` finds the size of every memory BAR and leaves the device as it was, and it writes
to no BAR while memory or I/O decoding is on. -/
theorem bar_size_exact (dev : PciFunction) (barIndex : Nat) :
    (∀ k, IsBar32 dev barIndex k ∨ IsBar64 dev barIndex k →
      (dev.barSize dev.initial barIndex).1.toNat = 2 ^ k ∧
        (∀ offset, offset ≠ commandOffset →
          (dev.barSize dev.initial barIndex).2.dwords offset = dev.config offset) ∧
        readCommand (dev.barSize dev.initial barIndex).2 = readCommand dev.initial) ∧
    ∀ w ∈ (dev.barSize dev.initial barIndex).2.writes,
      w.offset ≠ commandOffset → w.command &&& 3 = 0 :=
  ⟨fun _ h => barSize_restores h, dev.barSize_writes barIndex⟩

/-- A device with 16 GiB of prefetchable memory behind its first two BARs, in use. -/
def wideDevice : PciFunction where
  config offset := if offset = 0x04 then 0x00100007 else if offset = 0x10 then 0xc
    else if offset = 0x14 then 0x38 else 0
  written offset old value :=
    if offset = 0x04 then latch 0x547 old value &&& ~~~(value &&& 0xf9000000)
    else if offset = 0x10 then latch (addressBits 34) old value
    else latch (addressBits 2) old value
  commandMask := 0x547
  command_written old value := by
    apply BitVec.eq_of_getLsbD_eq
    intro i hi
    have hstatus : ∀ i : Fin 16, (0xf9000000 : BitVec 32).getLsbD i = false := by decide
    have hbit := hstatus ⟨i, hi⟩
    dsimp only at hbit
    rw [if_pos (show commandOffset = 0x04 from rfl), BitVec.getLsbD_setWidth,
      BitVec.getLsbD_setWidth, BitVec.getLsbD_and, BitVec.getLsbD_not, BitVec.getLsbD_and, hbit]
    simp [show i < 32 by omega]
  decode_clears := by decide

theorem bar_size_exact_wideDevice : IsBar64 wideDevice 0 34 ∧
    (wideDevice.barSize wideDevice.initial 0).1.toNat = 2 ^ 34 ∧
      (wideDevice.barSize wideDevice.initial 0).2.dwords 0x14 = 0x38 := by
  have hbar : IsBar64 wideDevice 0 34 := by
    refine ⟨by decide, by decide, by decide, by decide, by decide, fun old value => rfl,
      fun old value => rfl⟩
  have hexact := (bar_size_exact wideDevice 0).1 34 (.inr hbar)
  exact ⟨hbar, hexact.1, hexact.2.1 0x14 (by decide)⟩

end PciFunction

end KazuOS.Kernel
