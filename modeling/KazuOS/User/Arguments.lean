import KazuOS.Kernel.ArgStack

/-! The arguments of a program, from the call that starts it to the program's own reading of its
stack. -/
namespace KazuOS.Kernel

open KazuOS.Lib

/-- The loop for the zero byte of a string, at most `fuel` turns of it. -/
def stringLen (m : ByteMemory 64) (ptr : BitVec 64) : (fuel len : Nat) → Option Nat
  | 0, _ => none
  | fuel + 1, len =>
    if m (ptr + BitVec.ofNat 64 len) = 0 then some len else stringLen m ptr fuel (len + 1)

/-- `core::slice::from_raw_parts`. -/
def fromRawParts (m : ByteMemory 64) (ptr : BitVec 64) (len : Nat) : List UInt8 :=
  (List.range len).map fun k => m (ptr + BitVec.ofNat 64 k)

def argPointer (m : ByteMemory 64) (argv : BitVec 64) (n : Nat) : BitVec 64 :=
  BitVec.ofNat 64 (wordAt m (argv + BitVec.ofNat 64 (8 * n)))

/-- The loop of `parse_args` over the pointers from `n` on. It has no result if a string has no
end in reach. -/
def collectArgs (fuel : Nat) (m : ByteMemory 64) (argv : BitVec 64) :
    (left n : Nat) → Option (List (List UInt8))
  | 0, _ => some []
  | left + 1, n =>
    let ptr := argPointer m argv n
    if ptr = 0 then some [] else do
      let len ← stringLen m ptr fuel 0
      let rest ← collectArgs fuel m argv left (n + 1)
      some (fromRawParts m ptr len :: rest)

def parseArgs (fuel : Nat) (m : ByteMemory 64) (argc argv : BitVec 64) :
    Option (List (List UInt8)) :=
  collectArgs fuel m argv argc.toNat 0

section Reading

variable {m : ByteMemory 64} {ptr argv : BitVec 64} {arg : List UInt8} {args : List (List UInt8)}
  {fuel : Nat}

/-- A string of nonzero bytes, and the zero byte behind it. -/
def StringAt (m : ByteMemory 64) (ptr : BitVec 64) (arg : List UInt8) : Prop :=
  0 ∉ arg ∧ ∀ k b, (arg ++ [0])[k]? = some b → m (ptr + BitVec.ofNat 64 k) = b

theorem StringAt.stringLen (h : StringAt m ptr arg) {len : Nat} (hlen : len ≤ arg.length)
    (hfuel : arg.length < fuel + len) : stringLen m ptr fuel len = some arg.length := by
  induction fuel generalizing len with
  | zero => omega
  | succ fuel ih =>
    rw [Kernel.stringLen]
    obtain hlt | rfl := hlen.lt_or_eq
    · have hbyte := h.2 len arg[len]
        (by rw [List.getElem?_append_left hlt, List.getElem?_eq_getElem hlt])
      have hne : arg[len] ≠ 0 := fun hzero => h.1 (hzero ▸ List.getElem_mem hlt)
      rw [hbyte, if_neg hne]
      exact ih hlt (by omega)
    · rw [h.2 arg.length 0 List.getElem?_concat_length, if_pos rfl]

theorem StringAt.fromRawParts (h : StringAt m ptr arg) : fromRawParts m ptr arg.length = arg := by
  refine List.ext_getElem (by simp [Kernel.fromRawParts]) fun k _ hk => ?_
  simp only [Kernel.fromRawParts, List.getElem_map, List.getElem_range]
  exact h.2 k _ (by rw [List.getElem?_append_left hk, List.getElem?_eq_getElem hk])

/-- Each pointer is that of its argument's string. -/
def ArgsAt (m : ByteMemory 64) (argv : BitVec 64) (args : List (List UInt8)) (fuel : Nat) : Prop :=
  ∀ n arg, args[n]? = some arg →
    argPointer m argv n ≠ 0 ∧ StringAt m (argPointer m argv n) arg ∧ arg.length < fuel

theorem ArgsAt.collectArgs (h : ArgsAt m argv args fuel) (n : Nat) :
    collectArgs fuel m argv (args.length - n) n = some (args.drop n) := by
  induction hleft : args.length - n generalizing n with
  | zero => rw [Kernel.collectArgs, List.drop_of_length_le (by omega)]
  | succ left ih =>
    have hn : n < args.length := by omega
    obtain ⟨hptr, hstring, hfuel⟩ := h n args[n] (List.getElem?_eq_getElem hn)
    rw [Kernel.collectArgs, List.drop_eq_getElem_cons hn]
    simp only [if_neg hptr, hstring.stringLen (Nat.zero_le _) hfuel, ih (n + 1) (by omega),
      hstring.fromRawParts, Option.bind_eq_bind, Option.bind_some]

end Reading

section Started

variable (stackPhys : BitVec 64) (m : ByteMemory 64) {args : List (List UInt8)} {fuel : Nat}

theorem argsAt_pushed (hne : args ≠ []) (hfits : argsSize args ≤ userStackSize)
    (hnul : ∀ a ∈ args, 0 ∉ a) (hfuel : userStackSize ≤ fuel) :
    ArgsAt (stackView stackPhys (m.writes (pushArgsOntoStack stackPhys userStackBase args).stores))
      (argsBase args + 8) args fuel := by
  intro n arg hn
  have hsize : argsSize args = argvArraySize args + stringBytes args := rfl
  have hstring := stringAddr_toNat hfits hn
  have hlast := stringBytes_take hn (List.getElem?_eq_some_iff.mp hn).1
  have hslot : argsBase args + 8 + BitVec.ofNat 64 (8 * n) =
      argsBase args + BitVec.ofNat 64 (8 * (1 + n)) := by
    rw [Nat.mul_add, BitVec.ofNat_add, ← add_assoc]
    rfl
  rw [List.take_length] at hlast
  rw [argPointer, hslot, pointer_pushed stackPhys m hne hfits hn, BitVec.ofNat_toNat,
    BitVec.setWidth_eq]
  refine ⟨fun hzero => ?_, ⟨hnul arg (List.mem_of_getElem? hn), fun k b hk => ?_⟩, by omega⟩
  · simp only [hzero, argvArraySize, BitVec.ofNat_eq_ofNat, BitVec.toNat_ofNat] at hstring
    omega
  · exact string_pushed stackPhys m hne hfits hn hk

/-- What a program passes to `sys_exec_with` is what the new one reads. -/
theorem exec_args_arrive {path : List UInt8} (hutf8 : IsUtf8 path) (hpath : 0 ∉ path)
    (hnul : ∀ a ∈ args, 0 ∉ a) (hempty : [] ∉ args) (hfits : argsSize args ≤ userStackSize)
    (hfuel : userStackSize ≤ fuel) :
    ∃ buffer, sysExecWith path args = some buffer ∧ (parseExec buffer).path = path ∧
      let r := pushArgsOntoStack stackPhys userStackBase (parseExec buffer).args
      parseArgs fuel (stackView stackPhys (m.writes r.stores)) r.argc r.argv = some args := by
  have hargs : parseExec (path ++ 0 :: (terminated args ++ [0])) = ⟨path, args⟩ := by
    rw [parseExec_eq hutf8 hpath, scanArgs_terminated hnul hempty]
    simp [scanArgs]
  refine ⟨_, sysExecWith_eq path args, by rw [hargs], ?_⟩
  rw [hargs]
  by_cases hne : args = []
  · subst hne
    rfl
  have hlength := length_le_stringBytes args
  have hsize : argsSize args = (args.length + 2) * 8 + stringBytes args := rfl
  have hstack : userStackSize = 0x10000 := rfl
  have hargc : (BitVec.ofNat 64 args.length).toNat = args.length := by
    rw [BitVec.toNat_ofNat]
    omega
  have hall := (argsAt_pushed stackPhys m hne hfits hnul hfuel).collectArgs 0
  rw [Nat.sub_zero] at hall
  simp only [pushArgsOntoStack, if_neg hne, parseArgs, hargc] at hall ⊢
  exact hall

theorem exec_args_arrive_twoArgs : ∃ buffer, sysExecWith [47, 97] [[98], [99, 100]] = some buffer ∧
    (parseExec buffer).path = [47, 97] ∧
    let r := pushArgsOntoStack 0x100000 userStackBase (parseExec buffer).args
    parseArgs userStackSize (stackView 0x100000 (ByteMemory.writes (fun _ => 0) r.stores)) r.argc
      r.argv = some [[98], [99, 100]] :=
  exec_args_arrive 0x100000 (fun _ => 0) ⟨['/', 'a'], by decide⟩ (by decide) (by decide) (by decide)
    (by decide) le_rfl

end Started

end KazuOS.Kernel
