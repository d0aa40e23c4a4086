import KazuOS.Kernel.Descriptors
import KazuOS.Kernel.ExecBuffer
import KazuOS.Lib.ByteMemory

/-! The arguments on the stack of a new process. The kernel writes them below the top of the
stack through physical addresses: the count, the pointers, and behind them the strings. -/
namespace KazuOS.Kernel

open KazuOS.Lib

def userStackTop : BitVec 64 := 0x8080000000
def userStackBase : BitVec 64 := userStackTop - BitVec.ofNat 64 userStackSize

/-- What `push_args_onto_stack` returns, and the stores it makes in their order. -/
structure ArgStack where
  rsp : BitVec 64
  argc : BitVec 64
  argv : BitVec 64
  stores : List (Store 64)
  deriving DecidableEq, Repr

/-- The bytes of one argument. Nothing is copied for an empty one. -/
def pushString (stringKva : BitVec 64) (arg : List UInt8) : List (Store 64) :=
  (if arg = [] then [] else [⟨stringKva, arg⟩]) ++
    [⟨stringKva + BitVec.ofNat 64 arg.length, [0]⟩]

/-- The loop over the arguments, with the cursors of both address spaces. -/
def pushArgs (ptrsBase : BitVec 64) :
    Nat → BitVec 64 → BitVec 64 → List (List UInt8) → List (Store 64)
  | _, _, _, [] => []
  | i, stringKva, stringUva, arg :: rest =>
      wordStore (ptrsBase + BitVec.ofNat 64 (8 * (1 + i))) stringUva :: (pushString stringKva arg ++
        pushArgs ptrsBase (i + 1) (stringKva + BitVec.ofNat 64 (arg.length + 1))
          (stringUva + BitVec.ofNat 64 (arg.length + 1)) rest)

def stringBytes (args : List (List UInt8)) : Nat := (args.map (·.length + 1)).sum

/-- The count, the pointers and the null pointer behind them. -/
def argvArraySize (args : List (List UInt8)) : Nat := (args.length + 2) * 8

def argsSize (args : List (List UInt8)) : Nat := argvArraySize args + stringBytes args

/-- The stack pointer that leaves room for all of it, rounded down to sixteen bytes. -/
def argsBase (args : List (List UInt8)) : BitVec 64 :=
  (userStackTop - BitVec.ofNat 64 (argsSize args)) &&& ~~~0xF

def pushArgsOntoStack (stackPhys stackBase : BitVec 64) (args : List (List UInt8)) : ArgStack :=
  if args = [] then ⟨userStackTop, 0, 0, []⟩ else
    let argc := BitVec.ofNat 64 args.length
    let argsBase := argsBase args
    let kva := stackPhys + (argsBase - stackBase)
    let arraySize := BitVec.ofNat 64 (argvArraySize args)
    { rsp := argsBase
      argc
      argv := argsBase + 8
      stores := pushArgs kva 0 (kva + arraySize) (argsBase + arraySize) args ++
        [wordStore (kva + BitVec.ofNat 64 (8 * (1 + args.length))) 0, wordStore kva argc] }

/-! Where the stores are, counted from the count. -/

/-- A store that lies between two offsets from a base. -/
def Between (base : BitVec 64) (lo hi : Nat) (s : Store 64) : Prop :=
  ∃ o, s.addr = base + BitVec.ofNat 64 o ∧ lo ≤ o ∧ o + s.bytes.length ≤ hi

variable {arg : List UInt8} {base : BitVec 64}

theorem Between.mono {lo hi lo' hi' : Nat} {s : Store 64}
    (h : Between base lo hi s) (hlo : lo' ≤ lo) (hhi : hi ≤ hi') : Between base lo' hi' s := by
  obtain ⟨o, haddr, hle, hend⟩ := h
  exact ⟨o, haddr, Nat.le_trans hlo hle, Nat.le_trans hend hhi⟩

theorem Between.apart {lo hi lo' hi' : Nat} {s t : Store 64} (hs : Between base lo hi s)
    (ht : Between base lo' hi' t) (hle : hi ≤ lo') (hend : hi' ≤ 2 ^ 64) : s.Apart t := by
  obtain ⟨o, haddr, -, hhi⟩ := hs
  obtain ⟨o', haddr', hlo', hhi'⟩ := ht
  exact Store.apart_of_le haddr haddr' (by omega) (by omega)

theorem between_word (base value : BitVec 64) (o : Nat) :
    Between base o (o + 8) (wordStore (base + BitVec.ofNat 64 o) value) :=
  ⟨o, rfl, Nat.le_refl _, by simp [wordStore]⟩

theorem between_string (base : BitVec 64) (o : Nat) (arg : List UInt8) :
    ∀ s ∈ pushString (base + BitVec.ofNat 64 o) arg, Between base o (o + arg.length + 1) s := by
  have hnul : Between base o (o + arg.length + 1)
      ⟨base + BitVec.ofNat 64 o + BitVec.ofNat 64 arg.length, [0]⟩ := by
    refine ⟨o + arg.length, ?_, Nat.le_add_right _ _, Nat.le_refl _⟩
    rw [BitVec.ofNat_add, BitVec.add_assoc]
  unfold pushString
  split
  · simpa using hnul
  · rw [List.singleton_append, List.forall_mem_cons, List.forall_mem_singleton]
    exact ⟨⟨o, rfl, Nat.le_refl _, Nat.le_succ _⟩, hnul⟩

theorem apart_string {o : Nat} (h : o + arg.length + 1 ≤ 2 ^ 64) :
    (pushString (base + BitVec.ofNat 64 o) arg).Pairwise Store.Apart := by
  unfold pushString
  split
  · exact List.pairwise_singleton _ _
  · rw [List.singleton_append, List.pairwise_cons, List.forall_mem_singleton]
    refine ⟨Store.apart_of_le rfl ?_ (Nat.le_refl _) h, List.pairwise_singleton _ _⟩
    rw [BitVec.ofNat_add, BitVec.add_assoc]

/-- The words and the strings of the loop grow upwards from where it stands. -/
theorem between_pushArgs (base uva : BitVec 64) (i o : Nat) (args : List (List UInt8)) :
    ∀ s ∈ pushArgs base i (base + BitVec.ofNat 64 o) uva args,
      Between base (8 * (1 + i)) (8 * (1 + i + args.length)) s ∨
        Between base o (o + stringBytes args) s := by
  induction args generalizing i o uva with
  | nil => exact fun s hs => absurd hs List.not_mem_nil
  | cons arg rest ih =>
    have hsum : stringBytes (arg :: rest) = arg.length + 1 + stringBytes rest := rfl
    rw [pushArgs, List.forall_mem_cons, List.forall_mem_append]
    refine ⟨.inl ((between_word _ _ _).mono (Nat.le_refl _) ?_), ?_, ?_⟩
    · rw [List.length_cons]
      omega
    · exact fun s hs => .inr ((between_string base o arg s hs).mono (Nat.le_refl _) (by omega))
    · intro s hs
      rw [BitVec.add_assoc, ← BitVec.ofNat_add] at hs
      rw [List.length_cons]
      obtain hword | hstring := ih _ _ _ s hs
      · exact .inl (hword.mono (by omega) (by omega))
      · exact .inr (hstring.mono (by omega) (by omega))

/-- No two stores of the loop meet, if the strings start behind the pointers. -/
theorem apart_pushArgs (base uva : BitVec 64) {i o : Nat} {args : List (List UInt8)}
    (hbehind : 8 * (1 + i + args.length) ≤ o) (hend : o + stringBytes args ≤ 2 ^ 64) :
    (pushArgs base i (base + BitVec.ofNat 64 o) uva args).Pairwise Store.Apart := by
  induction args generalizing i o uva with
  | nil => exact List.Pairwise.nil
  | cons arg rest ih =>
    have hsum : stringBytes (arg :: rest) = arg.length + 1 + stringBytes rest := rfl
    rw [List.length_cons] at hbehind
    rw [pushArgs, BitVec.add_assoc, ← BitVec.ofNat_add]
    have hrest := between_pushArgs base (uva + BitVec.ofNat 64 (arg.length + 1)) (i + 1)
      (o + (arg.length + 1)) rest
    have hword := between_word base uva (8 * (1 + i))
    rw [List.pairwise_cons, List.forall_mem_append, List.pairwise_append]
    refine ⟨⟨?_, ?_⟩, apart_string (by omega), ih _ (by omega) (by omega), ?_⟩
    · exact fun s hs => hword.apart (between_string base o arg s hs) (by omega) (by omega)
    · intro s hs
      obtain hs | hs := hrest s hs
      · exact hword.apart hs (by omega) (by omega)
      · exact hword.apart hs (by omega) (by omega)
    · intro s hs t ht
      have hstring := between_string base o arg s hs
      obtain ht | ht := hrest t ht
      · exact (ht.apart hstring (by omega) (by omega)).symm
      · exact hstring.apart ht (by omega) (by omega)

variable (stackPhys : BitVec 64) {args : List (List UInt8)}

theorem stores_pushArgsOntoStack (hne : args ≠ []) :
    ∃ kva, kva = stackPhys + (argsBase args - userStackBase) ∧
      (pushArgsOntoStack stackPhys userStackBase args).stores =
        pushArgs kva 0 (kva + BitVec.ofNat 64 (argvArraySize args))
          (argsBase args + BitVec.ofNat 64 (argvArraySize args)) args ++
        [wordStore (kva + BitVec.ofNat 64 (8 * (1 + args.length))) 0,
          wordStore (kva + BitVec.ofNat 64 0) (BitVec.ofNat 64 args.length)] := by
  refine ⟨_, rfl, ?_⟩
  rw [pushArgsOntoStack, if_neg hne, BitVec.add_zero]

theorem argsSize_eq (args : List (List UInt8)) :
    argsSize args = (args.length + 2) * 8 + stringBytes args ∧
      argvArraySize args = (args.length + 2) * 8 := ⟨rfl, rfl⟩

theorem userStack_toNat : userStackTop.toNat = 0x8080000000 ∧ userStackBase.toNat = 0x807FFF0000 := by
  decide

theorem between_stores (hne : args ≠ []) :
    ∀ s ∈ (pushArgsOntoStack stackPhys userStackBase args).stores,
      Between (stackPhys + (argsBase args - userStackBase)) 0 (argsSize args) s := by
  obtain ⟨kva, rfl, hstores⟩ := stores_pushArgsOntoStack stackPhys hne
  obtain ⟨hsize, harray⟩ := argsSize_eq args
  rw [hstores, List.forall_mem_append, List.forall_mem_cons, List.forall_mem_singleton]
  refine ⟨?_, ?_, ?_⟩
  · intro s hs
    obtain h | h := between_pushArgs _ _ 0 _ args s hs
    · exact h.mono (by omega) (by omega)
    · exact h.mono (by omega) (by omega)
  · exact (between_word _ _ _).mono (by omega) (by omega)
  · exact (between_word _ _ _).mono (by omega) (by omega)

theorem apart_stores (hne : args ≠ []) (hend : argsSize args ≤ 2 ^ 64) :
    (pushArgsOntoStack stackPhys userStackBase args).stores.Pairwise Store.Apart := by
  obtain ⟨kva, -, hstores⟩ := stores_pushArgsOntoStack stackPhys hne
  obtain ⟨hsize, harray⟩ := argsSize_eq args
  have hloop := between_pushArgs kva (argsBase args + BitVec.ofNat 64 (argvArraySize args)) 0
    (argvArraySize args) args
  have hnull := between_word kva 0 (8 * (1 + args.length))
  have hcount := between_word kva (BitVec.ofNat 64 args.length) 0
  rw [hstores, List.pairwise_append, List.pairwise_cons, List.forall_mem_singleton]
  refine ⟨apart_pushArgs _ _ (by omega) (by omega),
    ⟨(hcount.apart hnull (by omega) (by omega)).symm, List.pairwise_singleton _ _⟩, ?_⟩
  intro s hs
  rw [List.forall_mem_cons, List.forall_mem_singleton]
  obtain h | h := hloop s hs
  · exact ⟨h.apart hnull (by omega) (by omega), (hcount.apart h (by omega) (by omega)).symm⟩
  · exact ⟨(hnull.apart h (by omega) (by omega)).symm,
      (hcount.apart h (by omega) (by omega)).symm⟩

/-! The stack pointer. -/

theorem argsBase_toNat (h : argsSize args ≤ userStackTop.toNat) :
    (argsBase args).toNat = (userStackTop.toNat - argsSize args) / 16 * 16 := by
  have htop : userStackTop.toNat = 0x8080000000 := by decide
  have hmask : (~~~(0xF : BitVec 64)).toNat = 2 ^ 64 - 1 - (2 ^ 4 - 1) := by decide
  have hsub : (userStackTop - BitVec.ofNat 64 (argsSize args)).toNat =
      userStackTop.toNat - argsSize args := by
    rw [BitVec.toNat_sub, BitVec.toNat_ofNat]
    omega
  rw [argsBase, BitVec.toNat_and, hmask, and_high_bits (BitVec.isLt _) (by decide), hsub]
  rfl

theorem argsBase_sub (hfits : argsSize args ≤ userStackSize) :
    argsBase args - userStackBase =
      BitVec.ofNat 64 ((userStackSize - argsSize args) / 16 * 16) := by
  obtain ⟨htop, hbottom⟩ := userStack_toNat
  have hsize : userStackSize = 0x10000 := rfl
  have hbase : (argsBase args).toNat = _ := argsBase_toNat (by omega)
  apply BitVec.eq_of_toNat_eq
  rw [BitVec.toNat_sub, BitVec.toNat_ofNat, hbase]
  omega

/-- The arguments stay in the stack if they fit. -/
theorem stores_in_stack (hne : args ≠ []) (hfits : argsSize args ≤ userStackSize) :
    ∀ s ∈ (pushArgsOntoStack stackPhys userStackBase args).stores,
      Between stackPhys ((userStackSize - argsSize args) / 16 * 16) userStackSize s := by
  intro s hs
  obtain ⟨o, haddr, -, hend⟩ := between_stores stackPhys hne s hs
  rw [argsBase_sub hfits, BitVec.add_assoc, ← BitVec.ofNat_add] at haddr
  exact ⟨_, haddr, Nat.le_add_right _ _, by omega⟩

/-- The layout does not depend on where the stack is. -/
theorem pushArgs_shift (p base kva uva : BitVec 64) (i : Nat) (args : List (List UInt8)) :
    pushArgs (p + base) i (p + kva) uva args = (pushArgs base i kva uva args).map (Store.shift p) := by
  induction args generalizing i kva uva with
  | nil => rfl
  | cons arg rest ih =>
    have hstring : pushString (p + kva) arg = (pushString kva arg).map (Store.shift p) := by
      unfold pushString
      split
      · simp [Store.shift, BitVec.add_assoc]
      · simp [Store.shift, BitVec.add_assoc]
    rw [pushArgs, pushArgs, List.map_cons, List.map_append, ← hstring, ← ih]
    simp only [wordStore, Store.shift, BitVec.add_assoc]

theorem stores_shift (stackPhys stackBase : BitVec 64) (args : List (List UInt8)) :
    (pushArgsOntoStack stackPhys stackBase args).stores =
      (pushArgsOntoStack 0 stackBase args).stores.map (Store.shift stackPhys) := by
  unfold pushArgsOntoStack
  split
  · rfl
  · simp only [List.map_append, ← pushArgs_shift]
    simp [wordStore, Store.shift, BitVec.add_assoc]

/-! What the parser can produce. -/

theorem scanArg_size (arg rest : List UInt8) :
    stringBytes (scanArg arg rest) ≤ arg.length + rest.length + 1 ∧
      stringBytes (scanArgs rest) ≤ rest.length + 1 := by
  induction rest generalizing arg with
  | nil => exact ⟨by simp [scanArg, stringBytes], by simp [scanArgs, stringBytes]⟩
  | cons b rest ih =>
    rw [scanArg, scanArgs]
    constructor
    · split
      · have hrest := (ih arg).2
        simp only [stringBytes, List.map_cons, List.sum_cons, List.length_cons] at hrest ⊢
        omega
      · have hrest := (ih (arg ++ [b])).1
        simp only [List.length_append, List.length_cons, List.length_nil] at hrest ⊢
        omega
    · split
      · simp [stringBytes]
      · have hrest := (ih [b]).1
        simp only [List.length_cons, List.length_nil] at hrest ⊢
        omega

theorem length_le_stringBytes (args : List (List UInt8)) : args.length ≤ stringBytes args := by
  induction args with
  | nil => exact Nat.le_refl _
  | cons arg rest ih =>
    simp only [stringBytes, List.map_cons, List.sum_cons, List.length_cons] at ih ⊢
    omega

theorem argsSize_parseExec (bytes : List UInt8) :
    argsSize (parseExec bytes).args ≤ 9 * bytes.length + 25 := by
  have hsize : stringBytes (parseExec bytes).args ≤ bytes.length + 1 := by
    unfold parseExec
    dsimp only
    split
    · have hscan := (scanArg_size [] (bytes.drop (bytes.findIdx (· = 0) + 1))).2
      rw [List.length_drop] at hscan
      omega
    · exact Nat.zero_le _
  have hcount := length_le_stringBytes (parseExec bytes).args
  unfold argsSize argvArraySize
  omega

/-- Everything is written inside the frames of the stack exactly if the layout fits them. -/
theorem args_stay_in_stack_iff {bytes : List UInt8} (hbytes : bytes.length ≤ maxTransfer) :
    (∀ s ∈ (pushArgsOntoStack stackPhys userStackBase (parseExec bytes).args).stores,
      ∀ a, s.Covers a → (a - stackPhys).toNat < userStackSize) ↔
      (parseExec bytes).args = [] ∨ argsSize (parseExec bytes).args ≤ userStackSize := by
  have hbound := argsSize_parseExec bytes
  have hsize : userStackSize = 0x10000 := rfl
  have htransfer : maxTransfer = 0x1000000 := rfl
  generalize (parseExec bytes).args = args at hbound ⊢
  by_cases hne : args = []
  · simp [hne, pushArgsOntoStack]
  constructor
  · intro h
    refine .inr (Nat.not_lt.mp fun hlong => ?_)
    -- the count itself lands below the stack
    obtain ⟨kva, hkva, hstores⟩ := stores_pushArgsOntoStack stackPhys hne
    have hcount : wordStore (kva + BitVec.ofNat 64 0) (BitVec.ofNat 64 args.length) ∈
        (pushArgsOntoStack stackPhys userStackBase args).stores := by
      rw [hstores]
      exact List.mem_append_right _ (List.mem_cons_of_mem _ List.mem_cons_self)
    have hcovers : (wordStore (kva + BitVec.ofNat 64 0) (BitVec.ofNat 64 args.length)).Covers kva := by
      simp [Store.Covers, wordStore]
    have hin := h _ hcount kva hcovers
    obtain ⟨htop, hbottom⟩ := userStack_toNat
    have hbase : (argsBase args).toNat = _ := argsBase_toNat (by omega)
    rw [hkva, add_comm, BitVec.add_sub_cancel, BitVec.toNat_sub] at hin
    omega
  · rintro (hnil | hfits) s hs a hcovers
    · exact absurd hnil hne
    · obtain ⟨o, haddr, -, hend⟩ := stores_in_stack stackPhys hne hfits s hs
      rw [Store.covers_iff haddr (by omega)] at hcovers
      omega

theorem args_stay_in_stack_iff_oneArg :
    (parseExec [47, 97, 0, 98, 0]).args = [[98]] ∧
      ∀ s ∈ (pushArgsOntoStack 0x100000 userStackBase (parseExec [47, 97, 0, 98, 0]).args).stores,
        ∀ a, s.Covers a → (a - 0x100000).toNat < userStackSize :=
  ⟨by decide, (args_stay_in_stack_iff 0x100000 (by decide)).mpr (.inr (by decide))⟩

/-- A program and one argument as long as the stack. -/
def longArgument : List UInt8 :=
  Fs.asBytes "/bin/shell.kxe" ++ 0 :: (List.replicate userStackSize 98 ++ [0])

theorem parseExec_longArgument :
    (parseExec longArgument).args = [List.replicate userStackSize 98] := by
  rw [longArgument, parseExec_eq (isUtf8_asBytes _) (by decide), scanArgs_append]
  · rfl
  · exact fun h => absurd (List.eq_of_mem_replicate h) (by decide)
  · exact fun h => absurd ((List.replicate_eq_nil_iff _).mp h) (by decide)

theorem count_of_long_argument (h : arg.length = 65536) :
    wordStore 0xFFFE0 1 ∈ (pushArgsOntoStack 0x100000 userStackBase [arg]).stores := by
  obtain ⟨kva, hkva, hstores⟩ := stores_pushArgsOntoStack 0x100000 (List.cons_ne_nil arg [])
  have hsize : argsSize [arg] = 65561 := by
    simp only [argsSize, argvArraySize, stringBytes, List.map_cons, List.map_nil, List.sum_cons,
      List.sum_nil, List.length_cons, List.length_nil, h]
    rfl
  have haddr : kva + BitVec.ofNat 64 0 = 0xFFFE0 := by
    rw [hkva, argsBase, hsize]
    decide
  rw [hstores, haddr]
  exact List.mem_append_right _ (List.mem_cons_of_mem _ List.mem_cons_self)

/-- The count of a list that is too long is written below the stack. -/
theorem long_argument_leaves_stack : longArgument.length ≤ maxTransfer ∧
    wordStore 0xFFFE0 1 ∈
      (pushArgsOntoStack 0x100000 userStackBase (parseExec longArgument).args).stores ∧
    (wordStore 0xFFFE0 1).Covers 0xFFFE0 ∧
    ¬((0xFFFE0 : BitVec 64) - 0x100000).toNat < userStackSize := by
  have hpath : (Fs.asBytes "/bin/shell.kxe").length = 14 := by decide
  have hlength : longArgument.length = userStackSize + 16 := by
    rw [longArgument, List.length_append, hpath, List.length_cons, List.length_append,
      List.length_replicate, List.length_singleton]
    omega
  refine ⟨?_, ?_, by decide, by decide⟩
  · rw [hlength]
    decide
  · rw [parseExec_longArgument]
    exact count_of_long_argument List.length_replicate

/-! What the process finds on its stack. -/

/-- Memory as it is seen at the addresses of the stack. -/
def stackView (m : ByteMemory 64) : ByteMemory 64 := fun a => m (stackPhys + (a - userStackBase))

theorem string_of_holds {m : ByteMemory 64} {kva : BitVec 64}
    (h : ∀ s ∈ pushString kva arg, m.Holds s) (hlength : arg.length < 2 ^ 64) {k : Nat} {b : UInt8}
    (hk : (arg ++ [0])[k]? = some b) : m (kva + BitVec.ofNat 64 k) = b := by
  by_cases hlast : k < arg.length
  · have hne : arg ≠ [] := List.ne_nil_of_length_pos (by omega)
    rw [List.getElem?_append_left hlast] at hk
    have hstring := h ⟨kva, arg⟩ (by simp [pushString, hne])
    exact hstring.get hlength.le hk
  · have hnul := h ⟨kva + BitVec.ofNat 64 arg.length, [0]⟩ (by simp [pushString])
    obtain ⟨hk', rfl⟩ := List.getElem?_eq_some_iff.mp hk
    obtain rfl : k = arg.length := by
      rw [List.length_append, List.length_singleton] at hk'
      omega
    have hzero : ([0] : List UInt8)[0]? = some 0 := rfl
    have hget := hnul.get (by simp) hzero
    simpa using hget

/-- The loop writes the pointer and the bytes of every argument. -/
theorem mem_pushArgs (base kva uva : BitVec 64) (i : Nat) {n : Nat} (h : args[n]? = some arg) :
    wordStore (base + BitVec.ofNat 64 (8 * (1 + (i + n))))
        (uva + BitVec.ofNat 64 (stringBytes (args.take n))) ∈ pushArgs base i kva uva args ∧
      ∀ s ∈ pushString (kva + BitVec.ofNat 64 (stringBytes (args.take n))) arg,
        s ∈ pushArgs base i kva uva args := by
  induction args generalizing n i kva uva with
  | nil => cases h
  | cons first rest ih =>
    rw [pushArgs]
    cases n with
    | zero =>
      obtain rfl := Option.some.inj h
      simp only [List.take_zero, stringBytes, List.map_nil, List.sum_nil, Nat.add_zero,
        BitVec.add_zero]
      exact ⟨List.mem_cons_self, fun s hs => List.mem_cons_of_mem _ (List.mem_append_left _ hs)⟩
    | succ n =>
      have hoffset : ∀ a : BitVec 64, a + BitVec.ofNat 64 (stringBytes ((first :: rest).take (n + 1))) =
          a + BitVec.ofNat 64 (first.length + 1) + BitVec.ofNat 64 (stringBytes (rest.take n)) := by
        intro a
        rw [BitVec.add_assoc, ← BitVec.ofNat_add]
        rfl
      rw [hoffset, hoffset, show i + (n + 1) = i + 1 + n by omega]
      obtain ⟨hword, hstring⟩ := ih (kva + BitVec.ofNat 64 (first.length + 1))
        (uva + BitVec.ofNat 64 (first.length + 1)) (i + 1) h
      exact ⟨List.mem_cons_of_mem _ (List.mem_append_right _ hword),
        fun s hs => List.mem_cons_of_mem _ (List.mem_append_right _ (hstring s hs))⟩

/-- Strings are counted up to a later argument. -/
theorem stringBytes_take {i j : Nat} (h : args[i]? = some arg) (hij : i < j) :
    stringBytes (args.take i) + arg.length + 1 ≤ stringBytes (args.take j) := by
  induction args generalizing i j with
  | nil => cases h
  | cons first rest ih =>
    obtain ⟨j, rfl⟩ : ∃ j', j = j' + 1 := ⟨j - 1, by omega⟩
    cases i with
    | zero =>
      obtain rfl := Option.some.inj h
      simp only [List.take_zero, List.take_succ_cons, stringBytes, List.map_nil, List.map_cons,
        List.sum_nil, List.sum_cons]
      omega
    | succ i =>
      have hrest := ih h (Nat.lt_of_succ_lt_succ hij)
      simp only [List.take_succ_cons, stringBytes, List.map_cons, List.sum_cons] at hrest ⊢
      omega

/-- Where the string of an argument starts. -/
def stringAddr (args : List (List UInt8)) (i : Nat) : BitVec 64 :=
  argsBase args + BitVec.ofNat 64 (argvArraySize args) + BitVec.ofNat 64 (stringBytes (args.take i))

theorem stringAddr_toNat (hfits : argsSize args ≤ userStackSize) {i : Nat}
    (h : args[i]? = some arg) :
    (stringAddr args i).toNat =
        (argsBase args).toNat + argvArraySize args + stringBytes (args.take i) ∧
      (stringAddr args i).toNat + arg.length + 1 ≤ userStackTop.toNat := by
  have htop : userStackTop.toNat = 0x8080000000 := by decide
  have hstack : userStackSize = 0x10000 := rfl
  have hsize : argsSize args = argvArraySize args + stringBytes args := rfl
  have hbase : (argsBase args).toNat = _ := argsBase_toNat (by omega)
  have hlast := stringBytes_take h (List.getElem?_eq_some_iff.mp h).1
  rw [List.take_length] at hlast
  rw [stringAddr, BitVec.toNat_add, BitVec.toNat_add, BitVec.toNat_ofNat, BitVec.toNat_ofNat]
  omega

theorem stack_offset_add (a x : BitVec 64) :
    stackPhys + (a + x - userStackBase) = stackPhys + (a - userStackBase) + x := by
  ring

theorem stackView_add (m : ByteMemory 64) (a x : BitVec 64) :
    stackView stackPhys m (a + x) = m (stackPhys + (a - userStackBase) + x) := by
  rw [stackView, stack_offset_add]

theorem wordAt_stackView (m : ByteMemory 64) (a : BitVec 64) :
    wordAt (stackView stackPhys m) a = wordAt m (stackPhys + (a - userStackBase)) := by
  simp only [wordAt, stackView_add]

section Pushed

variable (m : ByteMemory 64) (hne : args ≠ []) (hfits : argsSize args ≤ userStackSize)
include hne hfits

theorem holds_pushed : ∀ s ∈ (pushArgsOntoStack stackPhys userStackBase args).stores,
    (m.writes (pushArgsOntoStack stackPhys userStackBase args).stores).Holds s :=
  ByteMemory.holds_writes m
    (apart_stores stackPhys hne (Nat.le_trans hfits (by decide)))

/-- A word above the stack pointer. -/
theorem word_pushed {o : Nat} {value : BitVec 64}
    (h : wordStore (stackPhys + (argsBase args - userStackBase) + BitVec.ofNat 64 o) value ∈
      (pushArgsOntoStack stackPhys userStackBase args).stores) :
    wordAt (stackView stackPhys (m.writes (pushArgsOntoStack stackPhys userStackBase args).stores))
      (argsBase args + BitVec.ofNat 64 o) = value.toNat := by
  have hword := wordAt_of_holds (holds_pushed stackPhys m hne hfits _ h)
  rw [wordAt_stackView, ← hword, stack_offset_add]

theorem pointer_pushed {i : Nat} {arg : List UInt8} (h : args[i]? = some arg) :
    wordAt (stackView stackPhys (m.writes (pushArgsOntoStack stackPhys userStackBase args).stores))
      (argsBase args + BitVec.ofNat 64 (8 * (1 + i))) = (stringAddr args i).toNat := by
  obtain ⟨kva, rfl, hstores⟩ := stores_pushArgsOntoStack stackPhys hne
  refine word_pushed stackPhys m hne hfits ?_
  rw [hstores]
  have hword := (mem_pushArgs (stackPhys + (argsBase args - userStackBase))
    (stackPhys + (argsBase args - userStackBase) + BitVec.ofNat 64 (argvArraySize args))
    (argsBase args + BitVec.ofNat 64 (argvArraySize args)) 0 h).1
  rw [Nat.zero_add] at hword
  exact List.mem_append_left _ hword

theorem string_pushed {i : Nat} {arg : List UInt8} (h : args[i]? = some arg) {k : Nat} {b : UInt8}
    (hk : (arg ++ [0])[k]? = some b) :
    stackView stackPhys (m.writes (pushArgsOntoStack stackPhys userStackBase args).stores)
      (stringAddr args i + BitVec.ofNat 64 k) = b := by
  obtain ⟨kva, hkva, hstores⟩ := stores_pushArgsOntoStack stackPhys hne
  have hstring := (mem_pushArgs kva (kva + BitVec.ofNat 64 (argvArraySize args))
    (argsBase args + BitVec.ofNat 64 (argvArraySize args)) 0 h).2
  have hholds : ∀ s ∈ pushString (kva + BitVec.ofNat 64 (argvArraySize args) +
      BitVec.ofNat 64 (stringBytes (args.take i))) arg,
      (m.writes (pushArgsOntoStack stackPhys userStackBase args).stores).Holds s := by
    intro s hs
    refine holds_pushed stackPhys m hne hfits s ?_
    rw [hstores]
    exact List.mem_append_left _ (hstring s hs)
  have hlength : arg.length < 2 ^ 64 := by
    have htop : userStackTop.toNat = 0x8080000000 := by decide
    have hend := (stringAddr_toNat hfits h).2
    omega
  rw [stackView_add, ← string_of_holds hholds hlength hk, hkva, stringAddr, stack_offset_add,
    stack_offset_add]

end Pushed

/-- A new process finds its arguments behind its stack pointer. -/
theorem pushed_args_layout (m : ByteMemory 64) (hne : args ≠ [])
    (hfits : argsSize args ≤ userStackSize) :
    let r := pushArgsOntoStack stackPhys userStackBase args
    let stack := stackView stackPhys (m.writes r.stores)
    let pointer := fun i => wordAt stack (r.argv + BitVec.ofNat 64 (8 * i))
    (r.rsp.toNat % 16 = 0 ∧ userStackBase.toNat ≤ r.rsp.toNat ∧
      r.rsp.toNat + 8 * (args.length + 2) ≤ userStackTop.toNat) ∧
    (wordAt stack r.rsp = args.length ∧ r.argc.toNat = args.length ∧ r.argv = r.rsp + 8 ∧
      pointer args.length = 0) ∧
    (∀ i arg, args[i]? = some arg →
      r.rsp.toNat + 8 * (args.length + 2) ≤ pointer i ∧
      pointer i + arg.length + 1 ≤ userStackTop.toNat ∧
      ∀ k b, (arg ++ [0])[k]? = some b → stack (BitVec.ofNat 64 (pointer i + k)) = b) ∧
    ∀ i j arg, args[i]? = some arg → i < j → j < args.length →
      pointer i + arg.length + 1 ≤ pointer j := by
  obtain ⟨htop, hbottom⟩ := userStack_toNat
  have hstack : userStackSize = 0x10000 := rfl
  obtain ⟨hsize, harray⟩ := argsSize_eq args
  have hbase : (argsBase args).toNat = _ := argsBase_toNat (by omega)
  obtain ⟨kva, rfl, hstores⟩ := stores_pushArgsOntoStack stackPhys hne
  have hr : ∀ r, r = pushArgsOntoStack stackPhys userStackBase args →
      r.rsp = argsBase args ∧ r.argc = BitVec.ofNat 64 args.length ∧ r.argv = argsBase args + 8 := by
    rintro r rfl
    rw [pushArgsOntoStack, if_neg hne]
    exact ⟨rfl, rfl, rfl⟩
  obtain ⟨hrsp, hargc, hargv⟩ := hr _ rfl
  have hslot : ∀ i, argsBase args + 8 + BitVec.ofNat 64 (8 * i) =
      argsBase args + BitVec.ofNat 64 (8 * (1 + i)) := by
    intro i
    rw [Nat.mul_add, BitVec.ofNat_add, BitVec.add_assoc]
    rfl
  have hwords : ∀ s, s = wordStore (stackPhys + (argsBase args - userStackBase) +
        BitVec.ofNat 64 (8 * (1 + args.length))) 0 ∨
      s = wordStore (stackPhys + (argsBase args - userStackBase) + BitVec.ofNat 64 0)
        (BitVec.ofNat 64 args.length) →
      s ∈ (pushArgsOntoStack stackPhys userStackBase args).stores := by
    intro s hs
    rw [hstores]
    exact List.mem_append_right _ (by simpa using hs)
  have hcount := word_pushed stackPhys m hne hfits (hwords _ (.inr rfl))
  have hnull := word_pushed stackPhys m hne hfits (hwords _ (.inl rfl))
  have hargs : (BitVec.ofNat 64 args.length).toNat = args.length := by
    rw [BitVec.toNat_ofNat]
    omega
  dsimp only
  rw [hrsp, hargc, hargv]
  simp only [hslot]
  refine ⟨⟨by omega, by omega, by omega⟩, ⟨?_, hargs, trivial, hnull⟩, ?_, ?_⟩
  · rw [← hargs, ← hcount, BitVec.add_zero]
  · intro i arg h
    obtain ⟨haddr, hend⟩ := stringAddr_toNat hfits h
    rw [pointer_pushed stackPhys m hne hfits h]
    refine ⟨by omega, hend, ?_⟩
    intro k b hk
    rw [BitVec.ofNat_add, BitVec.ofNat_toNat, BitVec.setWidth_eq]
    exact string_pushed stackPhys m hne hfits h hk
  · intro i j arg h hij hj
    have h' := List.getElem?_eq_getElem hj
    have hmore := stringBytes_take h hij
    rw [pointer_pushed stackPhys m hne hfits h, pointer_pushed stackPhys m hne hfits h',
      (stringAddr_toNat hfits h).1, (stringAddr_toNat hfits h').1]
    omega

theorem pushed_args_layout_twoArgs :
    ∃ rsp : BitVec 64, rsp.toNat % 16 = 0 ∧
      wordAt (stackView 0x100000 (ByteMemory.writes (fun _ => 0xFF)
        (pushArgsOntoStack 0x100000 userStackBase [[98], [99, 100]]).stores)) rsp = 2 :=
  have h := @pushed_args_layout 0x100000 [[98], [99, 100]] (fun _ => 0xFF) (by decide) (by decide)
  ⟨_, h.1.1, h.2.1.1⟩

end KazuOS.Kernel
