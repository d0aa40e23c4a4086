import KazuOS.Fs.Image
import KazuOS.Lib.Utf8
import Mathlib.Data.List.DropRight

/-! The buffer of SYS_EXEC. The kernel reads a path and arguments from it, each up to a zero
byte, and stops at the first argument that is empty; the runtime and the shell build it. -/
namespace KazuOS.Kernel

open KazuOS.Fs KazuOS.Lib

/-- What a buffer asks for. -/
structure ExecRequest where
  path : List UInt8
  args : List (List UInt8)
  deriving DecidableEq, Repr

mutual

/-- The outer loop of the parser, on the rest of the buffer: it ends at an empty argument. -/
def scanArgs : List UInt8 → List (List UInt8)
  | [] => []
  | b :: rest => if b = 0 then [] else scanArg [b] rest

/-- The inner loop, behind the first bytes of an argument. -/
def scanArg (arg : List UInt8) : List UInt8 → List (List UInt8)
  | [] => [arg]
  | b :: rest => if b = 0 then arg :: scanArgs rest else scanArg (arg ++ [b]) rest

end

/-- The parser of `sys_exec`. -/
def parseExec (bytes : List UInt8) : ExecRequest :=
  let pathEnd := bytes.findIdx (· = 0)
  { path := (fromUtf8 (bytes.take pathEnd)).toOption.getD []
    args := if pathEnd < bytes.length - 1 then scanArgs (bytes.drop (pathEnd + 1)) else [] }

variable {spaces : List UInt8} {word : List UInt8} {a : List UInt8}

theorem scanArg_append (ha : 0 ∉ a) (arg rest : List UInt8) :
    scanArg arg (a ++ 0 :: rest) = (arg ++ a) :: scanArgs rest := by
  induction a generalizing arg with
  | nil => simp [scanArg]
  | cons b a ih =>
    rw [List.mem_cons, not_or] at ha
    rw [List.cons_append, scanArg, if_neg (Ne.symm ha.1), ih ha.2, List.append_assoc,
      List.singleton_append]

/-- An argument is read up to its zero byte. -/
theorem scanArgs_append (ha : 0 ∉ a) (hne : a ≠ []) (rest : List UInt8) :
    scanArgs (a ++ 0 :: rest) = a :: scanArgs rest := by
  cases a with
  | nil => exact absurd rfl hne
  | cons b a =>
    rw [List.mem_cons, not_or] at ha
    rw [List.cons_append, scanArgs, if_neg (Ne.symm ha.1), scanArg_append ha.2]
    rfl

/-- Arguments one after the other, each with a zero byte behind it. -/
def terminated (args : List (List UInt8)) : List UInt8 := args.flatMap (· ++ [0])

theorem terminated_cons (arg : List UInt8) (args : List (List UInt8)) :
    terminated (arg :: args) = arg ++ 0 :: terminated args := by
  simp [terminated]

theorem length_terminated (args : List (List UInt8)) :
    (terminated args).length = (args.map (·.length + 1)).sum := by
  induction args with
  | nil => rfl
  | cons arg args ih =>
    rw [terminated_cons, List.map_cons, List.sum_cons, List.length_append, List.length_cons, ih]
    omega

theorem scanArgs_terminated {args : List (List UInt8)} (hnul : ∀ a ∈ args, 0 ∉ a) (hne : [] ∉ args)
    (rest : List UInt8) : scanArgs (terminated args ++ rest) = args ++ scanArgs rest := by
  induction args with
  | nil => rfl
  | cons arg args ih =>
    rw [List.forall_mem_cons] at hnul
    rw [List.mem_cons, not_or] at hne
    rw [terminated_cons, List.append_assoc, List.cons_append, scanArgs_append hnul.1 (Ne.symm hne.1),
      ih hnul.2 hne.2]
    rfl

/-- No argument that is read is empty. -/
theorem nil_notMem_scan (bytes : List UInt8) :
    [] ∉ scanArgs bytes ∧ ∀ arg, arg ≠ [] → [] ∉ scanArg arg bytes := by
  induction bytes with
  | nil => simp [scanArgs, scanArg, eq_comm]
  | cons b rest ih =>
    constructor
    · rw [scanArgs]
      split
      · exact List.not_mem_nil
      · exact ih.2 [b] (List.cons_ne_nil b [])
    · intro arg harg
      rw [scanArg]
      split
      · rw [List.mem_cons, not_or]
        exact ⟨harg.symm, ih.1⟩
      · exact ih.2 _ (by simp)

/-- Behind the path the arguments are read. -/
theorem parseExec_eq {path : List UInt8} (hutf8 : IsUtf8 path) (hnul : 0 ∉ path)
    (rest : List UInt8) : parseExec (path ++ 0 :: rest) = ⟨path, scanArgs rest⟩ := by
  have hend : (path ++ 0 :: rest).findIdx (· = 0) = path.length := by
    rw [List.findIdx_append, List.findIdx_cons]
    have hnone : path.findIdx (· = 0) = path.length := by
      apply List.findIdx_eq_length.mpr
      intro b hb
      exact decide_eq_false fun h => hnul (h ▸ hb)
    simp [hnone]
  have hpath : fromUtf8 path = .ok path := by
    rw [fromUtf8, if_pos ((isUtf8_iff_validate path).mp hutf8)]
  simp only [parseExec, hend, List.take_left, hpath, Except.toOption, Option.getD_some]
  congr 1
  split
  · rw [← List.singleton_append, ← List.append_assoc, List.drop_left' (by simp)]
  · rename_i hshort
    have hrest : rest = [] := by
      simp only [List.length_append, List.length_cons] at hshort
      exact List.length_eq_zero_iff.mp (by omega)
    rw [hrest]
    rfl

/-! The runtime's `sys_exec_with`. -/

/-- The loop over the arguments. A slice out of range is a panic. -/
def copyArgs (buffer : List UInt8) (offset : Nat) : List (List UInt8) → Option (List UInt8)
  | [] => some buffer
  | arg :: args => do
      let buffer ← overwrite buffer offset arg
      copyArgs buffer (offset + (arg.length + 1)) args

/-- The buffer that `sys_exec_with` hands over. -/
def sysExecWith (path : List UInt8) (args : List (List UInt8)) : Option (List UInt8) := do
  let totalLen := path.length + 1 + (args.map (·.length + 1)).sum + 1
  let buffer ← overwrite (List.replicate totalLen 0) 0 path
  copyArgs buffer (path.length + 1) args

theorem copyArgs_eq (done : List UInt8) (args : List (List UInt8)) (n : Nat) :
    copyArgs (done ++ List.replicate ((terminated args).length + n) 0) done.length args =
      some (done ++ terminated args ++ List.replicate n 0) := by
  induction args generalizing done with
  | nil => simp [copyArgs, terminated]
  | cons arg args ih =>
    have hroom : List.replicate ((terminated (arg :: args)).length + n) (0 : UInt8) =
        List.replicate arg.length 0 ++ 0 :: List.replicate ((terminated args).length + n) 0 := by
      rw [← List.replicate_succ, List.replicate_append_replicate, terminated_cons]
      simp only [List.length_append, List.length_cons]
      congr 1
      omega
    have hcopied : overwrite (done ++ List.replicate ((terminated (arg :: args)).length + n) 0)
        done.length arg =
          some ((done ++ (arg ++ [0])) ++ List.replicate ((terminated args).length + n) 0) := by
      rw [hroom, overwrite_of_parts rfl List.length_replicate]
      simp
    have hnext : done.length + (arg.length + 1) = (done ++ (arg ++ [0])).length := by simp
    rw [copyArgs, hcopied, Option.bind_eq_bind, Option.bind_some, hnext, ih, terminated_cons]
    simp

theorem sysExecWith_eq (path : List UInt8) (args : List (List UInt8)) :
    sysExecWith path args = some (path ++ 0 :: (terminated args ++ [0])) := by
  have hroom : List.replicate (path.length + 1 + (args.map (·.length + 1)).sum + 1) (0 : UInt8) =
      List.replicate path.length 0 ++ 0 :: List.replicate ((terminated args).length + 1) 0 := by
    rw [length_terminated, ← List.replicate_succ, List.replicate_append_replicate]
    congr 1
    omega
  have hpath : overwrite (List.replicate (path.length + 1 + (args.map (·.length + 1)).sum + 1) 0) 0
      path = some (path ++ 0 :: List.replicate ((terminated args).length + 1) 0) := by
    rw [hroom]
    exact @overwrite_of_parts [] _ _ _ _ rfl List.length_replicate
  have hcopied := copyArgs_eq (path ++ [0]) args 1
  simp only [List.length_append, List.length_singleton, List.append_assoc, List.singleton_append,
    List.replicate_one] at hcopied
  rw [sysExecWith, hpath, Option.bind_eq_bind, Option.bind_some, hcopied]
  rfl

/-- The kernel reads back what `sys_exec_with` was given exactly if no argument is empty. -/
theorem exec_reads_back_iff {path : List UInt8} {args : List (List UInt8)} (hutf8 : IsUtf8 path)
    (hnul : 0 ∉ path) (hargs : ∀ a ∈ args, 0 ∉ a) :
    (sysExecWith path args).map parseExec = some ⟨path, args⟩ ↔ [] ∉ args := by
  rw [sysExecWith_eq, Option.map_some, parseExec_eq hutf8 hnul, Option.some.injEq,
    ExecRequest.mk.injEq, eq_self, true_and]
  constructor
  · intro h
    rw [← h]
    exact (nil_notMem_scan _).1
  · intro h
    rw [scanArgs_terminated hargs h]
    simp [scanArgs]

theorem exec_reads_back_iff_twoArgs :
    (sysExecWith [47, 97] [[98], [99, 100]]).map parseExec =
      some ⟨[47, 97], [[98], [99, 100]]⟩ :=
  (exec_reads_back_iff ⟨['/', 'a'], by decide⟩ (by decide) (by decide)).mpr (by decide)

/-- An empty argument takes those behind it along. -/
theorem empty_argument_ends_list : IsUtf8 [47, 97] ∧
    (sysExecWith [47, 97] [[98], [], [99]]).map parseExec = some ⟨[47, 97], [[98]]⟩ := by
  have hutf8 : IsUtf8 [47, 97] := ⟨['/', 'a'], by decide⟩
  refine ⟨hutf8, ?_⟩
  rw [sysExecWith_eq, Option.map_some, parseExec_eq hutf8 (by decide)]
  decide

/-! The shell's `exec_bin`. -/

/-- How the shell's buffer comes out. A slice out of range is a panic. -/
inductive Packing (α : Type) where
  | panics
  /-- The call returns `u64::MAX`. -/
  | refused
  | packed (value : α)
  deriving DecidableEq, Repr

namespace Packing

def bind {α β : Type} : Packing α → (α → Packing β) → Packing β
  | .panics, _ => .panics
  | .refused, _ => .refused
  | .packed a, f => f a

instance : Monad Packing where
  pure := .packed
  bind := bind

def ofOption {α : Type} : Option α → Packing α
  | none => .panics
  | some a => .packed a

@[simp] theorem packed_bind {α β : Type} (a : α) (f : α → Packing β) :
    (Packing.packed a >>= f) = f a := rfl

@[simp] theorem pure_eq {α : Type} (a : α) : (pure a : Packing α) = .packed a := rfl

end Packing

def space : UInt8 := 32
def slash : UInt8 := 47

/-- Without the spaces at both ends. -/
def trim (s : List UInt8) : Packing (List UInt8) :=
  let start := s.findIdx (· ≠ space)
  let stop := match s.reverse.findIdx? (· ≠ space) with
    | some i => s.length - i
    | none => start
  .ofOption (slice s start stop)

def shellBuffer : Nat := 128

/-- `buf[start..].copy_from_slice(src)`, with the end of the slice at the end of `src`. -/
def put (buf : List UInt8) (start : Nat) (src : List UInt8) : Packing (List UInt8) :=
  .ofOption (overwrite buf start src)

/-- The path goes to the front of the buffer. -/
def putPath (buf name : List UInt8) : Packing (List UInt8 × Nat) :=
  if slash ∈ name then
    if name.head? = some slash then
      if name.length + 1 > buf.length then .refused
      else do
        let buf ← put buf 0 name
        return (buf, name.length)
    else if 1 + name.length + 1 > buf.length then .refused
    else do
      let buf ← put buf 0 [slash]
      let buf ← put buf 1 name
      return (buf, 1 + name.length)
  else
    let start := asBytes "/bin/"
    let suffix := asBytes ".kxe"
    let pathTotal := start.length + name.length + suffix.length
    if pathTotal + 1 > buf.length then .refused
    else do
      let buf ← put buf 0 start
      let buf ← put buf start.length name
      let buf ← put buf (start.length + name.length) suffix
      return (buf, pathTotal)

/-- The loop over the words behind the name. -/
def putArgs (buf : List UInt8) (pos : Nat) : List (List UInt8) → Packing (List UInt8 × Nat)
  | [] => .packed (buf, pos)
  | word :: words => do
      let arg ← trim word
      if arg = [] then putArgs buf pos words
      else if pos + arg.length + 1 > buf.length then .refused
      else
        let buf ← put buf pos arg
        let buf ← put buf (pos + arg.length) [0]
        putArgs buf (pos + arg.length + 1) words

def putArgsPart (buf : List UInt8) (pos : Nat) (argsPart : List UInt8) :
    Packing (List UInt8 × Nat) :=
  if argsPart = [] then .packed (buf, pos) else putArgs buf pos (argsPart.splitOn space)

/-- The bytes that `try_exec_path` hands to SYS_EXEC. -/
def tryExecPath (name argsPart : List UInt8) : Packing (List UInt8) := do
  let (buf, pathSection) ← putPath (List.replicate shellBuffer 0) name
  let buf ← put buf pathSection [0]
  let (buf, pos) ← putArgsPart buf (pathSection + 1) argsPart
  let total := if pos > pathSection + 1 then pos else pathSection + 1
  return buf.take total

/-- What follows the name. -/
def argsPart (cmd name : List UInt8) : Packing (List UInt8) :=
  if cmd.length > name.length + 1 then trim (cmd.drop (name.length + 1)) else .packed []

def execBin (cmd : List UInt8) : Packing (List UInt8) := do
  let name := (cmd.splitOn space).head?.getD cmd
  let args ← argsPart cmd name
  tryExecPath name args

/-! What it asks for: the words of the command line. -/

/-- The words that are not empty. -/
def tokens (line : List UInt8) : List (List UInt8) := (line.splitOn space).filter (· ≠ [])

def commandPath (word : List UInt8) : List UInt8 :=
  if slash ∈ word then if word.head? = some slash then word else slash :: word
  else asBytes "/bin/" ++ word ++ asBytes ".kxe"

def commandRequest (cmd : List UInt8) : ExecRequest :=
  let words := cmd.splitOn space
  ⟨commandPath (words.head?.getD []), words.tail.filter (· ≠ [])⟩

theorem tokens_append (xs ys : List UInt8) :
    tokens (xs ++ space :: ys) = tokens xs ++ tokens ys := by
  rw [tokens, List.splitOn_append_cons_self, List.filter_append]
  rfl

theorem tokens_spaces (h : ∀ b ∈ spaces, b = space) (line : List UInt8) :
    tokens (spaces ++ line) = tokens line := by
  induction spaces with
  | nil => rfl
  | cons b spaces ih =>
    rw [List.forall_mem_cons] at h
    have hfirst := tokens_append [] (spaces ++ line)
    rw [h.1, List.cons_append, ← List.nil_append (space :: (spaces ++ line)), hfirst, ih h.2]
    rfl

theorem tokens_append_spaces (h : ∀ b ∈ spaces, b = space)
    (line : List UInt8) : tokens (line ++ spaces) = tokens line := by
  cases spaces with
  | nil => rw [List.append_nil]
  | cons b spaces =>
    rw [List.forall_mem_cons] at h
    have hrest := tokens_spaces h.2 []
    rw [List.append_nil] at hrest
    rw [h.1, tokens_append, hrest]
    exact List.append_nil _

theorem space_notMem_splitOn (line : List UInt8) : ∀ word ∈ line.splitOn space, space ∉ word := by
  induction line with
  | nil => simp
  | cons b line ih =>
    rw [List.splitOn_cons_eq_if_modifyHead]
    split
    · rw [List.forall_mem_cons]
      exact ⟨List.not_mem_nil, ih⟩
    · rename_i hb
      obtain ⟨word, words, hwords⟩ := List.exists_cons_of_ne_nil (List.splitOn_ne_nil space line)
      rw [hwords, List.forall_mem_cons] at ih
      rw [hwords, List.modifyHead_cons, List.forall_mem_cons, List.mem_cons, not_or]
      exact ⟨⟨fun h => hb (by simp [h]), ih.1⟩, ih.2⟩

/-- Only spaces are cut off. -/
theorem trim_spec (s : List UInt8) : ∃ before t after, s = before ++ t ++ after ∧
    trim s = .packed t ∧ (∀ b ∈ before, b = space) ∧ ∀ b ∈ after, b = space := by
  have hbefore : ∀ b ∈ s.take (s.findIdx (· ≠ space)), b = space := by
    intro b hb
    obtain ⟨i, hi, rfl⟩ := List.mem_take_iff_getElem.mp hb
    have hnot := List.not_of_lt_findIdx (Nat.lt_of_lt_of_le hi (Nat.min_le_left ..))
    simpa using hnot
  have hslice : ∀ start stop, start ≤ stop → stop ≤ s.length →
      s = s.take start ++ (s.drop start).take (stop - start) ++ s.drop stop := by
    intro start stop hle hstop
    conv_lhs =>
      rw [← List.take_append_drop start s, ← List.take_append_drop (stop - start) (s.drop start)]
    rw [List.drop_drop, Nat.add_sub_cancel' hle, List.append_assoc]
  cases hlast : s.reverse.findIdx? (· ≠ space) with
  | none =>
    have hall : ∀ b ∈ s, b = space := by
      intro b hb
      simpa using List.findIdx?_eq_none_iff.mp hlast b (List.mem_reverse.mpr hb)
    have hlength : s.findIdx (· ≠ space) ≤ s.length := List.findIdx_le_length
    refine ⟨_, _, _, hslice _ _ (Nat.le_refl _) hlength, ?_, hbefore, ?_⟩
    · simp only [trim, hlast, slice, Nat.le_refl, hlength, and_self, if_true]
      rfl
    · exact fun b hb => hall b (List.mem_of_mem_drop hb)
  | some i =>
    obtain ⟨hi, hat, hlater⟩ := List.findIdx?_eq_some_iff_getElem.mp hlast
    have hlength : i < s.length := by simpa using hi
    have hstart : s.findIdx (· ≠ space) ≤ s.length - 1 - i := by
      by_contra hlate
      have hnot := List.not_of_lt_findIdx (Nat.not_le.mp hlate)
      rw [List.getElem_reverse] at hat
      simp_all
    have hstop : s.findIdx (· ≠ space) ≤ s.length - i := by omega
    refine ⟨_, _, _, hslice _ (s.length - i) hstop (Nat.sub_le ..), ?_, hbefore, ?_⟩
    · simp only [trim, hlast, slice, hstop, Nat.sub_le, and_self, if_true]
      rfl
    · intro b hb
      obtain ⟨j, hj, rfl⟩ := List.mem_drop_iff_getElem.mp hb
      have hspace := hlater (s.length - 1 - (s.length - i + j)) (by omega)
      rw [List.getElem_reverse] at hspace
      have hindex : s.length - 1 - (s.length - 1 - (s.length - i + j)) = s.length - i + j := by omega
      simpa [hindex] using hspace

theorem trim_eq_self (h : space ∉ word) : trim word = .packed word := by
  obtain ⟨before, t, after, rfl, htrim, hbefore, hafter⟩ := trim_spec word
  have hnone : ∀ {spaces : List UInt8}, (∀ b ∈ spaces, b = space) → space ∉ spaces → spaces = [] :=
    fun hall hnot => List.eq_nil_iff_forall_not_mem.mpr fun b hb => hnot (hall b hb ▸ hb)
  simp only [List.mem_append, not_or] at h
  cases hnone hbefore h.1.1
  cases hnone hafter h.2
  simpa using htrim

theorem trim_tokens (line : List UInt8) : ∃ t, trim line = .packed t ∧ tokens t = tokens line := by
  obtain ⟨before, t, after, rfl, htrim, hbefore, hafter⟩ := trim_spec line
  refine ⟨t, htrim, ?_⟩
  rw [tokens_append_spaces hafter, tokens_spaces hbefore]

/-! The buffer while it is filled: what has been put, then zeros. -/

def room (done : List UInt8) : List UInt8 :=
  done ++ List.replicate (shellBuffer - done.length) 0

theorem put_room {done src : List UInt8} {start : Nat} (hstart : start = done.length)
    (h : (done ++ src).length ≤ shellBuffer) :
    put (room done) start src = .packed (room (done ++ src)) := by
  rw [List.length_append] at h
  have hrest : List.replicate (shellBuffer - done.length) (0 : UInt8) =
      List.replicate src.length 0 ++ List.replicate (shellBuffer - (done ++ src).length) 0 := by
    rw [List.replicate_append_replicate, List.length_append]
    congr 1
    omega
  rw [put, room, hrest, overwrite_of_parts hstart List.length_replicate, room, List.append_assoc]
  rfl

theorem putPath_eq (name : List UInt8) :
    putPath (room []) name =
      if (commandPath name).length + 1 ≤ shellBuffer then
        .packed (room (commandPath name), (commandPath name).length)
      else .refused := by
  have hlength : (room []).length = shellBuffer := by simp [room]
  unfold putPath commandPath
  rw [hlength]
  split
  · split
    · by_cases hfits : name.length + 1 ≤ shellBuffer
      · have hname : put (room []) 0 name = .packed (room name) :=
          put_room rfl (by simp; omega)
        rw [if_neg (by omega), if_pos hfits, hname]
        rfl
      · rw [if_pos (by omega), if_neg hfits]
    · rw [List.length_cons]
      by_cases hfits : name.length + 1 + 1 ≤ shellBuffer
      · have hfirst : put (room []) 0 [slash] = .packed (room [slash]) :=
          put_room rfl (by simp; omega)
        have hname : put (room [slash]) 1 name = .packed (room (slash :: name)) :=
          put_room rfl (by simp; omega)
        rw [if_neg (by omega), if_pos hfits, hfirst, Packing.packed_bind, hname,
          Packing.packed_bind, Packing.pure_eq, Nat.add_comm]
      · rw [if_pos (by omega), if_neg hfits]
  · generalize asBytes "/bin/" = first
    generalize asBytes ".kxe" = last
    simp only [List.length_append]
    by_cases hfits : first.length + name.length + last.length + 1 ≤ shellBuffer
    · have hfirst : put (room []) 0 first = .packed (room first) :=
        put_room rfl (by simp; omega)
      have hname : put (room first) first.length name = .packed (room (first ++ name)) :=
        put_room rfl (by simp; omega)
      have hlast : put (room (first ++ name)) (first.length + name.length) last =
          .packed (room (first ++ name ++ last)) :=
        put_room List.length_append.symm (by simp; omega)
      rw [if_neg (by omega), if_pos hfits, hfirst, Packing.packed_bind, hname,
        Packing.packed_bind, hlast]
      rfl
    · rw [if_pos (by omega), if_neg hfits]

variable {done : List UInt8} {words : List (List UInt8)}

theorem length_room (h : done.length ≤ shellBuffer) : (room done).length = shellBuffer := by
  simp only [room, List.length_append, List.length_replicate]
  omega

theorem putArgs_eq (hwords : ∀ word ∈ words, space ∉ word) (hdone : done.length ≤ shellBuffer) :
    putArgs (room done) done.length words =
      if (done ++ terminated (words.filter (· ≠ []))).length ≤ shellBuffer then
        .packed (room (done ++ terminated (words.filter (· ≠ []))),
          (done ++ terminated (words.filter (· ≠ []))).length)
      else .refused := by
  induction words generalizing done with
  | nil => simp [putArgs, terminated, hdone]
  | cons word words ih =>
    rw [List.forall_mem_cons] at hwords
    rw [putArgs, trim_eq_self hwords.1, Packing.packed_bind]
    by_cases hempty : word = []
    · rw [if_pos hempty, ih hwords.2 hdone, hempty]
      rfl
    · have htokens : terminated ((word :: words).filter (· ≠ [])) =
          word ++ [0] ++ terminated (words.filter (· ≠ [])) := by
        rw [List.filter_cons_of_pos (by simpa using hempty), terminated_cons]
        simp
      rw [if_neg hempty, length_room hdone, htokens, ← List.append_assoc, ← List.append_assoc]
      by_cases hfits : done.length + word.length + 1 ≤ shellBuffer
      · have hword : put (room done) done.length word = .packed (room (done ++ word)) :=
          put_room rfl (by simp; omega)
        have hzero : put (room (done ++ word)) (done.length + word.length) [0] =
            .packed (room (done ++ word ++ [0])) :=
          put_room List.length_append.symm (by simp; omega)
        have hnext : done.length + word.length + 1 = (done ++ word ++ [0]).length := by
          simp [Nat.add_assoc]
        rw [if_neg (by omega), hword, Packing.packed_bind, hzero, Packing.packed_bind, hnext,
          ih hwords.2 (by simp; omega)]
      · rw [if_pos (by omega), if_neg]
        simp only [List.length_append, List.length_singleton]
        omega

theorem putArgsPart_eq (hdone : done.length ≤ shellBuffer) {pos : Nat}
    (hpos : pos = done.length) (args : List UInt8) :
    putArgsPart (room done) pos args =
      if (done ++ terminated (tokens args)).length ≤ shellBuffer then
        .packed (room (done ++ terminated (tokens args)), (done ++ terminated (tokens args)).length)
      else .refused := by
  rw [hpos, putArgsPart]
  split
  · rename_i hempty
    have hnone : terminated (tokens args) = [] := by
      rw [hempty]
      rfl
    rw [hnone, List.append_nil, if_pos hdone]
  · exact putArgs_eq (space_notMem_splitOn args) hdone

theorem tryExecPath_eq (name args : List UInt8) :
    tryExecPath name args =
      if (commandPath name ++ [0] ++ terminated (tokens args)).length ≤ shellBuffer then
        .packed (commandPath name ++ [0] ++ terminated (tokens args))
      else .refused := by
  have hbuf : List.replicate shellBuffer 0 = room [] := rfl
  rw [tryExecPath, hbuf, putPath_eq]
  by_cases hpath : (commandPath name).length + 1 ≤ shellBuffer
  · have hzero : put (room (commandPath name)) (commandPath name).length [0] =
        .packed (room (commandPath name ++ [0])) := put_room rfl (by simpa using hpath)
    have hdone : (commandPath name ++ [0]).length ≤ shellBuffer := by simpa using hpath
    rw [if_pos hpath, Packing.packed_bind]
    dsimp only
    rw [hzero, Packing.packed_bind, putArgsPart_eq hdone (by simp)]
    split
    · have htotal : (if (commandPath name ++ [0] ++ terminated (tokens args)).length >
            (commandPath name).length + 1 then
          (commandPath name ++ [0] ++ terminated (tokens args)).length
          else (commandPath name).length + 1) =
          (commandPath name ++ [0] ++ terminated (tokens args)).length := by
        simp only [List.length_append, List.length_singleton]
        split
        · rfl
        · omega
      rw [Packing.packed_bind]
      dsimp only
      rw [htotal, room, List.take_left]
      rfl
    · rfl
  · rw [if_neg hpath, if_neg]
    · rfl
    · simp only [List.length_append, List.length_singleton]
      omega

/-- The rest of the line holds the words behind the first. -/
theorem argsPart_eq {cmd name : List UInt8} (hsplit : cmd.splitOn space = name :: words) :
    ∃ args, argsPart cmd name = .packed args ∧ tokens args = words.filter (· ≠ []) := by
  by_cases hspace : space ∈ cmd
  · obtain ⟨first, rest, rfl, hfirst⟩ := List.eq_append_cons_of_mem hspace
    rw [List.splitOn_append_cons_self_of_not_mem hfirst] at hsplit
    cases hsplit
    have hdrop : (name ++ space :: rest).drop (name.length + 1) = rest := by
      rw [← List.singleton_append, ← List.append_assoc, List.drop_left' (by simp)]
    obtain ⟨args, htrim, htokens⟩ := trim_tokens rest
    rw [argsPart, hdrop]
    split
    · exact ⟨args, htrim, htokens⟩
    · rename_i hshort
      have hempty : rest = [] := by
        simp only [List.length_append, List.length_cons] at hshort
        exact List.length_eq_zero_iff.mp (by omega)
      rw [hempty]
      exact ⟨[], rfl, rfl⟩
  · rw [List.splitOn_eq_singleton hspace] at hsplit
    cases hsplit
    exact ⟨[], if_neg (by omega), rfl⟩

theorem execBin_eq (cmd : List UInt8) :
    execBin cmd =
      let request := commandRequest cmd
      if (request.path ++ [0] ++ terminated request.args).length ≤ shellBuffer then
        .packed (request.path ++ [0] ++ terminated request.args)
      else .refused := by
  obtain ⟨name, words, hsplit⟩ := List.exists_cons_of_ne_nil (List.splitOn_ne_nil space cmd)
  obtain ⟨args, hargs, htokens⟩ := argsPart_eq hsplit
  simp only [execBin, commandRequest, hsplit, List.head?_cons, Option.getD_some, List.tail_cons]
  rw [hargs, Packing.packed_bind, tryExecPath_eq, htokens]

theorem isUtf8_asBytes (s : String) : IsUtf8 (asBytes s) :=
  (isUtf8_iff_validate _).mpr (ByteArray.validateUTF8_eq_true_iff.mpr s.isValidUTF8)

/-- The words of a line are parts of it, cut at spaces. -/
theorem splitOn_parts {cmd : List UInt8} (hutf8 : IsUtf8 cmd) (hnul : 0 ∉ cmd) :
    ∀ word ∈ cmd.splitOn space, IsUtf8 word ∧ 0 ∉ word := by
  induction hn : cmd.length using Nat.strong_induction_on generalizing cmd with
  | _ n ih =>
    by_cases hspace : space ∈ cmd
    · obtain ⟨name, rest, rfl, hname⟩ := List.eq_append_cons_of_mem hspace
      obtain ⟨hfirst, hrest⟩ := hutf8.split (by decide)
      simp only [List.mem_append, List.mem_cons, not_or] at hnul
      rw [List.splitOn_append_cons_self_of_not_mem hname, List.forall_mem_cons]
      refine ⟨⟨hfirst, hnul.1⟩, ih rest.length ?_ hrest hnul.2.2 rfl⟩
      rw [← hn, List.length_append, List.length_cons]
      omega
    · rw [List.splitOn_eq_singleton hspace, List.forall_mem_singleton]
      exact ⟨hutf8, hnul⟩

theorem commandPath_parts (hutf8 : IsUtf8 word) (hnul : 0 ∉ word) :
    IsUtf8 (commandPath word) ∧ 0 ∉ commandPath word := by
  unfold commandPath
  split
  · split
    · exact ⟨hutf8, hnul⟩
    · refine ⟨IsUtf8.append (a := [slash]) ⟨['/'], by decide⟩ hutf8, ?_⟩
      rw [List.mem_cons, not_or]
      exact ⟨by decide, hnul⟩
  · refine ⟨((isUtf8_asBytes _).append hutf8).append (isUtf8_asBytes _), ?_⟩
    simp only [List.mem_append, not_or]
    exact ⟨⟨by decide, hnul⟩, by decide⟩

/-- A command line that fits reaches the kernel as its words; any other is refused before
anything is written outside the buffer. -/
theorem exec_bin_reaches_kernel {cmd : List UInt8} (hutf8 : IsUtf8 cmd) (hnul : 0 ∉ cmd) :
    let request := commandRequest cmd
    let encoded := request.path.length + 1 + (request.args.map (·.length + 1)).sum
    (encoded ≤ shellBuffer → ∃ bytes, execBin cmd = .packed bytes ∧ parseExec bytes = request) ∧
      (shellBuffer < encoded → execBin cmd = .refused) := by
  have hparts := splitOn_parts hutf8 hnul
  obtain ⟨name, words, hsplit⟩ := List.exists_cons_of_ne_nil (List.splitOn_ne_nil space cmd)
  have hlength : ∀ request : ExecRequest,
      (request.path ++ [0] ++ terminated request.args).length =
        request.path.length + 1 + (request.args.map (·.length + 1)).sum := by
    intro request
    simp only [List.length_append, List.length_singleton, length_terminated]
  simp only [execBin_eq, hlength]
  constructor
  · intro hfits
    refine ⟨_, if_pos hfits, ?_⟩
    rw [hsplit, List.forall_mem_cons] at hparts
    obtain ⟨hpath, hpathNul⟩ := commandPath_parts hparts.1.1 hparts.1.2
    have hargNul : ∀ a ∈ words.filter (· ≠ []), 0 ∉ a :=
      fun a ha => (hparts.2 a (List.mem_of_mem_filter ha)).2
    have hargs := scanArgs_terminated hargNul (by simp) []
    simp only [commandRequest, hsplit, List.head?_cons, Option.getD_some, List.tail_cons,
      List.append_assoc, List.singleton_append]
    rw [parseExec_eq hpath hpathNul]
    simpa [scanArgs] using hargs
  · exact fun hlong => if_neg (Nat.not_le.mpr hlong)

theorem exec_bin_reaches_kernel_listing : ∃ bytes,
    execBin (asBytes "ls -l  /tmp") = .packed bytes ∧
      parseExec bytes = ⟨asBytes "/bin/ls.kxe", [asBytes "-l", asBytes "/tmp"]⟩ :=
  (exec_bin_reaches_kernel (isUtf8_asBytes _) (by decide +kernel)).1 (by decide +kernel)

end KazuOS.Kernel
