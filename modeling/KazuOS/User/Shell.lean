import Mathlib.Data.UInt

/-! The line editor of the shell. An access beyond the end of an array has no result, so that
every run with a result stays within its arrays. -/
namespace KazuOS.Shell

def bufSize : Nat := 256
def maxHistory : Nat := 32

abbrev Bytes := List UInt8

def store (array : Bytes) (i : Nat) (b : UInt8) : Option Bytes :=
  if i < array.length then some (array.set i b) else none

/-- Copy the first `n` bytes of an array over those of another. -/
def copyBytes (src dst : Bytes) (n : Nat) : Option Bytes :=
  if n ≤ src.length ∧ n ≤ dst.length then some (src.take n ++ dst.drop n) else none

/-- Move `n` bytes one place down, the first of them to `j`. -/
def shiftDown (buf : Bytes) (j : Nat) : Nat → Option Bytes
  | 0 => some buf
  | n + 1 => do
      let b ← buf[j + 1]?
      let buf ← store buf j b
      shiftDown buf (j + 1) n

/-- Move `n` bytes from `pos` on one place up, the last of them first. -/
def shiftUp (buf : Bytes) (pos : Nat) : Nat → Option Bytes
  | 0 => some buf
  | n + 1 => do
      let b ← buf[pos + n]?
      let buf ← store buf (pos + n + 1) b
      shiftUp buf pos n

/-- `HISTORY`, `HISTORY_LENS` and `HISTORY_COUNT`. -/
structure History where
  lines : List Bytes
  lens : List Nat
  count : Nat

def pushHistory (h : History) (buf : Bytes) (len : Nat) : Option History := do
  let slot := h.count % maxHistory
  let line ← h.lines[slot]?
  let line ← copyBytes buf line len
  if slot < h.lens.length then
    some ⟨h.lines.set slot line, h.lens.set slot len, h.count + 1⟩
  else none

/-- What `read_line` works on. -/
structure Editor where
  buf : Bytes
  len : Nat
  pos : Nat
  histAge : Nat
  savedBuf : Bytes
  savedLen : Nat

/-- The start of `read_line`: the buffer is that of the line before. -/
def Editor.start (buf : Bytes) : Editor := ⟨buf, 0, 0, 0, List.replicate bufSize 0, 0⟩

namespace Editor

def backspace (e : Editor) : Option Editor :=
  if 0 < e.pos then do
    let buf ← shiftDown e.buf (e.pos - 1) (e.len - 1 - (e.pos - 1))
    some { e with buf, len := e.len - 1, pos := e.pos - 1 }
  else some e

def left (e : Editor) : Editor := if 0 < e.pos then { e with pos := e.pos - 1 } else e

def right (e : Editor) : Editor := if e.pos < e.len then { e with pos := e.pos + 1 } else e

/-- Show a line of the history. -/
def showPast (e : Editor) (h : History) : Option Editor := do
  let slot := (h.count - e.histAge) % maxHistory
  let len ← h.lens[slot]?
  let line ← h.lines[slot]?
  let buf ← copyBytes line e.buf len
  some { e with buf, len, pos := len }

def save (e : Editor) : Option Editor :=
  if e.histAge = 0 then do
    let savedBuf ← copyBytes e.buf e.savedBuf e.len
    some { e with savedBuf, savedLen := e.len }
  else some e

def up (e : Editor) (h : History) : Option Editor :=
  if e.histAge < min h.count maxHistory then do
    let e ← e.save
    { e with histAge := e.histAge + 1 }.showPast h
  else some e

def down (e : Editor) (h : History) : Option Editor :=
  if 0 < e.histAge then
    let e := { e with histAge := e.histAge - 1 }
    if e.histAge = 0 then do
      let buf ← copyBytes e.savedBuf e.buf e.savedLen
      some { e with buf, len := e.savedLen, pos := e.savedLen }
    else e.showPast h
  else some e

def insert (e : Editor) (c : UInt8) : Option Editor :=
  if e.len < e.buf.length - 1 then do
    let buf ← shiftUp e.buf e.pos (e.len - e.pos)
    let buf ← store buf e.pos c
    some { e with buf, len := e.len + 1, pos := e.pos + 1 }
  else some e

end Editor

/-- What a byte of the input stands for. -/
inductive Key where
  | enter
  | cancel
  | backspace
  | left
  | right
  | up
  | down
  | char (c : UInt8)
  | other
  deriving DecidableEq

def keyOf (b : UInt8) : Key :=
  if b = 0x0A ∨ b = 0x0D then .enter
  else if b = 0x03 then .cancel
  else if b = 0x08 ∨ b = 0x7F then .backspace
  else if b = 0x80 then .left
  else if b = 0x81 then .right
  else if b = 0x82 then .up
  else if b = 0x83 then .down
  else if 0x20 ≤ b ∧ b < 0x7F then .char b
  else .other

/-- The shell, somewhere in `read_line`. -/
structure State where
  history : History
  editor : Editor

/-- The shell as it starts. -/
def boot : State where
  history := ⟨List.replicate maxHistory (List.replicate bufSize 0), List.replicate maxHistory 0, 0⟩
  editor := .start (List.replicate bufSize 0)

/-- `read_line` returns the first `len` bytes, and the shell calls it again. -/
def State.returned (history : History) (buf : Bytes) (len : Nat) : State × Option Bytes :=
  (⟨history, .start buf⟩, some (buf.take len))

/-- One byte, and the line if `read_line` returns. -/
def State.key (s : State) : Key → Option (State × Option Bytes)
  | .enter => do
      let history ←
        if 0 < s.editor.len then pushHistory s.history s.editor.buf s.editor.len
        else some s.history
      some (State.returned history s.editor.buf s.editor.len)
  | .cancel => some (State.returned s.history s.editor.buf 0)
  | .backspace => do some ({ s with editor := ← s.editor.backspace }, none)
  | .left => some ({ s with editor := s.editor.left }, none)
  | .right => some ({ s with editor := s.editor.right }, none)
  | .up => do some ({ s with editor := ← s.editor.up s.history }, none)
  | .down => do some ({ s with editor := ← s.editor.down s.history }, none)
  | .char c => do some ({ s with editor := ← s.editor.insert c }, none)
  | .other => some (s, none)

/-- What a read brought: the shell, the line that was returned, and the bytes that nobody saw. -/
structure Outcome where
  state : State
  line : Option Bytes
  unread : Bytes

/-- The loop over the bytes of one read. A line that ends within them leaves the others. -/
def readChunk (s : State) : Bytes → Option Outcome
  | [] => some ⟨s, none, []⟩
  | b :: rest => do
      let (s, line) ← s.key (keyOf b)
      match line with
      | none => readChunk s rest
      | some line => some ⟨s, some line, rest⟩

/-- A round of the loop: a caught signal ends the line, and otherwise up to 32 bytes are read. -/
inductive Poll where
  | interrupted
  | bytes (chunk : Bytes)

/-- Rounds until the input is closed: the shell after them, the lines, and the bytes that were
lost. -/
def readAll (s : State) : List Poll → Option (State × List Bytes × Bytes)
  | [] => some (s, [], [])
  | .interrupted :: rest => do
      let (s, lines, lost) ← readAll (State.returned s.history s.editor.buf 0).1 rest
      some (s, [] :: lines, lost)
  | .bytes chunk :: rest => do
      let read ← readChunk s chunk
      let (s, lines, lost) ← readAll read.state rest
      some (s, read.line.toList ++ lines, read.unread ++ lost)

/-! The arrays. -/

theorem prefix_iff {text buf : Bytes} : text <+: buf ↔ ∀ i < text.length, buf[i]? = text[i]? := by
  rw [List.prefix_iff_getElem?]
  refine forall₂_congr fun i hi => ?_
  rw [List.getElem?_eq_getElem hi]

variable {buf : Bytes}

/-- One round of a shifting loop. -/
theorem move_byte {src dst : Nat} (hsrc : src < buf.length) (hdst : dst < buf.length)
    (next : Bytes → Option Bytes) :
    (do let b ← buf[src]?
        let buf ← store buf dst b
        next buf) = next (buf.set dst buf[src]) := by
  rw [List.getElem?_eq_getElem hsrc]
  simp only [Option.bind_eq_bind, Option.bind_some, store]
  rw [if_pos hdst, Option.bind_some]

theorem shiftDown_spec {j n : Nat} (h : j + n < buf.length) :
    ∃ buf', shiftDown buf j n = some buf' ∧ buf'.length = buf.length ∧
      ∀ i, buf'[i]? = if j ≤ i ∧ i < j + n then buf[i + 1]? else buf[i]? := by
  induction n generalizing buf j with
  | zero => exact ⟨buf, rfl, rfl, fun i => (if_neg (by omega)).symm⟩
  | succ n ih =>
    have hnext : j + 1 < buf.length := by omega
    obtain ⟨buf', hshift, hlength, hget⟩ :=
      @ih (buf.set j buf[j + 1]) (j + 1) (by rw [List.length_set]; omega)
    refine ⟨buf', ?_, hlength.trans List.length_set, fun i => ?_⟩
    · rw [shiftDown, move_byte hnext (by omega), hshift]
    · rw [hget, List.getElem?_set, List.getElem?_set]
      by_cases hi : i = j
      · subst hi
        rw [if_neg (by omega : ¬(i + 1 ≤ i ∧ i < i + 1 + n)), if_pos rfl,
          if_pos (by omega : i < buf.length), if_pos (by omega : i ≤ i ∧ i < i + (n + 1)),
          List.getElem?_eq_getElem hnext]
      · rw [if_neg (Ne.symm hi)]
        split
        · rw [if_neg (by omega), if_pos (by omega)]
        · rw [if_neg (by omega)]

theorem shiftUp_spec {pos n : Nat} (h : pos + n < buf.length) :
    ∃ buf', shiftUp buf pos n = some buf' ∧ buf'.length = buf.length ∧
      ∀ i, buf'[i]? = if pos < i ∧ i ≤ pos + n then buf[i - 1]? else buf[i]? := by
  induction n generalizing buf with
  | zero => exact ⟨buf, rfl, rfl, fun i => (if_neg (by omega)).symm⟩
  | succ n ih =>
    have hlast : pos + n < buf.length := by omega
    obtain ⟨buf', hshift, hlength, hget⟩ :=
      @ih (buf.set (pos + n + 1) buf[pos + n]) (by rw [List.length_set]; omega)
    refine ⟨buf', ?_, hlength.trans List.length_set, fun i => ?_⟩
    · rw [shiftUp, move_byte hlast (by omega), hshift]
    · rw [hget, List.getElem?_set, List.getElem?_set]
      by_cases hi : i = pos + n + 1
      · subst hi
        rw [if_neg (by omega), if_pos rfl, if_pos (by omega), if_pos (by omega),
          Nat.add_sub_cancel, List.getElem?_eq_getElem hlast]
      · rw [if_neg (Ne.symm hi)]
        split
        · rw [if_neg (by omega), if_pos (by omega)]
        · rw [if_neg (by omega)]

/-- A line in a buffer, where there is room for a byte more. -/
structure Holds (buf line : Bytes) : Prop where
  size : buf.length = bufSize
  short : line.length < bufSize
  starts : line <+: buf

namespace Holds

variable {buf line : Bytes}

theorem nil (h : buf.length = bufSize) : Holds buf [] := ⟨h, by decide, List.nil_prefix⟩

theorem take (h : Holds buf line) : buf.take line.length = line :=
  (List.prefix_iff_eq_take.mp h.starts).symm

theorem copy (h : Holds buf line) {dst : Bytes} (hdst : dst.length = bufSize) :
    ∃ dst', copyBytes buf dst line.length = some dst' ∧ Holds dst' line := by
  have hsize := h.size
  have hshort := h.short
  refine ⟨line ++ dst.drop line.length, ?_, ?_, hshort, List.prefix_append _ _⟩
  · rw [copyBytes, if_pos (by omega), h.take]
  · rw [List.length_append, List.length_drop]
    omega

variable {pos : Nat}

theorem erase (h : Holds buf line) (hpos : pos < line.length) :
    ∃ buf', shiftDown buf pos (line.length - 1 - pos) = some buf' ∧
      Holds buf' (line.eraseIdx pos) := by
  have hsize := h.size
  have hshort := h.short
  have hline := List.length_eraseIdx_of_lt hpos
  obtain ⟨buf', hshift, hlength, hget⟩ :=
    @shiftDown_spec buf pos (line.length - 1 - pos) (by omega)
  refine ⟨buf', hshift, hlength.trans hsize, by omega, prefix_iff.mpr fun i hi => ?_⟩
  have hstarts := prefix_iff.mp h.starts
  rw [hget, List.getElem?_eraseIdx]
  split
  · rw [if_neg (by omega), hstarts _ (by omega)]
  · rw [if_pos (by omega), hstarts _ (by omega)]

theorem insert (h : Holds buf line) (hpos : pos ≤ line.length)
    (hroom : line.length + 1 < bufSize) (c : UInt8) :
    ∃ shifted buf', shiftUp buf pos (line.length - pos) = some shifted ∧
      store shifted pos c = some buf' ∧ Holds buf' (line.insertIdx pos c) := by
  have hsize := h.size
  have hline := List.length_insertIdx_of_le_length hpos c
  obtain ⟨shifted, hshift, hlength, hget⟩ :=
    @shiftUp_spec buf pos (line.length - pos) (by omega)
  refine ⟨shifted, shifted.set pos c, hshift, if_pos (by omega),
    List.length_set.trans (hlength.trans hsize), by omega, prefix_iff.mpr fun i hi => ?_⟩
  have hstarts := prefix_iff.mp h.starts
  rw [List.getElem?_set, List.getElem?_insertIdx, hget]
  obtain hlt | rfl | hgt := Nat.lt_trichotomy i pos
  · rw [if_neg (by omega), if_neg (by omega), if_pos hlt, hstarts _ (by omega)]
  · rw [if_pos rfl, if_pos (by omega), if_neg (Nat.lt_irrefl i), if_pos rfl, if_pos hpos]
  · rw [if_neg (by omega), if_pos (by omega), if_neg (by omega), if_neg (by omega),
      hstarts _ (by omega)]

end Holds

end KazuOS.Shell
