import KazuOS.Kernel.KeyFocus

/-! Scan codes and the modifier flags. Each modifier has two keys and one flag, which follows
whichever of the two was used last. -/
namespace KazuOS

inductive Modifier where
  | shift
  | ctrl
  | alt
  deriving DecidableEq, Repr

/-- The flag in the word of a key event. -/
def Modifier.bit : Modifier → UInt16
  | .shift => 0x200
  | .ctrl => 0x400
  | .alt => 0x800

def keyRelease : UInt16 := 0x100
def keyF1 : UInt16 := 0x90

/-- The state of the decoder between two bytes. -/
structure Decoder where
  shift : Bool
  ctrl : Bool
  alt : Bool
  extended : Bool
  deriving DecidableEq, Repr

namespace Decoder

def init : Decoder := ⟨false, false, false, false⟩

def flag (d : Decoder) : Modifier → Bool
  | .shift => d.shift
  | .ctrl => d.ctrl
  | .alt => d.alt

def setFlag (d : Decoder) (m : Modifier) (on : Bool) : Decoder :=
  match m with
  | .shift => { d with shift := on }
  | .ctrl => { d with ctrl := on }
  | .alt => { d with alt := on }

def mods (d : Decoder) : UInt16 :=
  (if d.shift then Modifier.shift.bit else 0) ||| (if d.ctrl then Modifier.ctrl.bit else 0) |||
    (if d.alt then Modifier.alt.bit else 0)

/-- The event word of a key. -/
def emitKey (d : Decoder) (code : UInt16) (release : Bool) : UInt16 :=
  (code &&& 0xFF) ||| (d.mods ||| if release then keyRelease else 0)

def scancode : List UInt8 :=
  [0, 0] ++ Fs.asBytes "1234567890-=" ++ [8] ++ Fs.asBytes "\tqwertyuiop[]\n" ++ [0] ++
    Fs.asBytes "asdfghjkl;'`" ++ [0] ++ Fs.asBytes "\\zxcvbnm,./" ++ [0] ++ Fs.asBytes " " ++
    List.replicate 13 0 ++ Fs.asBytes "789-456+1230."

def scancodeShift : List UInt8 :=
  [0, 0] ++ Fs.asBytes "!@#$%^&*()_+" ++ [8] ++ Fs.asBytes "\tQWERTYUIOP\x7b\x7d\n" ++ [0] ++
    Fs.asBytes "ASDFGHJKL:\"~" ++ [0] ++ Fs.asBytes "|ZXCVBNM<>?" ++ [0] ++ Fs.asBytes " " ++
    List.replicate 13 0 ++ Fs.asBytes "789-456+1230."

/-- The modifier keys and their codes, by their base codes behind an E0 and without. -/
def modifierKey (extended : Bool) (base : UInt8) : Option (Modifier × UInt16) :=
  if extended then
    if base = 0x1D then some (.ctrl, 0x87)
    else if base = 0x38 then some (.alt, 0x89)
    else none
  else if base = 0x2A then some (.shift, 0x84)
  else if base = 0x36 then some (.shift, 0x85)
  else if base = 0x1D then some (.ctrl, 0x86)
  else if base = 0x38 then some (.alt, 0x88)
  else none

def arrowKey (base : UInt8) : Option UInt16 :=
  if base = 0x4B then some 0x80
  else if base = 0x4D then some 0x81
  else if base = 0x48 then some 0x82
  else if base = 0x50 then some 0x83
  else none

/-- Caps lock, escape and the function keys. -/
def namedKey (base : UInt8) : Option UInt16 :=
  if base = 0x3A then some 0x8A
  else if base = 0x01 then some 0x8B
  else if 0x3B ≤ base ∧ base ≤ 0x44 then some (keyF1 + (base - 0x3B).toUInt16)
  else if base = 0x57 then some (keyF1 + 10)
  else if base = 0x58 then some (keyF1 + 11)
  else none

def plainOf (d : Decoder) (base : UInt8) : UInt8 :=
  if base = 0x39 then 32
  else (if d.shift then scancodeShift else scancode).getD base.toNat 0

def ctrlOf (plain : UInt8) : UInt8 :=
  if 97 ≤ plain ∧ plain ≤ 122 then plain - 97 + 1
  else if 65 ≤ plain ∧ plain ≤ 90 then plain - 65 + 1
  else 0

/-- A key that is a character. -/
def character (d : Decoder) (base : UInt8) (release : Bool) : List Input :=
  let plain := d.plainOf base
  if release then
    if plain ≠ 0 then [.event (d.emitKey plain.toUInt16 true)] else []
  else
    let ch := if d.ctrl then ctrlOf plain else plain
    if ch ≠ 0 then [.byte ch, .event (d.emitKey ch.toUInt16 false)] else []

/-- The key with a base code, behind an E0 or not, and what it pushes. -/
def keyed (d : Decoder) (base : UInt8) (release : Bool) : Decoder × List Input :=
  let extended := d.extended
  let d := { d with extended := false }
  match modifierKey extended base with
  | some (m, code) =>
      let d := d.setFlag m !release
      (d, [.event (d.emitKey code release)])
  | none =>
      if extended then
        match arrowKey base with
        | some code =>
            (d, (if release then [] else [.byte code.toUInt8]) ++ [.event (d.emitKey code release)])
        | none => (d, [])
      else
        match namedKey base with
        | some code => (d, [.event (d.emitKey code release)])
        | none => (d, d.character base release)

/-- One byte of the loop of `poll`. -/
def scan (d : Decoder) (sc : UInt8) : Decoder × List Input :=
  if sc = 0xE0 then ({ d with extended := true }, [])
  else d.keyed (sc &&& 0x7F) (sc &&& 0x80 ≠ 0)

def scanAll (d : Decoder) : List UInt8 → Decoder × List Input
  | [] => (d, [])
  | sc :: rest =>
      let (d, pushed) := d.scan sc
      let (d, more) := scanAll d rest
      (d, pushed ++ more)

end Decoder

/-! Keys. -/

/-- A key by its scan code. The release of 0x60 would be an E0: no key has it. -/
structure Key where
  extended : Bool
  base : UInt8
  isBase : base < 0x80 ∧ base ≠ 0x60
  deriving DecidableEq

def Key.modifier (key : Key) : Option Modifier :=
  (Decoder.modifierKey key.extended key.base).map (·.1)

structure Stroke where
  key : Key
  release : Bool
  deriving DecidableEq

def Stroke.encode (s : Stroke) : List UInt8 :=
  (if s.key.extended then [0xE0] else []) ++ [if s.release then s.key.base ||| 0x80 else s.key.base]

/-- The key is down after the strokes. -/
def isHeld (strokes : List Stroke) (key : Key) : Bool :=
  strokes.foldl (fun held s => if s.key = key then !s.release else held) false

def Held (strokes : List Stroke) (m : Modifier) : Prop :=
  ∃ key : Key, key.modifier = some m ∧ isHeld strokes key = true

/-- The last stroke of a key of this kind was a press. -/
def lastPressed (strokes : List Stroke) (m : Modifier) : Bool :=
  strokes.foldl (fun last s => if s.key.modifier = some m then !s.release else last) false

/-- One of the two keys is down, and the other was let go after the last press. -/
def HalfReleased (strokes : List Stroke) (m : Modifier) : Prop :=
  Held strokes m ∧ lastPressed strokes m = false

/-- The decoder after some strokes. -/
def decoded (strokes : List Stroke) : Decoder :=
  (Decoder.init.scanAll (strokes.flatMap Stroke.encode)).1

namespace Decoder

theorem flag_setFlag (d : Decoder) (m m' : Modifier) (on : Bool) :
    (d.setFlag m on).flag m' = if m = m' then on else d.flag m' := by
  cases m <;> cases m' <;> rfl

theorem extended_setFlag (d : Decoder) (m : Modifier) (on : Bool) :
    (d.setFlag m on).extended = d.extended := by
  cases m <;> rfl

/-- The flags of an event are those of the decoder. -/
theorem emitKey_and_bit (d : Decoder) (code : UInt16) (release : Bool) (m : Modifier) :
    d.emitKey code release &&& m.bit ≠ 0 ↔ d.flag m = true := by
  have hcode : code &&& 0xFF &&& m.bit = 0 := by
    rw [UInt16.and_assoc]
    cases m <;> exact UInt16.and_zero
  have hflags : ∀ w : UInt16, (code &&& 0xFF ||| w) &&& m.bit = w &&& m.bit := by
    intro w
    have hdistrib : (code &&& 0xFF ||| w) &&& m.bit = code &&& 0xFF &&& m.bit ||| w &&& m.bit :=
      UInt16.toBitVec_inj.mp BitVec.and_or_distrib_right
    rw [hdistrib, hcode, UInt16.zero_or]
  obtain ⟨shift, ctrl, alt, extended⟩ := d
  rw [emitKey, hflags, mods]
  clear hflags hcode
  cases m with
  | shift | ctrl | alt => revert shift ctrl alt extended release; decide

variable {d : Decoder}

theorem event_of_character {base : UInt8} {release : Bool} {ev : UInt16}
    (h : Input.event ev ∈ d.character base release) : ∃ code, ev = d.emitKey code release := by
  unfold character at h
  dsimp only at h
  cases release with
  | true =>
    rw [if_pos rfl] at h
    split at h
    · cases List.mem_singleton.mp h
      exact ⟨_, rfl⟩
    · cases h
  | false =>
    rw [if_neg Bool.false_ne_true] at h
    generalize (if d.ctrl then ctrlOf (d.plainOf base) else d.plainOf base) = ch at h
    split at h
    · obtain h | h := List.mem_cons.mp h
      · cases h
      · cases List.mem_singleton.mp h
        exact ⟨_, rfl⟩
    · cases h

/-- What a key does: a modifier sets its flag, and every event has the flags of that time. -/
structure Keyed (d : Decoder) (modifier : Option Modifier) (release : Bool)
    (result : Decoder × List Input) : Prop where
  extended : result.1.extended = false
  flag : ∀ m, result.1.flag m = if modifier = some m then !release else d.flag m
  event : ∀ ev, Input.event ev ∈ result.2 → ∃ code, ev = result.1.emitKey code release

theorem keyed_keyed (d : Decoder) (base : UInt8) (release : Bool) :
    Keyed d ((modifierKey d.extended base).map (·.1)) release (d.keyed base release) := by
  have hsame : ∀ m, ({ d with extended := false } : Decoder).flag m = d.flag m := by
    intro m
    cases m <;> rfl
  unfold keyed
  dsimp only
  split
  · rename_i m code hkey
    rw [hkey]
    refine ⟨extended_setFlag _ m _, fun m' => ?_, fun ev h => ?_⟩
    · rw [flag_setFlag, hsame]
      simp only [Option.map_some, Option.some.injEq]
    · cases List.mem_singleton.mp h
      exact ⟨code, rfl⟩
  · rename_i hkey
    rw [hkey]
    split
    · split
      · rename_i code _
        refine ⟨rfl, hsame, fun ev h => ?_⟩
        obtain h | h := List.mem_append.mp h
        · cases release <;> simp at h
        · cases List.mem_singleton.mp h
          exact ⟨code, rfl⟩
      · exact ⟨rfl, hsame, nofun⟩
    · split
      · rename_i code _
        refine ⟨rfl, hsame, fun ev h => ?_⟩
        cases List.mem_singleton.mp h
        exact ⟨code, rfl⟩
      · exact ⟨rfl, hsame, fun ev => event_of_character⟩

theorem scan_code : ∀ b : UInt8, b < 0x80 ∧ b ≠ 0x60 →
    (b ≠ 0xE0 ∧ b &&& 0x80 = 0 ∧ b &&& 0x7F = b) ∧
      b ||| 0x80 ≠ 0xE0 ∧ (b ||| 0x80) &&& 0x80 ≠ 0 ∧ (b ||| 0x80) &&& 0x7F = b := by
  rintro ⟨b⟩
  revert b
  decide

/-- The codes of a stroke are read back as the key. -/
theorem scanAll_encode (hd : d.extended = false) (s : Stroke) :
    d.scanAll s.encode =
      ({ d with extended := s.key.extended } : Decoder).keyed s.key.base s.release := by
  obtain ⟨⟨extended, base, hbase⟩, release⟩ := s
  obtain ⟨⟨hne, hup, hcode⟩, hne', hup', hcode'⟩ := scan_code base hbase
  have hlast : ∀ d : Decoder, d.scanAll [if release then base ||| 0x80 else base] =
      d.keyed base release := by
    intro d
    cases release with
    | false => simp [scanAll, scan, hne, hup, hcode]
    | true => simp [scanAll, scan, hne', hup', hcode']
  cases extended with
  | false =>
    have hsame : ({ d with extended := false } : Decoder) = d := by
      rw [← hd]
    rw [hsame]
    exact hlast d
  | true =>
    have hfirst : d.scan 0xE0 = ({ d with extended := true }, []) := if_pos rfl
    rw [Stroke.encode]
    dsimp only
    rw [if_pos rfl, List.singleton_append, scanAll, hfirst]
    dsimp only
    rw [hlast]
    rfl

theorem keyed_stroke (hd : d.extended = false) (s : Stroke) :
    Keyed d s.key.modifier s.release (d.scanAll s.encode) := by
  have h := keyed_keyed { d with extended := s.key.extended } s.key.base s.release
  rw [scanAll_encode hd]
  refine ⟨h.extended, fun m => ?_, h.event⟩
  rw [h.flag]
  cases m <;> rfl

theorem scanAll_append (d : Decoder) (front rest : List UInt8) :
    (d.scanAll (front ++ rest)).1 = ((d.scanAll front).1.scanAll rest).1 := by
  induction front generalizing d with
  | nil => rfl
  | cons sc front ih => exact ih _

end Decoder

theorem decoded_snoc (strokes : List Stroke) (s : Stroke) :
    decoded (strokes ++ [s]) = ((decoded strokes).scanAll s.encode).1 := by
  unfold decoded
  rw [List.flatMap_append, Decoder.scanAll_append, List.flatMap_singleton]

/-- A flag says whether the last stroke of its keys was a press. -/
theorem decoded_flag (strokes : List Stroke) :
    (decoded strokes).extended = false ∧
      ∀ m, (decoded strokes).flag m = lastPressed strokes m := by
  induction strokes using List.reverseRecOn with
  | nil => exact ⟨rfl, fun m => by cases m <;> rfl⟩
  | append_singleton strokes s ih =>
    have h := Decoder.keyed_stroke ih.1 s
    rw [decoded_snoc]
    refine ⟨h.extended, fun m => ?_⟩
    rw [h.flag, ih.2, lastPressed, lastPressed, List.foldl_append]
    rfl

variable {strokes : List Stroke} {m : Modifier}

/-- A key that was pressed last is down. -/
theorem held_of_lastPressed (h : lastPressed strokes m = true) : Held strokes m := by
  induction strokes using List.reverseRecOn with
  | nil => cases h
  | append_singleton strokes s ih =>
    rw [lastPressed, List.foldl_append, ← lastPressed] at h
    simp only [List.foldl_cons, List.foldl_nil] at h
    split at h
    · rename_i hkind
      refine ⟨s.key, hkind, ?_⟩
      rw [isHeld, List.foldl_append]
      simpa using h
    · rename_i hkind
      obtain ⟨key, hkey, hdown⟩ := ih h
      refine ⟨key, hkey, ?_⟩
      have hother : s.key ≠ key := by
        rintro rfl
        exact hkind hkey
      rw [isHeld, List.foldl_append]
      simpa [hother, isHeld] using hdown

/-- Who gets an event: nobody without an owner of the framebuffer or with a full ring. -/
structure Listener where
  owner : Option Nat
  ring : EventRing

/-- The events of a key that reach the ring. -/
def Listener.reported (l : Listener) (pushed : List Input) : List UInt16 :=
  pushed.filterMap fun
    | .event ev => if (l.ring.pushEvent l.owner ev).ehead ≠ l.ring.ehead then some ev else none
    | .byte _ => none

/-- Events of a stroke that are reported. -/
def reports (strokes : List Stroke) (s : Stroke) (l : Listener) : List UInt16 :=
  l.reported ((decoded strokes).scanAll s.encode).2

/-- Every event of another key has the flag of a modifier just if one of its keys is down. -/
def FlagsFollowKeys (typed : List (Stroke × Listener)) : Prop :=
  ∀ before s l after, typed = before ++ (s, l) :: after →
    ∀ ev ∈ reports (before.map (·.1)) s l, ∀ m, s.key.modifier ≠ some m →
      (ev &&& m.bit ≠ 0 ↔ Held (before.map (·.1)) m)

/-- An event is reported while one key of another modifier is down and the other was let go
last. -/
def TypesHalfReleased (typed : List (Stroke × Listener)) : Prop :=
  ∃ before s l after, typed = before ++ (s, l) :: after ∧
    reports (before.map (·.1)) s l ≠ [] ∧ ∃ m, s.key.modifier ≠ some m ∧
      HalfReleased (before.map (·.1)) m

theorem event_flag {s : Stroke} {l : Listener} {ev : UInt16} (h : ev ∈ reports strokes s l)
    (hother : s.key.modifier ≠ some m) : ev &&& m.bit ≠ 0 ↔ lastPressed strokes m = true := by
  obtain ⟨hextended, hflag⟩ := decoded_flag strokes
  have hkeyed := Decoder.keyed_stroke hextended s
  obtain ⟨input, hinput, hev⟩ := List.mem_filterMap.mp h
  obtain rfl : input = .event ev := by
    cases input with
    | byte ch => cases hev
    | event ev' =>
      dsimp only at hev
      split at hev
      · cases hev
        rfl
      · cases hev
  obtain ⟨code, rfl⟩ := hkeyed.event ev hinput
  rw [Decoder.emitKey_and_bit, hkeyed.flag, if_neg hother, hflag]

/-- The flags are right just if nothing is typed with one of two modifier keys let go. -/
theorem flags_follow_keys_iff (typed : List (Stroke × Listener)) :
    FlagsFollowKeys typed ↔ ¬TypesHalfReleased typed := by
  constructor
  · rintro h ⟨before, s, l, after, htyped, hreports, m, hother, hheld, hlast⟩
    obtain ⟨ev, hev⟩ := List.exists_mem_of_ne_nil _ hreports
    have hflag := (h before s l after htyped ev hev m hother).mpr hheld
    rw [event_flag hev hother, hlast] at hflag
    cases hflag
  · intro h before s l after htyped ev hev m hother
    rw [event_flag hev hother]
    refine ⟨held_of_lastPressed, fun hheld => ?_⟩
    by_contra hlast
    rw [Bool.not_eq_true] at hlast
    exact h ⟨before, s, l, after, htyped, List.ne_nil_of_mem hev, m, hother, hheld, hlast⟩

/-- Both shift keys are pressed and the right one is let go: the next key has no shift. -/
theorem other_shift_is_lost :
    let left : Key := ⟨false, 0x2A, by decide⟩
    let right : Key := ⟨false, 0x36, by decide⟩
    let strokes : List Stroke := [⟨left, false⟩, ⟨right, false⟩, ⟨right, true⟩]
    reports strokes ⟨⟨false, 0x1E, by decide⟩, false⟩ ⟨some 1, fun _ => 0, 0, 0⟩ = [0x61] ∧
      Held strokes .shift ∧ (0x61 : UInt16) &&& Modifier.shift.bit = 0 :=
  ⟨by decide, ⟨⟨false, 0x2A, by decide⟩, by decide, by decide⟩, by decide⟩

end KazuOS
