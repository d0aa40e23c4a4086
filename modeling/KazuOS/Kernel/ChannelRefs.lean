import KazuOS.Kernel.IpcCalls
import KazuOS.Lib.RefCount

/-! What a channel id denotes. The kernel keeps no record of who opened a channel; here each
open is remembered until its process closes the id again. -/
namespace KazuOS.Kernel

open KazuOS.Task KazuOS.Lib

/-- An open that was not closed yet. -/
structure Grant where
  pid : Nat
  channelId : Nat
  name : List UInt8
  deriving DecidableEq, Repr

structure Holding where
  kernel : Kernel
  held : List Grant

def Grant.of (pid channelId : Nat) (g : Grant) : Bool := g.pid = pid && g.channelId = channelId

/-- A process closes an id only while it has an open of it left. -/
def Holding.step (s : Holding) : IpcEvent → Option Holding
  | .opens pid name =>
      let (channelId, k) := s.kernel.openChannel name
      some ⟨k, if channelId = failure then s.held else ⟨pid, channelId, name⟩ :: s.held⟩
  | .call pid channelId .close =>
      if s.held.any (Grant.of pid channelId) then
        some ⟨s.kernel.closeChannel channelId, s.held.eraseP (Grant.of pid channelId)⟩
      else none
  | e => some ⟨e.apply s.kernel, s.held⟩

/-- The counts of all channels; an id that denotes none has none. -/
def channelRefs (k : Kernel) (channelId : Nat) : Nat := (k.slot channelId).elim 0 Channel.refCount

/-- Names tell channels apart, references are counted, and what was opened is there. -/
structure Sound (s : Holding) : Prop where
  limit : s.kernel.channels.length ≤ maxChannels
  names : ∀ i j c d, s.kernel.slot i = some c → s.kernel.slot j = some d → c.name = d.name → i = j
  refs : Counted s.kernel.channelRefs (s.held.map Grant.channelId)
  denotes : ∀ g ∈ s.held, ∃ c, s.kernel.slot g.channelId = some c ∧ c.name = g.name

variable {k k' : Kernel} {channelId : Nat} {c c' : Channel} {held : List Grant}

variable {content : Option Channel}

theorem Sets.channelRefs (h : k.Sets channelId content k') :
    k'.channelRefs =
      Function.update k.channelRefs channelId (content.elim 0 Channel.refCount) := by
  funext j
  unfold Kernel.channelRefs
  rw [h.slot j, Function.update_apply]
  split
  · rfl
  · rfl

theorem Sets.limit (h : k.Sets channelId content k')
    (hk : k.channels.length ≤ maxChannels) : k'.channels.length ≤ maxChannels :=
  h.length.trans (Nat.max_le.mpr ⟨hk, Nat.le_refl _⟩)

theorem Sound.congr (h : Sound ⟨k, held⟩) (hsame : k'.channels = k.channels) :
    Sound ⟨k', held⟩ := by
  have hslot : k'.slot = k.slot := funext (slot_congr hsame)
  have hrefs : k'.channelRefs = k.channelRefs := by
    funext j
    simp only [channelRefs, hslot]
  constructor
  · simpa only [hsame] using h.limit
  · simpa only [hslot] using h.names
  · simpa only [hrefs] using h.refs
  · simpa only [hslot] using h.denotes

/-- Names stay distinct when a channel is changed but not renamed. -/
theorem names_of_sets {k k' : Kernel} {channelId : Nat} {c : Channel}
    (hnames : ∀ i j c d, k.slot i = some c → k.slot j = some d → c.name = d.name → i = j)
    (h : k.Sets channelId content k') (hslot : k.slot channelId = some c)
    (hname : ∀ c', content = some c' → c'.name = c.name) :
    ∀ i j c d, k'.slot i = some c → k'.slot j = some d → c.name = d.name → i = j := by
  -- what is at a place afterwards has the name of what was there before
  have horigin : ∀ i d, k'.slot i = some d → ∃ d₀, k.slot i = some d₀ ∧ d₀.name = d.name := by
    intro i d hd
    rw [h.slot i] at hd
    split at hd
    · rename_i hi
      exact ⟨c, hi ▸ hslot, (hname d hd).symm⟩
    · exact ⟨d, hd, rfl⟩
  intro i j a b ha hb hab
  obtain ⟨a₀, ha₀, haname⟩ := horigin i a ha
  obtain ⟨b₀, hb₀, hbname⟩ := horigin j b hb
  exact hnames i j a₀ b₀ ha₀ hb₀ (haname.trans (hab.trans hbname.symm))

theorem denotes_of_sets (hdenotes : ∀ g ∈ held, ∃ c, k.slot g.channelId = some c ∧ c.name = g.name)
    (h : k.Sets channelId (some c') k') (hslot : k.slot channelId = some c)
    (hname : c'.name = c.name) :
    ∀ g ∈ held, ∃ c, k'.slot g.channelId = some c ∧ c.name = g.name := by
  intro g hg
  obtain ⟨d, hd, hdname⟩ := hdenotes g hg
  rw [h.slot]
  split
  · rename_i hid
    rw [hid, hslot] at hd
    cases hd
    exact ⟨c', rfl, hname.trans hdname⟩
  · exact ⟨d, hd, hdname⟩

/-- An operation that keeps name and count of its channel. -/
theorem Sound.keep (hs : Sound ⟨k, held⟩) (hslot : k.slot channelId = some c)
    (h : k.Sets channelId (some c') k') (hname : c'.name = c.name)
    (hrefs : c'.refCount = c.refCount) : Sound ⟨k', held⟩ := by
  constructor
  · exact h.limit hs.limit
  · refine names_of_sets hs.names h hslot ?_
    rintro d ⟨⟩
    exact hname
  · have hsame : k'.channelRefs = k.channelRefs := by
      rw [h.channelRefs]
      apply Function.update_eq_self_iff.mpr
      simp [channelRefs, hslot, hrefs]
    exact hsame ▸ hs.refs
  · exact denotes_of_sets hs.denotes h hslot hname

theorem Sound.call (hs : Sound ⟨k, held⟩) (pid channelId : Nat) {op : ChannelOp}
    (hop : op ≠ .close) : Sound ⟨op.apply k pid channelId, held⟩ := by
  cases hslot : k.slot channelId with
  | none =>
    rw [ChannelOp.apply_of_none hslot]
    exact hs
  | some c =>
    obtain ⟨c', hnext, hname, hrefs⟩ := ChannelOp.next_keeps hop pid c
    have hsets := ChannelOp.sets_apply hslot pid op
    rw [hnext] at hsets
    exact hs.keep hslot hsets hname hrefs

theorem channelRefs_of_slot (h : k.slot channelId = some c) :
    k.channelRefs channelId = c.refCount := by
  simp [channelRefs, h]

theorem ne_failure_of_le (h : channelId ≤ maxChannels) : channelId ≠ failure := by
  unfold maxChannels at h
  unfold failure
  omega

theorem Sound.opens (hs : Sound ⟨k, held⟩) (pid : Nat) {name : List UInt8}
    (h : k.Opens name channelId k') :
    Sound ⟨k', if channelId = failure then held else ⟨pid, channelId, name⟩ :: held⟩ := by
  cases h with
  | refused => simpa using hs
  | @known channelId c k' denotes named sets =>
    rw [if_neg (ne_failure_of_le ((le_length_of_slot denotes).trans hs.limit))]
    constructor
    · exact sets.limit hs.limit
    · refine names_of_sets hs.names sets denotes ?_
      rintro d ⟨⟩
      rfl
    · rw [sets.channelRefs]
      have hretain := hs.refs.retain (r := channelId)
      rwa [channelRefs_of_slot denotes] at hretain
    · intro g hg
      obtain rfl | hg := List.mem_cons.mp hg
      · exact ⟨_, (sets.slot channelId).trans (if_pos rfl), named⟩
      · exact denotes_of_sets hs.denotes sets denotes rfl g hg
  | @fresh channelId k' free within unnamed sets =>
    rw [if_neg (ne_failure_of_le (within.trans (Nat.max_le.mpr ⟨hs.limit, Nat.le_refl _⟩)))]
    constructor
    · exact sets.limit hs.limit
    · intro i j a b ha hb hab
      rw [sets.slot] at ha hb
      split at ha
      · rename_i hi
        cases ha
        split at hb
        · rename_i hj
          rw [hi, hj]
        · exact absurd hab.symm (unnamed j b hb)
      · split at hb
        · cases hb
          exact absurd hab (unnamed i a ha)
        · exact hs.names i j a b ha hb hab
    · rw [sets.channelRefs]
      have hretain := hs.refs.retain (r := channelId)
      have hzero : k.channelRefs channelId = 0 := by simp [channelRefs, free]
      rwa [hzero] at hretain
    · intro g hg
      obtain rfl | hg := List.mem_cons.mp hg
      · exact ⟨_, (sets.slot channelId).trans (if_pos rfl), rfl⟩
      · obtain ⟨d, hd, hname⟩ := hs.denotes g hg
        have hother : g.channelId ≠ channelId := by
          intro hsame
          rw [hsame, free] at hd
          cases hd
        exact ⟨d, by rw [sets.slot, if_neg hother, hd], hname⟩

/-- Closing what was opened. -/
theorem Sound.close (hs : Sound ⟨k, held⟩) (pid : Nat) {g : Grant} (hg : g ∈ held)
    (hof : g.of pid channelId = true) :
    Sound ⟨k.closeChannel channelId, held.eraseP (Grant.of pid channelId)⟩ := by
  obtain ⟨g, front, back, -, hof, rfl, herase⟩ := List.exists_of_eraseP hg hof
  rw [herase]
  have hid : g.channelId = channelId := by
    simp only [Grant.of, Bool.and_eq_true, decide_eq_true_eq] at hof
    exact hof.2
  obtain ⟨c, hslot, -⟩ := hs.denotes g (by simp)
  rw [hid] at hslot
  have hrefs : Counted k.channelRefs (channelId :: (front ++ back).map Grant.channelId) := by
    apply hs.refs.perm
    rw [← hid, ← List.map_cons]
    exact List.perm_middle.map _
  have hcount : c.refCount = ((front ++ back).map Grant.channelId).count channelId + 1 := by
    rw [← channelRefs_of_slot hslot, hrefs channelId, List.count_cons_self]
  have hsets := sets_closeChannel hslot pid
  have hleft : ∀ g' ∈ front ++ back, ∃ c, k.slot g'.channelId = some c ∧ c.name = g'.name := by
    intro g' hg'
    apply hs.denotes g'
    simp only [List.mem_append, List.mem_cons] at hg' ⊢
    tauto
  constructor
  · exact hsets.limit hs.limit
  · exact names_of_sets hs.names hsets hslot fun _ => ChannelOp.next_name
  · rw [hsets.channelRefs]
    have hrelease := hrefs.release
    rw [channelRefs_of_slot hslot] at hrelease
    have hless : (ChannelOp.close.next pid c).elim 0 Channel.refCount = c.refCount - 1 := by
      simp only [ChannelOp.next]
      split
      · rfl
      · split
        · simp
          omega
        · simp
          omega
    rwa [hless]
  · intro g' hg'
    obtain ⟨d, hd, hname⟩ := hleft g' hg'
    rw [hsets.slot]
    split
    · rename_i hsame
      -- another open of the same id keeps the count above one
      rw [hsame, hslot] at hd
      cases hd
      have hmore : 0 < ((front ++ back).map Grant.channelId).count channelId :=
        List.count_pos_iff.mpr (hsame ▸ List.mem_map_of_mem hg')
      simp only [ChannelOp.next, if_pos (show 1 < c.refCount by omega)]
      exact ⟨_, rfl, hname⟩
    · exact ⟨d, hd, hname⟩

theorem Sound.step {s t : Holding} {e : IpcEvent} (hs : Sound s) (h : s.step e = some t) :
    Sound t := by
  cases e with
  | opens pid name =>
    cases h
    exact hs.opens pid (opens_openChannel s.kernel name)
  | call pid channelId op =>
    by_cases hop : op = .close
    · subst hop
      simp only [Holding.step, Option.ite_none_right_eq_some, List.any_eq_true,
        Option.some.injEq] at h
      obtain ⟨⟨g, hg, hof⟩, rfl⟩ := h
      exact hs.close pid hg hof
    · have ht : t = ⟨op.apply s.kernel pid channelId, s.held⟩ := by
        cases op with
        | close => exact absurd rfl hop
        | _ => exact (Option.some.inj h).symm
      rw [ht]
      exact hs.call pid channelId hop
  | exit cpu =>
    cases h
    have hchannels := s.kernel.teardown_channels cpu
    cases haborted : s.kernel.abortedBy cpu with
    | none =>
      simp only [haborted] at hchannels
      exact hs.congr hchannels
    | some channelId =>
      simp only [haborted] at hchannels
      have hop : ChannelOp.abort ≠ .close := by simp
      have habort : Sound ⟨s.kernel.abortSenders channelId, s.held⟩ := hs.call 0 channelId hop
      exact habort.congr hchannels
  | other f =>
    cases h
    exact hs.congr rfl

theorem sound_of_run (hboot : k.channels = []) {es : List IpcEvent} {s : Holding}
    (run : Run (fun s e t => s.step e = some t) ⟨k, []⟩ es s) : Sound s := by
  have hnone : ∀ j, k.slot j = none := by
    intro j
    simp [slot, hboot]
  apply run.preserves (fun _ _ _ hs h => hs.step h)
  constructor
  · simp [hboot]
  · intro i j c d hc
    rw [hnone i] at hc
    cases hc
  · intro j
    simp [channelRefs, hnone j]
  · intro g hg
    cases hg

/-- As long as processes close only what they opened, live channels have distinct names, a
channel's count is the number of its opens that are not closed yet, and until an open is
closed its id denotes the channel of the opened name. -/
theorem channel_ids_denote_what_was_opened (hboot : k.channels = []) {es : List IpcEvent}
    {s : Holding} (run : Run (fun s e t => s.step e = some t) ⟨k, []⟩ es s) :
    (∀ i j c d, s.kernel.slot i = some c → s.kernel.slot j = some d → c.name = d.name → i = j) ∧
      (∀ channelId c, s.kernel.slot channelId = some c →
        c.refCount = s.held.countP fun g => g.channelId = channelId) ∧
      ∀ g ∈ s.held, ∃ c, s.kernel.slot g.channelId = some c ∧ c.name = g.name := by
  have hs := sound_of_run hboot run
  refine ⟨hs.names, ?_, hs.denotes⟩
  intro channelId c hslot
  rw [← channelRefs_of_slot hslot, hs.refs channelId, List.count, List.countP_map]
  rfl

/-- Two processes share a channel and a third has one of its own. The last holder of the
first leaves a message behind and opens it again. -/
def sharedChannels : List IpcEvent :=
  [.opens 1 [97], .opens 2 [97], .opens 3 [98], .call 1 1 .close, .call 2 1 (.send [1]),
    .call 2 1 .close, .opens 2 [97]]

theorem channel_ids_denote_what_was_opened_shared :
    ∃ s, sharedChannels.foldlM Holding.step ⟨twoThreads, []⟩ = some s ∧
      s.held = [⟨2, 1, [97]⟩, ⟨3, 2, [98]⟩] ∧
      (∃ c, s.kernel.slot 1 = some c ∧ c.refCount = s.held.countP fun g => g.channelId = 1) ∧
      ∀ g ∈ s.held, ∃ c, s.kernel.slot g.channelId = some c ∧ c.name = g.name := by
  have hrun : ∃ s c, sharedChannels.foldlM Holding.step ⟨twoThreads, []⟩ = some s ∧
      s.held = [⟨2, 1, [97]⟩, ⟨3, 2, [98]⟩] ∧ s.kernel.slot 1 = some c := ⟨_, _, rfl, rfl, rfl⟩
  obtain ⟨s, c, hrun, hheld, hslot⟩ := hrun
  obtain ⟨-, hrefs, hdenotes⟩ := channel_ids_denote_what_was_opened rfl (Run.of_foldlM hrun)
  exact ⟨s, hrun, hheld, ⟨c, hslot, hrefs 1 c hslot⟩, hdenotes⟩

end KazuOS.Kernel
