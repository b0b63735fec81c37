import KrovaCoin.Consensus.Params

/-!
# The clock of the network (`timedata.cpp`, `timedata.h`)

Every `version` message gives a sample of the difference between the peer's clock and the own one; the median of the
samples becomes the offset of the node's clock. Times are signed 64-bit numbers, and differences wrap.

* `addTimeData`, `processVersion` — a sample, and the message it comes from.
* `afterMessages` — the state after a sequence of messages.

Principal result: `timeOffset_bounded`. The absolute value of a difference of `2 ^ 63` is negative, and passes both
comparisons.
-/

namespace KrovaCoin

open Lib

/-- `abs64`; the negation wraps. -/
def abs64 (n : Int) : Int := if n ≥ 0 then n else toInt64 (-n)

/-- `CMedianFilter<int64_t>`. -/
structure CMedianFilter where
  vValues : List Int
  vSorted : List Int
  nSize : Nat

namespace CMedianFilter

/-- The constructor. -/
def new (size : Nat) (initialValue : Int) : CMedianFilter := ⟨[initialValue], [initialValue], size⟩

def input (f : CMedianFilter) (value : Int) : CMedianFilter :=
  let vValues := (if f.vValues.length = f.nSize then f.vValues.tail else f.vValues) ++ [value]
  ⟨vValues, vValues.insertionSort (· ≤ ·), f.nSize⟩

def median (f : CMedianFilter) : Int :=
  let size := f.vSorted.length
  if size % 2 = 1 then f.vSorted.getD (size / 2) 0
  else (toInt64 (f.vSorted.getD (size / 2 - 1) 0 + f.vSorted.getD (size / 2) 0)).tdiv 2

def size (f : CMedianFilter) : Nat := f.vValues.length

end CMedianFilter

/-- `CNetAddr`: the sixteen bytes of an address. -/
abbrev CNetAddr := BitVec 128

def BITCOIN_TIMEDATA_MAX_SAMPLES : Nat := 200

/-- `nTimeOffset`, and the static variables of `AddTimeData`. -/
structure TimeData where
  nTimeOffset : Int
  setKnown : List CNetAddr
  vTimeOffsets : CMedianFilter

/-- Before the first message. -/
def TimeData.initial : TimeData := ⟨0, [], .new BITCOIN_TIMEDATA_MAX_SAMPLES 0⟩

def TimeData.getAdjustedTime (s : TimeData) (getTime : Int) : Int := toInt64 (getTime + s.nTimeOffset)

def limitOffset (nMedian nOffsetLimit : Int) : Int :=
  if abs64 nMedian < nOffsetLimit then nMedian else (if nMedian > 0 then 1 else -1) * nOffsetLimit

def addTimeData (p : Params) (s : TimeData) (ip : CNetAddr) (nOffsetSample nOffsetLimit : Int) : TimeData :=
  if s.setKnown.length = BITCOIN_TIMEDATA_MAX_SAMPLES then s
  else if p.strNetworkID ≠ .regtest ∧ ip ∈ s.setKnown then s
  else
    let vTimeOffsets := s.vTimeOffsets.input nOffsetSample
    { setKnown := if p.strNetworkID = .regtest then s.setKnown else ip :: s.setKnown
      vTimeOffsets := vTimeOffsets
      nTimeOffset :=
        if vTimeOffsets.size ≥ 5 ∧ vTimeOffsets.size % 2 = 1 then limitOffset vTimeOffsets.median nOffsetLimit
        else s.nTimeOffset }

/-- A `version` message, with the own clock at its arrival. -/
structure VersionMessage where
  addr : CNetAddr
  nTime : Int
  getTime : Int

/-- `nTimeOffset` of a peer. -/
def VersionMessage.offset (m : VersionMessage) : Int := toInt64 (m.nTime - m.getTime)

/-- `ProcessMessage` for `version`: a peer whose offset is too large is disconnected. -/
def processVersion (p : Params) (s : TimeData) (m : VersionMessage) : TimeData :=
  if abs64 m.offset < 2 * p.nTimeSlotLength then addTimeData p s m.addr m.offset p.nTimeSlotLength else s

def afterMessages (p : Params) (messages : List VersionMessage) : TimeData :=
  messages.foldl (processVersion p) .initial

/-! ## The samples -/

namespace CMedianFilter

/-- A property of all samples, with the sorted list in step. -/
structure All (P : Int → Prop) (f : CMedianFilter) : Prop where
  perm : f.vSorted.Perm f.vValues
  holds : ∀ v ∈ f.vValues, P v

variable {P : Int → Prop} {f : CMedianFilter}

theorem All.input (h : f.All P) {value : Int} (hvalue : P value) : (f.input value).All P := by
  refine ⟨List.perm_insertionSort _ _, fun v hv => ?_⟩
  simp only [CMedianFilter.input, List.mem_append, List.mem_singleton] at hv
  rcases hv with hv | rfl
  · apply h.holds
    split at hv
    · exact List.mem_of_mem_tail hv
    · exact hv
  · exact hvalue

theorem All.median (h : f.All P) (hodd : f.size % 2 = 1) : P f.median := by
  have hlength : f.vSorted.length = f.size := h.perm.length_eq
  have hlt : f.vSorted.length / 2 < f.vSorted.length := by omega
  unfold CMedianFilter.median
  rw [if_pos (by omega), List.getD_eq_getElem?_getD, List.getElem?_eq_getElem hlt, Option.getD_some]
  exact h.holds _ (h.perm.subset (List.getElem_mem hlt))

end CMedianFilter

/-! ## The offset -/

theorem abs64_eq {n : Int} (hmin : n ≠ -9223372036854775808) (hn : InInt64 n) : abs64 n = |n| := by
  unfold abs64 InInt64 at *
  split
  · rename_i hpos
    rw [abs_of_nonneg hpos]
  · rw [abs_of_neg (by omega), toInt64_of_inInt64 (by unfold InInt64; omega)]

theorem limitOffset_le {nMedian nOffsetLimit : Int} (hlimit : 0 ≤ nOffsetLimit)
    (hmin : nMedian ≠ -9223372036854775808) (hmedian : InInt64 nMedian) :
    |limitOffset nMedian nOffsetLimit| ≤ nOffsetLimit := by
  unfold limitOffset
  rw [abs64_eq hmin hmedian]
  split
  · rename_i hlt
    exact hlt.le
  · split
    · rw [one_mul, abs_of_nonneg hlimit]
    · rw [neg_one_mul, abs_neg, abs_of_nonneg hlimit]

/-- The invariant of the clock: the offset is at most one slot, and no sample is the least number. -/
structure ClockOk (p : Params) (s : TimeData) : Prop where
  offset : |s.nTimeOffset| ≤ p.nTimeSlotLength
  samples : s.vTimeOffsets.All fun v => v ≠ -9223372036854775808 ∧ InInt64 v

section Clock

variable {p : Params} {s : TimeData}

theorem clockOk_initial (hslot : 0 ≤ p.nTimeSlotLength) : ClockOk p .initial := by
  refine ⟨by simpa [TimeData.initial] using hslot, .refl _, fun v hv => ?_⟩
  obtain rfl : v = 0 := List.mem_singleton.mp hv
  exact ⟨by decide, by decide⟩

theorem ClockOk.addTimeData (hs : ClockOk p s) (hslot : 0 ≤ p.nTimeSlotLength) {ip : CNetAddr} {sample : Int}
    (hsample : sample ≠ -9223372036854775808 ∧ InInt64 sample) :
    ClockOk p (KrovaCoin.addTimeData p s ip sample p.nTimeSlotLength) := by
  unfold KrovaCoin.addTimeData
  split
  · exact hs
  split
  · exact hs
  have hall := hs.samples.input hsample
  refine ⟨?_, hall⟩
  dsimp only
  split
  · rename_i hodd
    obtain ⟨hmin, hrange⟩ := hall.median hodd.2
    exact limitOffset_le hslot hmin hrange
  · exact hs.offset

theorem ClockOk.processVersion (hs : ClockOk p s) (hslot : 0 ≤ p.nTimeSlotLength) {m : VersionMessage}
    (hm : m.offset ≠ -9223372036854775808) : ClockOk p (KrovaCoin.processVersion p s m) := by
  unfold KrovaCoin.processVersion
  split
  · exact hs.addTimeData hslot ⟨hm, inInt64_toInt64 _⟩
  · exact hs

theorem ClockOk.foldl (hslot : 0 ≤ p.nTimeSlotLength) {messages : List VersionMessage}
    (hmessages : ∀ m ∈ messages, m.offset ≠ -9223372036854775808) (hs : ClockOk p s) :
    ClockOk p (messages.foldl (KrovaCoin.processVersion p) s) := by
  induction messages generalizing s with
  | nil => exact hs
  | cons m messages ih =>
    obtain ⟨hm, hrest⟩ := List.forall_mem_cons.mp hmessages
    exact ih hrest (hs.processVersion hslot hm)

theorem getAdjustedTime_sub {getTime : Int} (hoffset : InInt64 s.nTimeOffset) :
    toInt64 (s.getAdjustedTime getTime - getTime) = s.nTimeOffset := by
  unfold TimeData.getAdjustedTime
  rw [sub_eq_add_neg, toInt64_add_toInt64, show getTime + s.nTimeOffset + -getTime = s.nTimeOffset by ring]
  exact toInt64_of_inInt64 hoffset

end Clock

/-- **Peers cannot move the clock by more than one time slot**, after any sequence of messages of which none has a time
    that differs from the own clock by `2 ^ 63` (in two's complement). -/
theorem timeOffset_bounded {p : Params} (hslot : 0 ≤ p.nTimeSlotLength ∧ InInt32 p.nTimeSlotLength)
    (messages : List VersionMessage) (hmessages : ∀ m ∈ messages, m.offset ≠ -9223372036854775808) :
    |(afterMessages p messages).nTimeOffset| ≤ p.nTimeSlotLength ∧
      ∀ getTime, |toInt64 ((afterMessages p messages).getAdjustedTime getTime - getTime)| ≤ p.nTimeSlotLength := by
  have hok := (clockOk_initial hslot.1).foldl hslot.1 hmessages
  have hoffset : |(afterMessages p messages).nTimeOffset| ≤ p.nTimeSlotLength := hok.offset
  refine ⟨hoffset, fun getTime => ?_⟩
  have hrange : InInt64 (afterMessages p messages).nTimeOffset := by
    have := abs_le.mp hoffset
    obtain ⟨-, hint⟩ := hslot
    unfold InInt32 at hint
    unfold InInt64
    omega
  rw [getAdjustedTime_sub hrange]
  exact hoffset

def aheadMessage (addr : CNetAddr) : VersionMessage := ⟨addr, 1785931301, 1785931300⟩

theorem timeOffset_bounded_ahead :
    |(afterMessages mainParams [aheadMessage 1, aheadMessage 2, aheadMessage 3, aheadMessage 4]).nTimeOffset| ≤ 15 :=
  (timeOffset_bounded (by decide) _ (by decide)).1

/-- A message whose time is `2 ^ 63` seconds before the own clock. -/
def farMessage (addr : CNetAddr) : VersionMessage := ⟨addr, 1785931300 - 9223372036854775808, 1785931300⟩

theorem timeOffset_unbounded : (∀ addr, InInt64 (farMessage addr).nTime) ∧
      (afterMessages mainParams [farMessage 1, farMessage 2, farMessage 3, farMessage 4]).nTimeOffset =
        -9223372036854775808 := by
  refine ⟨fun addr => ?_, by decide +kernel⟩
  simp only [farMessage, InInt64]
  omega

end KrovaCoin
