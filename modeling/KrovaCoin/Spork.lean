import KrovaCoin.Lib.Latest
import KrovaCoin.Lib.MachineInt

/-!
# Sporks (`spork.cpp`, `sporkid.h`)

A spork is a switch of the consensus rules that a message with the signature of the spork key sets. Every node keeps,
for each spork, the message with the latest signing time.

* `sporkDefs`, `CSporkMessage`, `SporkEnv` — the sporks, the messages and the keys.
* `getSporkValue`, `isSporkActive` — what the rules read.

Principal result: `sporks_converge_iff`.
-/

namespace KrovaCoin

open Lib

/-! ## The model -/

structure CSporkDef where
  sporkId : Int
  defaultValue : Int
  name : String

def sporkDefs : List CSporkDef :=
  [⟨10007, 4070908800, "SPORK_8_MASTERNODE_PAYMENT_ENFORCEMENT"⟩,
   ⟨10008, 4070908800, "SPORK_9_MASTERNODE_BUDGET_ENFORCEMENT"⟩,
   ⟨10012, 4070908800, "SPORK_13_ENABLE_SUPERBLOCKS"⟩,
   ⟨10013, 4070908800, "SPORK_14_NEW_PROTOCOL_ENFORCEMENT"⟩,
   ⟨10014, 4070908800, "SPORK_15_NEW_PROTOCOL_ENFORCEMENT_2"⟩,
   ⟨10019, 4070908800, "SPORK_19_COLDSTAKING_MAINTENANCE"⟩,
   ⟨10020, 4070908800, "SPORK_20_SAPLING_MAINTENANCE"⟩,
   ⟨10021, 4070908800, "SPORK_21_LEGACY_MNS_MAX_HEIGHT"⟩,
   ⟨10022, 4070908800, "SPORK_22_LLMQ_DKG_MAINTENANCE"⟩,
   ⟨10023, 4070908800, "SPORK_23_CHAINLOCKS_ENFORCEMENT"⟩]

/-- `sporkDefsById.find`. -/
def sporkDefsById (nSporkID : Int) : Option CSporkDef := sporkDefs.find? fun d => d.sporkId = nSporkID

def getSporkNameByID (nSporkID : Int) : String :=
  match sporkDefsById nSporkID with
  | none => "Unknown"
  | some d => d.name

structure CSporkMessage where
  nSporkID : Int
  nValue : Int
  nTimeSigned : Int
  vchSig : List UInt8
  nMessVersion : Int
  deriving DecidableEq

def MESS_VER_HASH : Int := 1

/-- The parameters, and `CheckSignature` for the present and for the old public key. -/
structure SporkEnv where
  nTime_EnforceNewSporkKey : Int
  nTime_RejectOldSporkKey : Int
  checkSignature : CSporkMessage → Bool
  checkSignatureOld : CSporkMessage → Bool

/-- `mapSporksActive`. -/
abbrev SporkMap := Int → Option CSporkMessage

def addOrUpdateSporkMessage (mapSporksActive : SporkMap) (spork : CSporkMessage) : SporkMap :=
  Function.update mapSporksActive spork.nSporkID (some spork)

/-- `fValidSig` of `ProcessSporkMsg`: the old key counts until both times have come. -/
def SporkEnv.validSig (env : SporkEnv) (adjustedTime : Int) (spork : CSporkMessage) : Bool :=
  let fRequireNew := decide (spork.nTimeSigned ≥ env.nTime_EnforceNewSporkKey)
  if !env.checkSignature spork && !fRequireNew then
    if adjustedTime < env.nTime_RejectOldSporkKey then env.checkSignatureOld spork else false
  else env.checkSignature spork

/-- The message in memory was signed at the same time or later. -/
def moreRecent (mapSporksActive : SporkMap) (spork : CSporkMessage) : Bool :=
  match mapSporksActive spork.nSporkID with
  | none => false
  | some active => decide (active.nTimeSigned ≥ spork.nTimeSigned)

/-- `ProcessSporkMsg`, with the banning score. -/
def processSporkMsg (env : SporkEnv) (adjustedTime : Int) (mapSporksActive : SporkMap) (spork : CSporkMessage) :
    Int × SporkMap :=
  if getSporkNameByID spork.nSporkID = "Unknown" then (0, mapSporksActive)
  else if spork.nTimeSigned > toInt64 (adjustedTime + 2 * 60 * 60) then (100, mapSporksActive)
  else if spork.nMessVersion ≠ MESS_VER_HASH then (0, mapSporksActive)
  else if moreRecent mapSporksActive spork then (0, mapSporksActive)
  else if env.validSig adjustedTime spork = false then (100, mapSporksActive)
  else (0, addOrUpdateSporkMessage mapSporksActive spork)

def getSporkValue (mapSporksActive : SporkMap) (nSporkID : Int) : Int :=
  match mapSporksActive nSporkID with
  | some active => active.nValue
  | none =>
    match sporkDefsById nSporkID with
    | some d => d.defaultValue
    | none => -1

def isSporkActive (mapSporksActive : SporkMap) (adjustedTime nSporkID : Int) : Bool :=
  decide (getSporkValue mapSporksActive nSporkID < adjustedTime)

/-- A message, and the adjusted time at which it is processed. -/
structure SporkEvent where
  adjustedTime : Int
  spork : CSporkMessage

def afterSporks (env : SporkEnv) (mapSporksActive : SporkMap) (events : List SporkEvent) : SporkMap :=
  events.foldl (fun m e => (processSporkMsg env e.adjustedTime m e.spork).2) mapSporksActive

/-! ## One message -/

/-- The message passes the checks of time, version and signature. -/
structure Passes (env : SporkEnv) (adjustedTime : Int) (spork : CSporkMessage) : Prop where
  time : spork.nTimeSigned ≤ toInt64 (adjustedTime + 2 * 60 * 60)
  version : spork.nMessVersion = MESS_VER_HASH
  signature : env.validSig adjustedTime spork = true

/-- The spork has an entry in `sporkDefs`. -/
def KnownSpork (nSporkID : Int) : Prop := getSporkNameByID nSporkID ≠ "Unknown"

instance (nSporkID : Int) : Decidable (KnownSpork nSporkID) := inferInstanceAs (Decidable (_ ≠ _))

variable {env : SporkEnv} {mapSporksActive : SporkMap}

theorem moreRecent_iff (spork : CSporkMessage) : moreRecent mapSporksActive spork = true ↔
      ¬ Later CSporkMessage.nTimeSigned (mapSporksActive spork.nSporkID) spork := by
  unfold moreRecent Later
  cases mapSporksActive spork.nSporkID with
  | none => simp
  | some active => simp

variable {spork : CSporkMessage}

theorem processSporkMsg_of_passes {adjustedTime : Int} (h : Passes env adjustedTime spork)
    (hknown : KnownSpork spork.nSporkID) : (processSporkMsg env adjustedTime mapSporksActive spork).2 =
      Function.update mapSporksActive spork.nSporkID
        (keepLatest CSporkMessage.nTimeSigned (mapSporksActive spork.nSporkID) spork) := by
  unfold processSporkMsg
  rw [if_neg hknown, if_neg (not_lt.mpr h.time), if_neg (not_not_intro h.version)]
  by_cases hrecent : moreRecent mapSporksActive spork = true
  · rw [if_pos hrecent, keepLatest_of_not_later ((moreRecent_iff spork).mp hrecent), Function.update_eq_self]
  · have hlater := not_not.mp (mt (moreRecent_iff spork).mpr hrecent)
    rw [if_neg hrecent, if_neg (by rw [h.signature]; decide), keepLatest_of_later hlater]
    rfl

theorem processSporkMsg_unknown {adjustedTime : Int} (h : ¬ KnownSpork spork.nSporkID) :
    processSporkMsg env adjustedTime mapSporksActive spork = (0, mapSporksActive) :=
  if_pos (not_not.mp h)

/-! ## Sequences of messages -/

def messagesFor (nSporkID : Int) (events : List SporkEvent) : List CSporkMessage :=
  (events.map SporkEvent.spork).filter fun m => m.nSporkID = nSporkID

variable {events : List SporkEvent} {m : CSporkMessage}

theorem mem_messagesFor {nSporkID : Int} :
    m ∈ messagesFor nSporkID events ↔ m ∈ events.map SporkEvent.spork ∧ m.nSporkID = nSporkID := by
  simp [messagesFor]

theorem afterSporks_eq (nSporkID : Int) (hpass : ∀ e ∈ events, Passes env e.adjustedTime e.spork) :
    afterSporks env mapSporksActive events nSporkID = if KnownSpork nSporkID then
      (messagesFor nSporkID events).foldl (keepLatest CSporkMessage.nTimeSigned) (mapSporksActive nSporkID)
      else mapSporksActive nSporkID := by
  induction events generalizing mapSporksActive with
  | nil => exact (ite_self _).symm
  | cons e events ih =>
    obtain ⟨he, hrest⟩ := List.forall_mem_cons.mp hpass
    change afterSporks env (processSporkMsg env e.adjustedTime mapSporksActive e.spork).2 events nSporkID = _
    rw [ih hrest]
    by_cases hk : KnownSpork e.spork.nSporkID
    · rw [processSporkMsg_of_passes he hk]
      by_cases hid : e.spork.nSporkID = nSporkID
      · subst hid
        simp [messagesFor, hk]
      · simp [messagesFor, hid, Function.update_of_ne (Ne.symm hid)]
    · rw [processSporkMsg_unknown hk]
      by_cases hid : e.spork.nSporkID = nSporkID
      · simp [← hid, hk]
      · simp [messagesFor, hid]

/-- A node has seen the messages of `M`, each at least once, and no other. -/
structure HasSeen (env : SporkEnv) (M : List CSporkMessage) (events : List SporkEvent) : Prop where
  passes : ∀ e ∈ events, Passes env e.adjustedTime e.spork
  seen : ∀ m, m ∈ events.map SporkEvent.spork ↔ m ∈ M

/-- No two different messages of `M` for one spork share its latest signing time, if that is later than the signing time
    of the message in memory. -/
def NoTie (mapSporksActive : SporkMap) (M : List CSporkMessage) : Prop :=
  ∀ nSporkID, KnownSpork nSporkID →
    SingleLatest CSporkMessage.nTimeSigned (mapSporksActive nSporkID) fun m => m ∈ M ∧ m.nSporkID = nSporkID

variable {M : List CSporkMessage}

theorem exists_events (hM : ∀ m ∈ M, ∃ t, Passes env t m) :
    ∃ events : List SporkEvent, events.map SporkEvent.spork = M ∧ ∀ e ∈ events, Passes env e.adjustedTime e.spork := by
  induction M with
  | nil => exact ⟨[], rfl, fun _ h => absurd h List.not_mem_nil⟩
  | cons m M ih =>
    obtain ⟨⟨t, ht⟩, hrest⟩ := List.forall_mem_cons.mp hM
    obtain ⟨events, hmap, hpass⟩ := ih hrest
    exact ⟨⟨t, m⟩ :: events, by rw [List.map_cons, hmap], List.forall_mem_cons.mpr ⟨ht, hpass⟩⟩

theorem exists_hasSeen_first (hM : ∀ m ∈ M, ∃ t, Passes env t m) (hm : m ∈ M) (hknown : KnownSpork m.nSporkID)
    (hlater : Later CSporkMessage.nTimeSigned (mapSporksActive m.nSporkID) m)
    (hle : ∀ c, c ∈ M ∧ c.nSporkID = m.nSporkID → c.nTimeSigned ≤ m.nTimeSigned) :
    ∃ events, HasSeen env M events ∧ afterSporks env mapSporksActive events m.nSporkID = some m := by
  obtain ⟨events, hmap, hpass⟩ := exists_events (M := m :: M) (List.forall_mem_cons.mpr ⟨hM m hm, hM⟩)
  refine ⟨events, ⟨hpass, fun c => ?_⟩, ?_⟩
  · rw [hmap, List.mem_cons]
    exact ⟨fun h => h.elim (fun heq => heq ▸ hm) id, .inr⟩
  · have hfor : messagesFor m.nSporkID events = m :: M.filter fun c => c.nSporkID = m.nSporkID := by
      simp [messagesFor, hmap]
    rw [afterSporks_eq _ hpass, if_pos hknown, hfor]
    refine foldl_keepLatest_first hlater fun c hc => hle c ?_
    simpa using hc

/-- **Agreement on sporks**: any two nodes that start from the same sporks and have seen the same messages, in any order
    and any number of times, agree on all of them, if and only if no spork has two latest messages. -/
theorem sporks_converge_iff (env : SporkEnv) (mapSporksActive : SporkMap) (M : List CSporkMessage)
    (hM : ∀ m ∈ M, ∃ t, Passes env t m) :
    (∀ events events', HasSeen env M events → HasSeen env M events' →
      afterSporks env mapSporksActive events = afterSporks env mapSporksActive events') ↔
      NoTie mapSporksActive M := by
  constructor
  · -- each of two latest messages stays in memory if it comes first
    rintro hagree nSporkID hknown m m' ⟨hm, rfl⟩ ⟨hm', hid⟩ hlater hle htime
    obtain ⟨events, hseen, hlast⟩ := exists_hasSeen_first hM hm hknown hlater hle
    have hlater' : Later CSporkMessage.nTimeSigned (mapSporksActive m'.nSporkID) m' := by
      rw [hid]
      exact fun b hb => htime ▸ hlater b hb
    obtain ⟨events', hseen', hlast'⟩ := exists_hasSeen_first hM hm' (hid ▸ hknown) hlater'
      (fun c hc => htime ▸ hle c ⟨hc.1, hc.2.trans hid⟩)
    have heq := congrFun (hagree events events' hseen hseen') m.nSporkID
    rw [hlast, ← hid, hlast'] at heq
    exact Option.some.inj heq
  · intro htie events events' hseen hseen'
    funext nSporkID
    rw [afterSporks_eq _ hseen.passes, afterSporks_eq _ hseen'.passes]
    split
    · rename_i hknown
      refine foldl_keepLatest_agree (htie nSporkID hknown) (fun m => ?_) fun m => ?_
      · rw [mem_messagesFor, hseen.seen]
      · rw [mem_messagesFor, hseen'.seen]
    · rfl

/-- An environment in which every signature is valid. -/
def trustingEnv : SporkEnv := ⟨1608512400, 1614560400, fun _ => true, fun _ => true⟩

/-- Superblocks are switched on, or off. -/
def superblockSpork (nValue : Int) : CSporkMessage := ⟨10012, nValue, 1785931200, [], 1⟩

theorem superblockSpork_passes (nValue : Int) : Passes trustingEnv 1785931300 (superblockSpork nValue) :=
  ⟨by simp only [superblockSpork]; decide, rfl, rfl⟩

theorem sporks_converge_iff_single : afterSporks trustingEnv (fun _ => none) [⟨1785931300, superblockSpork 0⟩] =
      afterSporks trustingEnv (fun _ => none) [⟨1785931300, superblockSpork 0⟩, ⟨1785931300, superblockSpork 0⟩] := by
  have hpasses := superblockSpork_passes 0
  refine (sporks_converge_iff trustingEnv (fun _ => none) [superblockSpork 0] ?_).mpr ?_ _ _ ?_ ?_
  · exact List.forall_mem_singleton.mpr ⟨_, hpasses⟩
  · rintro id - m m' ⟨hm, -⟩ ⟨hm', -⟩ - - -
    rw [List.mem_singleton.mp hm, List.mem_singleton.mp hm']
  · exact ⟨List.forall_mem_singleton.mpr hpasses, fun m => by simp⟩
  · exact ⟨by simpa using hpasses, fun m => by simp⟩

/-- Two messages of one signing time, in two orders: superblocks are on for one node and off for the other. -/
theorem sporks_diverge : HasSeen trustingEnv [superblockSpork 0, superblockSpork 4070908800]
        [⟨1785931300, superblockSpork 0⟩, ⟨1785931300, superblockSpork 4070908800⟩] ∧
      HasSeen trustingEnv [superblockSpork 0, superblockSpork 4070908800]
        [⟨1785931300, superblockSpork 4070908800⟩, ⟨1785931300, superblockSpork 0⟩] ∧
      isSporkActive (afterSporks trustingEnv (fun _ => none)
        [⟨1785931300, superblockSpork 0⟩, ⟨1785931300, superblockSpork 4070908800⟩]) 1785931300 10012 = true ∧
      isSporkActive (afterSporks trustingEnv (fun _ => none)
        [⟨1785931300, superblockSpork 4070908800⟩, ⟨1785931300, superblockSpork 0⟩]) 1785931300 10012 = false := by
  have hpasses := superblockSpork_passes
  refine ⟨⟨by simpa using ⟨hpasses 0, hpasses 4070908800⟩, fun m => by simp⟩,
    ⟨by simpa using ⟨hpasses 4070908800, hpasses 0⟩, fun m => by simp [or_comm]⟩, by decide +kernel, by decide +kernel⟩

end KrovaCoin
