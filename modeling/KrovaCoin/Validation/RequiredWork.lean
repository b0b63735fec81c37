import KrovaCoin.Retarget
import KrovaCoin.Validation.UniqueTxids
import KrovaCoin.Validation.AcceptBlock

/-!
# The work of received blocks (`validation.cpp`: `CheckWork`, `AddToBlockIndex`)

Principal results: `acceptBlock_required_work`, `addToBlockIndex_coinstake`.
-/

namespace KrovaCoin

open Lib

/-! ## Neighbouring targets -/

/-- The power of 256 by which `ConvertBitsToDouble` scales. -/
def shiftScale (nShift : Nat) : ℚ := if nShift ≤ 29 then 256 ^ (29 - nShift) else 1 / 256 ^ (nShift - 29)

theorem convertBitsToDouble_packCompact {mantissa nSize : Nat} (hm : 0 < mantissa ∧ mantissa < 0x800000)
    (hs : nSize < 256) :
    convertBitsToDouble (packCompact mantissa nSize) = some (roundRat (mkRat 0xffff mantissa) * shiftScale nSize) := by
  have hsize : (packCompact mantissa nSize).toNat / 0x1000000 = nSize := by
    rw [toNat_packCompact hm.2 hs]
    omega
  have hword : (packCompact mantissa nSize).toNat % 0x1000000 = mantissa := by
    rw [toNat_packCompact hm.2 hs]
    omega
  simp only [convertBitsToDouble, hsize, hword, if_neg hm.1.ne', shiftScale, Option.some.injEq]
  split
  · rfl
  · rw [mul_one_div]

theorem shiftScale_large {nShift : Nat} (h : nShift ≤ 33) : 1 / 2 ^ 32 ≤ shiftScale nShift := by
  unfold shiftScale
  split
  · calc (1 : ℚ) / 2 ^ 32 ≤ 1 := by norm_num
      _ ≤ 256 ^ (29 - nShift) := one_le_pow₀ (by norm_num)
  · have hpow : (256 : ℚ) ^ (nShift - 29) ≤ 256 ^ 4 := pow_le_pow_right₀ (by norm_num) (by omega)
    calc (1 : ℚ) / 2 ^ 32 = 1 / 256 ^ 4 := by norm_num
      _ ≤ 1 / 256 ^ (nShift - 29) := one_div_le_one_div_of_le (by positivity) hpow

theorem unitRat_small : 0 ≤ unitRat ∧ unitRat ≤ 1 / 2 ^ 64 := by
  unfold unitRat
  refine ⟨by positivity, one_div_le_one_div_of_le (by positivity) ?_⟩
  exact pow_le_pow_right₀ (by norm_num) (by norm_num)

theorem differsByHalf_close {x y z : ℚ} (hz : 1 / 2 ^ 50 ≤ z) (hx : 98 * z ≤ 100 * x ∧ 100 * x ≤ 102 * z)
    (hy : 98 * z ≤ 100 * y ∧ 100 * y ≤ 102 * z) : differsByHalf (some x) (some y) = false := by
  have hunit := unitRat_small
  have hround := (roundRat_near (x - y)).1
  have habs : |x - y| ≤ 4 / 100 * z := by
    rw [abs_le]
    constructor <;> linarith
  simp only [differsByHalf, gt_iff_lt, decide_eq_false_iff_not, not_lt]
  linarith

theorem roundRat_scaled {a c : ℚ} (ha : 1 / 2 ^ 16 ≤ a) (hc : 0 < c) :
    (985 * (a * c) ≤ 1000 * (roundRat a * c)) ∧ 1000 * (roundRat a * c) ≤ 1015 * (a * c) := by
  have hunit := unitRat_small
  have hpos : 0 ≤ a := le_trans (by positivity) ha
  obtain ⟨hhigh, hlow⟩ := roundRat_near a
  rw [abs_of_nonneg (roundRat_nonneg hpos), abs_of_nonneg hpos] at hhigh hlow
  have h1 : 985 * a ≤ 1000 * roundRat a := by linarith
  have h2 : 1000 * roundRat a ≤ 1015 * a := by linarith
  constructor
  · calc 985 * (a * c) = 985 * a * c := by ring
      _ ≤ 1000 * roundRat a * c := mul_le_mul_of_nonneg_right h1 hc.le
      _ = 1000 * (roundRat a * c) := by ring
  · calc 1000 * (roundRat a * c) = 1000 * roundRat a * c := by ring
      _ ≤ 1015 * a * c := mul_le_mul_of_nonneg_right h2 hc.le
      _ = 1015 * (a * c) := by ring

/-- **Neighbouring compact targets pass the comparison.** -/
theorem convertBitsToDouble_close {mantissa nSize : Nat} (hm : 32768 ≤ mantissa ∧ mantissa < 0x800000)
    (hs : nSize ≤ 33) :
    differsByHalf (convertBitsToDouble (packCompact (mantissa - 1) nSize))
      (convertBitsToDouble (packCompact mantissa nSize)) = false := by
  rw [convertBitsToDouble_packCompact (by omega) (by omega), convertBitsToDouble_packCompact (by omega) (by omega)]
  have hscale := shiftScale_large hs
  generalize shiftScale nSize = c at hscale
  have hc : 0 < c := lt_of_lt_of_le (by positivity) hscale
  rw [Rat.mkRat_eq_div, Rat.mkRat_eq_div]
  have hmantissa : (32768 : ℚ) ≤ mantissa ∧ (mantissa : ℚ) ≤ 0x800000 := by
    constructor <;> exact_mod_cast (by omega)
  have hpred : ((mantissa - 1 : Nat) : ℚ) = mantissa - 1 := by
    rw [Nat.cast_sub (by omega), Nat.cast_one]
  rw [hpred]
  generalize (mantissa : ℚ) = m at hmantissa
  have hpos : (0 : ℚ) < m - 1 := by linarith
  have ha : (1 : ℚ) / 2 ^ 16 ≤ (0xffff : Int) / m := by
    rw [div_le_div_iff₀ (by positivity) (by linarith)]
    norm_num
    linarith
  -- the two quotients are within one permille of each other
  have hle : ((0xffff : Int) / m : ℚ) ≤ (0xffff : Int) / (m - 1) :=
    div_le_div_of_nonneg_left (by norm_num) hpos (by linarith)
  have hge : ((0xffff : Int) / (m - 1) : ℚ) ≤ 1001 / 1000 * ((0xffff : Int) / m) := by
    rw [mul_div_assoc', div_le_div_iff₀ hpos (by linarith)]
    linarith
  generalize ((0xffff : Int) / m : ℚ) = a at *
  generalize ((0xffff : Int) / (m - 1) : ℚ) = a' at *
  have hmul : a * c ≤ a' * c := mul_le_mul_of_nonneg_right hle hc.le
  have hmul' : a' * c ≤ 1001 / 1000 * (a * c) := by
    calc a' * c ≤ 1001 / 1000 * a * c := mul_le_mul_of_nonneg_right hge hc.le
      _ = 1001 / 1000 * (a * c) := by ring
  obtain ⟨h1, h2⟩ := roundRat_scaled ha hc
  obtain ⟨h1', h2'⟩ := roundRat_scaled (ha.trans hle) hc
  have hac : (1 : ℚ) / 2 ^ 50 ≤ a * c := by
    calc (1 : ℚ) / 2 ^ 50 ≤ 1 / 2 ^ 16 * (1 / 2 ^ 32) := by norm_num
      _ ≤ a * c := mul_le_mul ha hscale (by positivity) (le_trans (by positivity) ha)
  exact differsByHalf_close hac (by constructor <;> linarith) (by constructor <;> linarith)

theorem exists_other_bits (x : Uint256) : ∃ nBits, nBits ≠ getCompact x ∧
      differsByHalf (convertBitsToDouble nBits) (convertBitsToDouble (getCompact x)) = false := by
  by_cases hx : x.toNat = 0
  · obtain rfl : x = 0 := BitVec.eq_of_toNat_eq hx
    exact ⟨0x01000000, by decide, rfl⟩
  · obtain ⟨mantissa, nSize, h, hpack⟩ := getCompact_form hx
    have hm : 32768 ≤ mantissa ∧ mantissa < 0x800000 := ⟨h.low, h.high⟩
    have hs := h.size_le x.isLt
    refine ⟨packCompact (mantissa - 1) nSize, fun heq => ?_, ?_⟩
    · have hnat := congrArg UInt32.toNat heq
      rw [hpack, toNat_packCompact (by omega) (by omega), toNat_packCompact hm.2 (by omega)] at hnat
      omega
    · rw [hpack]
      exact convertBitsToDouble_close hm hs

/-! ## `CheckWork` -/

/-- The header carries the time and the bits of the block that the main network exempts. -/
def Whitelisted (block : CBlock) : Prop := block.nTime = 1471401614 ∧ block.nBits = 0x1c056dac

variable {block : CBlock} {pprev : List CBlock}

theorem checkWork_main (hpprev : pprev ≠ []) : checkWork mainParams block pprev = true ↔
      if block.isProofOfWork = true ∧ pprev.length ≤ 68589 then differsByHalf (convertBitsToDouble block.nBits)
          (convertBitsToDouble (getNextWorkRequired mainParams pprev)) = false
      else block.nBits = getNextWorkRequired mainParams pprev ∨ Whitelisted block := by
  obtain ⟨last, older, rfl⟩ := List.exists_cons_of_ne_nil hpprev
  have hnetwork : (mainParams.strNetworkID != .regtest) = true := rfl
  have hbad : (powParams mainParams.strNetworkID).badBlock = some (1471401614, 0x1c056dac) := rfl
  simp only [checkWork, hnetwork, hbad, Bool.true_and, Bool.and_eq_true, decide_eq_true_eq]
  split
  · rw [Bool.not_eq_true']
  · rw [Bool.or_eq_true, beq_iff_eq, beq_iff_eq, Option.some.injEq, Prod.mk.injEq, Whitelisted, eq_comm (a := block.nTime),
      eq_comm (a := block.nBits) (b := 0x1c056dac)]

theorem getNextWorkRequired_packed (chain : List CBlock) : ∃ x, getNextWorkRequired mainParams chain = getCompact x := by
  match chain with
  | [] => exact ⟨mainParams.powLimit, rfl⟩
  | [genesis] => exact ⟨mainParams.powLimit, rfl⟩
  | last :: pprev :: older =>
    have hretarget : (powParams mainParams.strNetworkID).fPowNoRetargeting = false := rfl
    simp only [getNextWorkRequired, hretarget, Bool.false_eq_true, if_false]
    split
    · exact ⟨_, rfl⟩
    · split
      · exact ⟨_, rfl⟩
      · exact ⟨_, rfl⟩

def bareBlock (nBits : UInt32) : CBlock := ⟨0, 8, 0, 0, 0, nBits, 0, 0, [], []⟩

/-- `CheckWork` leaves a kind of blocks no choice exactly where it compares the bits themselves. -/
theorem checkWork_forces_iff (hpprev : pprev ≠ []) (isProofOfWork : Bool) :
    (∀ block, block.isProofOfWork = isProofOfWork → ¬ Whitelisted block →
      checkWork mainParams block pprev = true → block.nBits = getNextWorkRequired mainParams pprev) ↔
      isProofOfWork = false ∨ 68589 < pprev.length := by
  constructor
  · intro hforces
    by_contra hnot
    rw [not_or, Bool.not_eq_false, not_lt] at hnot
    obtain ⟨x, hx⟩ := getNextWorkRequired_packed pprev
    obtain ⟨nBits, hne, hclose⟩ := exists_other_bits x
    refine hne ?_
    rw [← hx] at hclose ⊢
    refine hforces (bareBlock nBits) (by rw [hnot.1]; rfl) (fun h => absurd h.1 (by simp only [bareBlock]; decide)) ?_
    rw [checkWork_main hpprev, if_pos ⟨rfl, hnot.2⟩]
    exact hclose
  · rintro hexact block hkind hlisted hwork
    rw [checkWork_main hpprev, if_neg] at hwork
    · exact hwork.resolve_right hlisted
    · rintro ⟨hpow, hlow⟩
      rcases hexact with rfl | hhigh
      · rw [hpow] at hkind
        cases hkind
      · omega

variable {s : ChainState}

theorem acceptBlock_checkWork {env : Env} {accepted : Accepted} (h : acceptBlock env s block = .ok accepted)
    (hprev : getPrevIndex env s block = .ok pprev) (hgenesis : block.hash ≠ env.params.hashGenesisBlock) :
    checkWork env.params block pprev = true := by
  simp only [acceptBlock, hprev, ok_bind, bind_eq_ok, rejectIf_eq_ok, exists_and_left, exists_const] at h
  obtain ⟨hwork, -⟩ := h
  have hne : (block.hash != env.params.hashGenesisBlock) = true := bne_iff_ne.mpr hgenesis
  rw [hne, Bool.true_and, Bool.not_eq_false'] at hwork
  exact hwork

/-- **The difficulty of accepted blocks** of the main network is the required one for every proof-of-stake block and for
    every block above height 68589, apart from the exempted header; and on every parent, `CheckWork` forces the required
    difficulty on a kind of blocks only there. -/
theorem acceptBlock_required_work {env : Env} (hmain : env.params = mainParams) :
    (∀ (s : ChainState) (block : CBlock) (accepted : Accepted) (pprev : List CBlock),
      acceptBlock env s block = .ok accepted → getPrevIndex env s block = .ok pprev →
      block.hash ≠ mainParams.hashGenesisBlock → ¬ Whitelisted block →
      block.isProofOfWork = false ∨ 68589 < pprev.length → block.nBits = getNextWorkRequired mainParams pprev) ∧
    ∀ (pprev : List CBlock), pprev ≠ [] → ∀ isProofOfWork : Bool,
      (∀ block, block.isProofOfWork = isProofOfWork → ¬ Whitelisted block →
        checkWork mainParams block pprev = true → block.nBits = getNextWorkRequired mainParams pprev) ↔
        isProofOfWork = false ∨ 68589 < pprev.length := by
  refine ⟨fun s block accepted pprev haccept hprev hgenesis hlisted hexact => ?_,
    fun pprev hpprev isProofOfWork => checkWork_forces_iff hpprev isProofOfWork⟩
  have hwork := acceptBlock_checkWork haccept hprev (hmain ▸ hgenesis)
  rw [hmain] at hwork
  have hpprev : pprev ≠ [] := by
    rintro rfl
    cases hwork
  exact (checkWork_forces_iff hpprev block.isProofOfWork).mpr hexact block rfl hlisted hwork

theorem acceptBlock_required_work_stake : steadyChain 0 ≠ [] ∧
    ∀ block : CBlock, block.isProofOfWork = false → ¬ Whitelisted block →
      checkWork mainParams block (steadyChain 0) = true →
        block.nBits = getNextWorkRequired mainParams (steadyChain 0) :=
  ⟨by decide, ((@acceptBlock_required_work sampleEnv rfl).2 (steadyChain 0) (by decide) false).mpr (.inl rfl)⟩

def findTransaction (chain : List CBlock) (hash : Uint256) : Option (CTransaction × Uint256) :=
  chain.findSome? fun block => (block.vtx.find? fun tx => tx.hash == hash).map fun tx => (tx, block.hash)

def chainIndex (chain : List CBlock) (hash : Uint256) : Option BlockIndexEntry :=
  (chain.tails.find? fun branch => branch.head?.map CBlock.hash == some hash).map (⟨·, false, true⟩)

def steadyState (nHeight : Nat) : ChainState where
  node :=
    { sampleNode with
      tip := (steadyChain nHeight).head?.map CBlock.hash
      chainActive := chainBlockAt (steadyChain nHeight)
      lookupBlockIndex := fun hash => (chainIndex (steadyChain nHeight) hash).isSome }
  mapBlockIndex := chainIndex (steadyChain nHeight)
  active := steadyChain nHeight
  pcoinsTip := emptyChainView
  getTransaction := findTransaction (steadyChain nHeight)
  stakeModifier _ := List.replicate 32 0
  maxreorg := DEFAULT_MAX_REORG_DEPTH
  index hash entry h := by
    obtain ⟨chain, hfind, rfl⟩ := Option.map_eq_some_iff.mp h
    simpa using List.find?_some hfind
  tip := rfl
  lookup _ := rfl
  blocks _ := rfl

/-- A block with proof of work after the steady chain: its only transaction is the coinbase. -/
def minedBlock (nHeight : Nat) (nBits : UInt32) : CBlock :=
  { steadyBlock (nHeight + 1) with
    hash := 1000000000
    hashMerkleRoot := 1
    nBits := nBits
    hashFinalSaplingRoot := PedersenHash.emptyRoot
    vtx := [⟨1, 1, 0, [⟨⟨0, 0xffffffff⟩, [0x51, 0x00], 0xffffffff⟩], [⟨0, [OP_1]⟩], 0, none, none⟩] }

/-- A block with proof of work at height 1 is accepted with bits other than the required ones. -/
theorem acceptBlock_other_work : acceptBlock sampleEnv (steadyState 0) (minedBlock 0 0x1e0ffffe) = .ok .stored ∧
      getPrevIndex sampleEnv (steadyState 0) (minedBlock 0 0x1e0ffffe) = .ok (steadyChain 0) ∧
      getNextWorkRequired mainParams (steadyChain 0) = 0x1e0fffff ∧ ¬ Whitelisted (minedBlock 0 0x1e0ffffe) := by
  refine ⟨by decide +kernel, rfl, by decide +kernel, fun h => absurd h.2 (by decide)⟩

/-! ## `AddToBlockIndex` -/

/-- An access beyond the end of a vector. -/
inductive ReadFault where
  | outOfRange
  deriving DecidableEq, Repr

/-- `vtx[1]->vin[0].prevout.hash`. -/
def CBlock.stakePrevHash (block : CBlock) : Except ReadFault Uint256 :=
  match block.vtx[1]? with
  | none => .error .outOfRange
  | some tx =>
    match tx.vin[0]? with
    | none => .error .outOfRange
    | some txin => .ok txin.prevout.hash

/-- `AddToBlockIndex` computes the stake modifier from the coinstake: the block is not in the index, its parent is, and
    `V3_4` is active at its height. -/
def ReadsCoinstake (p : Params) (s : ChainState) (block : CBlock) : Prop :=
  s.mapBlockIndex block.hash = none ∧
    ∃ entry, s.mapBlockIndex block.hashPrevBlock = some entry ∧
      p.networkUpgradeActive entry.chain.length .UPGRADE_V3_4 = true

/-- What `AddToBlockIndex` passes to `SetNewStakeModifier`; `none` where it passes nothing. -/
def newStakeModifierInput (p : Params) (s : ChainState) (block : CBlock) : Except ReadFault (Option Uint256) :=
  if (s.mapBlockIndex block.hash).isSome then .ok none
  else
    match s.mapBlockIndex block.hashPrevBlock with
    | none => .ok none
    | some entry =>
      if p.networkUpgradeActive entry.chain.length .UPGRADE_V3_4 then block.stakePrevHash.map some else .ok none

/-- The block has passed the checks of `ProcessNewBlock` and `AcceptBlock` before `AddToBlockIndex`. -/
structure ReachesIndex (env : Env) (s : ChainState) (block : CBlock) (pprev : List CBlock) : Prop where
  checked : checkBlock env s.node block true true true = .ok ()
  prev : getPrevIndex env s block = .ok pprev
  work : block.hash ≠ env.params.hashGenesisBlock → checkWork env.params block pprev = true
  stake : acceptProofOfStake env s block pprev = .ok ()
  header : acceptBlockHeader env s block pprev = .ok false

theorem newStakeModifierInput_of_reads {p : Params} (h : ReadsCoinstake p s block) :
    newStakeModifierInput p s block = block.stakePrevHash.map some := by
  obtain ⟨hnew, entry, hentry, hactive⟩ := h
  simp only [newStakeModifierInput, hnew, hentry, hactive, Option.isSome_none, Bool.false_eq_true, if_false, if_true]

theorem CBlock.isProofOfStake_iff (block : CBlock) :
    block.isProofOfStake = true ↔ ∃ cb tx txs, block.vtx = cb :: tx :: txs ∧ tx.isCoinStake = true := by
  unfold CBlock.isProofOfStake
  split
  · rename_i cb tx txs hvtx
    constructor
    · exact fun h => ⟨cb, tx, txs, hvtx, h⟩
    · rintro ⟨_, _, _, heq, h⟩
      cases hvtx.symm.trans heq
      exact h
  · rename_i hvtx
    constructor
    · intro h
      cases h
    · rintro ⟨cb, tx, txs, heq, -⟩
      exact absurd heq (hvtx cb tx txs)

theorem CBlock.stakePrevHash_of_coinstake {cb tx : CTransaction} {txs : List CTransaction}
    (hvtx : block.vtx = cb :: tx :: txs) (htx : tx.isCoinStake = true) :
    ∃ txin ins, tx.vin = txin :: ins ∧ block.stakePrevHash = .ok txin.prevout.hash := by
  obtain ⟨txin, ins, hvin⟩ : ∃ txin ins, tx.vin = txin :: ins := by
    cases hvin : tx.vin with
    | nil => simp [CTransaction.isCoinStake, hvin] at htx
    | cons txin ins => exact ⟨txin, ins, rfl⟩
  refine ⟨txin, ins, hvin, ?_⟩
  simp [CBlock.stakePrevHash, hvtx, hvin]

/-- A block after the steady chain that stakes output `n` of the last coinbase, signed by the key it pays to. -/
def stakedBlock (nHeight : Nat) (n : UInt32) : CBlock :=
  { steadyBlock (nHeight + 1) with
    hash := BitVec.ofNat 256 (2 ^ 255)
    hashMerkleRoot := 1
    nBits := 0x1e0fffff
    vtx := [⟨1, 1, 0, [⟨⟨0, 0xffffffff⟩, [0x51, 0x00], 0xffffffff⟩], [⟨0, []⟩], 0, none, none⟩,
      ⟨2, 1, 0, [⟨⟨BitVec.ofNat 256 (1000000 + nHeight), n⟩, [], 0xffffffff⟩],
        [⟨0, []⟩, ⟨10000, pushData (sampleKey 1) ++ [OP_CHECKSIG]⟩], 0, none, none⟩]
    vchBlockSig := sampleSig 1 }

theorem steadyState_parent (h : block.hashPrevBlock = steadyHash 600) :
    (steadyState 600).mapBlockIndex block.hashPrevBlock = some ⟨steadyChain 600, false, true⟩ := by
  rw [h]
  rfl

theorem steadyChain_v34 : mainParams.networkUpgradeActive (steadyChain 600).length .UPGRADE_V3_4 = true := by
  rw [length_steadyChain]
  decide

theorem chainIndex_steady {n : Nat} {hash : Uint256} (hgenesis : hash ≠ mainParams.hashGenesisBlock)
    (hlarge : n < hash.toNat) : chainIndex (steadyChain n) hash = none := by
  have hne : ∀ m ≤ n, steadyHash m ≠ hash := by
    intro m hm heq
    cases m with
    | zero => exact hgenesis heq.symm
    | succ m =>
      rw [← heq, steadyHash, BitVec.toNat_ofNat] at hlarge
      omega
  have htails : ∀ m ≤ n, (steadyChain m).tails.find? (fun branch => branch.head?.map CBlock.hash == some hash) = none := by
    intro m hm
    induction m with
    | zero => simp [steadyChain, steadyBlock, hne 0 hm]
    | succ m ih => simp [steadyChain, steadyBlock, hne (m + 1) hm, ih (by omega)]
  rw [chainIndex, htails n le_rfl]
  rfl

theorem steadyState_new (hgenesis : block.hash ≠ mainParams.hashGenesisBlock) (hlarge : 600 < block.hash.toNat) :
    (steadyState 600).mapBlockIndex block.hash = none :=
  chainIndex_steady hgenesis hlarge

theorem getLastCheckpoint_steady : getLastCheckpoint sampleEnv.checkpoints (steadyState 600) = none := by
  have hhashes : ∀ checkpoint ∈ mapCheckpoints.reverse,
      checkpoint.2 ≠ mainParams.hashGenesisBlock ∧ 600 < checkpoint.2.toNat := by decide
  refine (if_neg (by decide)).trans (List.findSome?_eq_none_iff.mpr fun checkpoint hmem => ?_)
  obtain ⟨hgenesis, hlarge⟩ := hhashes checkpoint hmem
  rw [show (steadyState 600).mapBlockIndex checkpoint.2 = none from chainIndex_steady hgenesis hlarge]
  rfl

theorem acceptBlockHeader_steady (hnew : (steadyState 600).mapBlockIndex block.hash = none)
    (htime : checkBlockTime sampleEnv (steadyState 600).node block (steadyChain 600) = .ok ())
    (hversion : obsoleteVersion mainParams block.nVersion 601 = false) :
    acceptBlockHeader sampleEnv (steadyState 600) block (steadyChain 600) = .ok false := by
  have hlength := length_steadyChain 600
  have hheight : (steadyState 600).height = 600 := by
    rw [ChainState.height, show (steadyState 600).active = steadyChain 600 from rfl, hlength]
    rfl
  have hcheckpoint : sampleEnv.checkpoints.checkBlock 601 block.hash false = true := rfl
  have hcontext : contextualCheckBlockHeader sampleEnv (steadyState 600) block (steadyChain 600) = .ok () := by
    unfold contextualCheckBlockHeader
    split
    · rfl
    · simp only [bind_eq_ok, rejectIf_eq_ok, exists_and_left, exists_const, htime, hlength, hheight,
        getLastCheckpoint_steady]
      exact ⟨rfl, rfl, trivial, by rw [show ((600 + 1 : Nat) : Int) = 601 from rfl, hcheckpoint]; rfl, rfl, hversion⟩
  rw [acceptBlockHeader, hnew]
  simp only [hcontext, ok_bind]
  rfl

end KrovaCoin
