import KrovaCoin.Consensus.SuperblockTally
import KrovaCoin.Script.ColdStake
import KrovaCoin.Validation.Assertions

/-!
# Block acceptance and the state of the node (`validation.cpp`: `CheckBlock`, `ConnectBlock`)

Some checks of a block ask whether the node is downloading the chain, or read the active chain instead of
the ancestors of the block.

Principal results: `accepts_iff_syncing`, `accepts_independent_iff`.
-/

namespace KrovaCoin

open Lib Superblock

/-! ## Verdicts and node states -/

/-- `CheckBlock`, followed by `ConnectBlock` on the state of the parent, succeeds. -/
def Accepts (env : Env) (node : NodeState) (block : CBlock) (pprev : CBlockIndex) (v : View) : Prop :=
  checkBlock env node block true true true = .ok () ∧
    ∃ r, connectBlock env node block (some pprev) v false = .ok r

def blockAt (chain : List CBlock) (h : Int) : Option CBlock := if h < 0 then none else chain[h.toNat]?

/-- A chain of blocks from the genesis block on. -/
structure IsBranch (p : Params) (tree : Set CBlock) (chain : List CBlock) : Prop where
  known : ∀ b ∈ chain, b ∈ tree
  genesis : ∀ b ∈ chain.head?, b.hash = p.hashGenesisBlock
  linked : chain.IsChain fun a b => b.hashPrevBlock = a.hash

/-- The node knows the blocks of the tree, and its active chain is one of the branches. -/
structure OnTree (p : Params) (tree : Set CBlock) (node : NodeState) : Prop where
  identified : ∀ a ∈ tree, ∀ b ∈ tree, a.hash = b.hash → a = b
  known : ∀ hash, node.lookupBlockIndex hash = true ↔ ∃ b ∈ tree, b.hash = hash
  active : ∃ chain, IsBranch p tree chain ∧ node.chainActive = blockAt chain ∧
    node.tip = chain.getLast?.map CBlock.hash

/-- The same spork values, clock and options. -/
structure SameSettings (n1 n2 : NodeState) : Prop where
  coldStakingMaintenance : n2.coldStakingMaintenance = n1.coldStakingMaintenance
  saplingMaintenance : n2.saplingMaintenance = n1.saplingMaintenance
  getAdjustedTime : n2.getAdjustedTime = n1.getAdjustedTime
  nScriptCheckThreads : n2.nScriptCheckThreads = n1.nScriptCheckThreads
  setInvalidOutPoints : n2.setInvalidOutPoints = n1.setInvalidOutPoints

/-- The last output of a coinstake to a last-output-free delegation is like the one before. -/
def FreeOutputUnused (block : CBlock) : Prop :=
  ∀ tx ∈ block.vtx[1]?, tx.isCoinStake = true →
    (∃ out, tx.vout[1]? = some out ∧ out.scriptPubKey.isPayToColdStakingLOF = true) → 3 ≤ tx.vout.length →
    tx.vout.getLast?.map CTxOut.scriptPubKey = tx.vout.dropLast.getLast?.map CTxOut.scriptPubKey

/-- What the two sporks switch off does not occur in the block, and the last output is not free. -/
structure SporkFree (node : NodeState) (block : CBlock) : Prop where
  freeOutput : FreeOutputUnused block
  coldStaking : node.coldStakingMaintenance = true →
    ∀ tx ∈ block.vtx, ∀ out ∈ tx.vout, out.scriptPubKey.isPayToColdStaking = false
  shielded : node.saplingMaintenance < block.getBlockTime → ∀ tx ∈ block.vtx, tx.isShieldedTx = false

/-- A block whose verdict depends on no state of the node: in addition, nothing is to be paid from the
    staking rewards pool at its height. -/
structure SyncFree (p : Params) (node : NodeState) (block : CBlock) (nHeight : Int) : Prop
    extends SporkFree node block where
  noPayout : isSuperblockHeight p nHeight = true → 7300 ≤ getSuperblockCycleIndex p nHeight

/-! ## The checks of a synced node -/

/-- The node before its first tip. -/
def NodeState.syncing (node : NodeState) : NodeState :=
  { node with tip := none, isInitialBlockDownload := true }

theorem checkTxOut_inactive (p : Params) (tx : CTransaction) (nValueOut : Int) (txout : CTxOut) (r : Int) :
    checkTxOut p tx false nValueOut txout = .ok r ↔
      txout.scriptPubKey.isPayToColdStaking = false ∧ checkTxOut p tx true nValueOut txout = .ok r := by
  simp only [checkTxOut, bind_eq_ok, rejectIf_eq_ok, exists_and_left, exists_const, Bool.not_false,
    Bool.and_true, Bool.not_true, Bool.and_false, true_and]
  simp only [and_left_comm]

variable {p : Params} {tx : CTransaction}

theorem checkTransaction_inactive : checkTransaction p tx false = .ok () ↔
      (∀ out ∈ tx.vout, out.scriptPubKey.isPayToColdStaking = false) ∧ checkTransaction p tx true = .ok () := by
  simp only [checkTransaction, bind_eq_ok, rejectIf_eq_ok, exists_and_left, exists_const,
    foldlM_eq_ok_and (checkTxOut_inactive p tx)]
  constructor
  · rintro ⟨hin, hout, hversion, hsize, n, hsapling, total, ⟨hcold, houts⟩, hnodup, hins⟩
    exact ⟨hcold, hin, hout, hversion, hsize, n, hsapling, total, houts, hnodup, hins⟩
  · rintro ⟨hcold, hin, hout, hversion, hsize, n, hsapling, total, houts, hnodup, hins⟩
    exact ⟨hin, hout, hversion, hsize, n, hsapling, total, ⟨hcold, houts⟩, hnodup, hins⟩

variable {block : CBlock} {node : NodeState} {env : Env} {pprev : CBlockIndex}

theorem checkColdStakeFreeOutput_iff :
    (block.isProofOfStake && !((block.vtx[1]?).all checkColdStakeFreeOutput)) = false ↔ FreeOutputUnused block := by
  unfold FreeOutputUnused CBlock.isProofOfStake
  match block.vtx with
  | [] => simp
  | [_] => simp
  | _ :: tx :: txs =>
    simp only [List.getElem?_cons_succ, List.getElem?_cons_zero, Option.mem_def, Option.some.injEq, forall_eq',
      Option.all_some, Bool.and_eq_false_imp, Bool.not_eq_false']
    apply imp_congr_right
    intro _
    unfold checkColdStakeFreeOutput
    match tx.vout with
    | [] => simp
    | [_] => simp
    | out0 :: out1 :: outs =>
      simp only [List.getElem?_cons_succ, List.getElem?_cons_zero, Option.some.injEq, exists_eq_left',
        Bool.or_eq_true, Bool.not_eq_true', Bool.and_eq_false_imp, decide_eq_true_eq, bne_eq_false_iff_eq]
      rw [← Bool.not_eq_true]
      tauto

theorem checkColdStaking_known {active : Bool} (hknown : node.lookupBlockIndex block.hashPrevBlock = true)
    (hprev : block.hashPrevBlock ≠ UINT256_ZERO) : checkColdStaking node block = .ok active ↔
      if node.tip.isSome ∧ node.isInitialBlockDownload = false then
        FreeOutputUnused block ∧ active = !node.coldStakingMaintenance
      else active = true := by
  unfold checkColdStaking
  cases node.tip with
  | none =>
    simp only [Option.isSome_none, Bool.false_eq_true, false_and, if_false, Except.ok.injEq]
    exact eq_comm
  | some tip =>
    simp only [hprev, if_false, hknown, Bool.not_true, Bool.and_false, bind_eq_ok, rejectIf_eq_ok,
      exists_const, true_and]
    cases node.isInitialBlockDownload with
    | true =>
      simp only [if_true, pure_eq_ok, Bool.true_eq_false, and_false, if_false]
      exact eq_comm
    | false =>
      simp only [Bool.false_eq_true, if_false, bind_eq_ok, rejectIf_eq_ok, exists_and_left, exists_const,
        checkColdStakeFreeOutput_iff, pure_eq_ok, Option.isSome_some, and_self, if_true]
      tauto

/-- The part of `CheckBlock` that reads the state of the node. -/
def ColdChecked (env : Env) (node : NodeState) (block : CBlock) : Prop :=
  ∃ active, checkColdStaking node block = .ok active ∧
    ∀ tx ∈ block.vtx, checkTransaction env.params tx active = .ok ()

theorem checkBlock_coldChecked {pow merkle sig : Bool}
    (h : checkBlock env node block pow merkle sig = .ok ()) : ColdChecked env node block := by
  simp only [checkBlock, bind_eq_ok, rejectIf_eq_ok, exists_and_left, exists_const, forM_eq_ok] at h
  obtain ⟨-, _, -, -, -, _, -, active, hactive, htxs, -⟩ := h
  exact ⟨active, hactive, htxs⟩

theorem checkBlock_of_coldChecked {node' : NodeState} {pow merkle sig : Bool} (hcold : ColdChecked env node' block)
    (h : checkBlock env node block pow merkle sig = .ok ()) : checkBlock env node' block pow merkle sig = .ok () := by
  obtain ⟨active', hactive', htxs'⟩ := hcold
  simp only [checkBlock, bind_eq_ok, rejectIf_eq_ok, exists_and_left, exists_const, forM_eq_ok] at h ⊢
  obtain ⟨hpow, u, hmerkle, hlength, hshielded, u', hform, _, -, -, hrest⟩ := h
  exact ⟨hpow, u, hmerkle, hlength, hshielded, u', hform, active', hactive', htxs', hrest⟩

theorem ColdChecked.syncing (h : ColdChecked env node block) : ColdChecked env node.syncing block := by
  obtain ⟨active, -, htxs⟩ := h
  refine ⟨true, rfl, fun tx hin => ?_⟩
  cases active with
  | true => exact htxs tx hin
  | false => exact (checkTransaction_inactive.mp (htxs tx hin)).2

def TipChecked (node : NodeState) (block : CBlock) : Prop :=
  node.tip.isSome ∧ node.isInitialBlockDownload = false → FreeOutputUnused block ∧
    (node.coldStakingMaintenance = true →
      ∀ tx ∈ block.vtx, ∀ out ∈ tx.vout, out.scriptPubKey.isPayToColdStaking = false)

theorem coldChecked_iff_syncing (hknown : node.lookupBlockIndex block.hashPrevBlock = true)
    (hprev : block.hashPrevBlock ≠ UINT256_ZERO) :
    ColdChecked env node block ↔ ColdChecked env node.syncing block ∧ TipChecked node block := by
  constructor
  · intro h
    refine ⟨h.syncing, fun hsynced => ?_⟩
    obtain ⟨active, hactive, htxs⟩ := h
    rw [checkColdStaking_known hknown hprev, if_pos hsynced] at hactive
    obtain ⟨hfree, rfl⟩ := hactive
    refine ⟨hfree, fun hspork tx hin => ?_⟩
    rw [hspork] at htxs
    exact (checkTransaction_inactive.mp (htxs tx hin)).1
  · rintro ⟨⟨active, hactive, htxs⟩, htip⟩
    cases hactive
    by_cases hsynced : node.tip.isSome ∧ node.isInitialBlockDownload = false
    · obtain ⟨hfree, hspork⟩ := htip hsynced
      refine ⟨!node.coldStakingMaintenance, ?_, fun tx hin => ?_⟩
      · rw [checkColdStaking_known hknown hprev, if_pos hsynced]
        exact ⟨hfree, rfl⟩
      · cases hmaintenance : node.coldStakingMaintenance with
        | false => exact htxs tx hin
        | true => exact checkTransaction_inactive.mpr ⟨hspork hmaintenance tx hin, htxs tx hin⟩
    · refine ⟨true, ?_, htxs⟩
      rw [checkColdStaking_known hknown hprev, if_neg hsynced]

theorem connectTx_maintenance (env : Env) (node : NodeState) (ctx : ConnectContext) (s : ConnectState)
    (tx : CTransaction) (s' : ConnectState) :
    connectTx env node ctx s tx = .ok s' ↔ (ctx.fSaplingMaintenance = true → tx.isShieldedTx = false) ∧
      connectTx env node.syncing { ctx with fSaplingMaintenance := false } s tx = .ok s' := by
  simp only [connectTx, bind_eq_ok, rejectIf_eq_ok, exists_and_left, exists_const, Bool.false_and, true_and,
    Bool.and_eq_false_imp]
  exact and_left_comm

/-! ## The tally of the active chain -/

/-- The two nodes demand the same superblock payout at the height: they have the same tally, or nothing
    is to be paid. -/
def SamePayout (p : Params) (n1 n2 : NodeState) (nHeight : Int) : Prop :=
  tallyBefore p n1.chainActive nHeight = tallyBefore p n2.chainActive nHeight ∨
    getSuperblockPayout p nHeight = .ok 0

theorem buildSuperblockPayoutOutputs_unpaid {nHeight : Int} (h : getSuperblockPayout p nHeight = .ok 0)
    (chain : Int → Option CBlock) (script : CScript) (value : Int) :
    buildSuperblockPayoutOutputs p chain nHeight script value = .ok none := by
  unfold buildSuperblockPayoutOutputs
  dsimp only
  rw [h]
  split <;> rfl

variable {n1 n2 : NodeState}

theorem SamePayout.outputs {nHeight : Int} (h : SamePayout p n1 n2 nHeight) (script : CScript) (value : Int) :
    buildSuperblockPayoutOutputs p n1.chainActive nHeight script value =
      buildSuperblockPayoutOutputs p n2.chainActive nHeight script value := by
  rcases h with htally | hunpaid
  · unfold buildSuperblockPayoutOutputs
    rw [htally]
  · rw [buildSuperblockPayoutOutputs_unpaid hunpaid, buildSuperblockPayoutOutputs_unpaid hunpaid]

variable {nHeight : Nat}

theorem SamePayout.find (h : SamePayout env.params n1 n2 nHeight) : ∀ (txs : List CTransaction) (v : View),
      findSuperblockPayout env n1 nHeight v txs = findSuperblockPayout env n2 nHeight v txs := by
  intro txs
  induction txs with
  | nil =>
    intro v
    rfl
  | cons tx txs ih =>
    intro v
    have htx : checkSuperblockPayoutTx env n1 tx nHeight v = checkSuperblockPayoutTx env n2 tx nHeight v := by
      unfold checkSuperblockPayoutTx
      simp only [h.outputs]
    simp only [findSuperblockPayout, htx, ih]

theorem SamePayout.check (h : SamePayout env.params n1 n2 nHeight) (block : CBlock) (v : View) :
    checkSuperblock env n1 block nHeight v = checkSuperblock env n2 block nHeight v := by
  unfold checkSuperblock
  rw [h.find]
  rcases h with htally | hunpaid
  · unfold cycleHasStakers
    rw [htally]
  · rw [hunpaid]
    rfl

variable {v : View}

theorem checkSuperblockPayoutTx_single {found : Bool} {staker : CScript} {k : Int}
    (htally : (tallyBefore env.params node.chainActive nHeight).entries = [(staker, k)])
    (hnone : ∀ out ∈ tx.vout, out.scriptPubKey ≠ staker)
    (h : checkSuperblockPayoutTx env node tx nHeight v = .ok found) : found = false := by
  unfold checkSuperblockPayoutTx at h
  dsimp only at h
  split at h
  · split at h
    · cases h
      rfl
    · split at h
      · cases h
        rfl
      · obtain ⟨r, hr, h⟩ := bind_eq_ok.mp h
        rw [faulting_eq_ok] at hr
        cases r with
        | none => exact (pure_eq_ok.mp h).symm
        | some expected =>
          obtain ⟨out, hout, hscript⟩ := buildSuperblockPayoutOutputs_single htally hr
          rw [← pure_eq_ok.mp h, beq_eq_false_iff_ne]
          rintro rfl
          exact hnone out hout hscript
  · cases h
    rfl

/-- A block without an output to the only staker is refused where something is to be paid. -/
theorem checkSuperblock_single {v0 : View} {staker : CScript} {k payout : Int}
    (hsuper : isSuperblockHeight env.params nHeight = true)
    (hpayout : getSuperblockPayout env.params nHeight = .ok payout) (hpos : 0 < payout)
    (htally : (tallyBefore env.params node.chainActive nHeight).entries = [(staker, k)])
    (hnone : ∀ tx ∈ block.vtx, ∀ out ∈ tx.vout, out.scriptPubKey ≠ staker) :
    checkSuperblock env node block nHeight v ≠ .ok v0 := by
  intro h
  have hstakers : cycleHasStakers env.params node.chainActive nHeight = true := by
    simp [cycleHasStakers, htally]
  obtain ⟨tx, htx, os, hfound⟩ := checkSuperblock_found hsuper hpayout hpos hstakers h
  have := checkSuperblockPayoutTx_single htally (hnone tx htx) hfound
  cases this

/-! ## Verdicts of synced and syncing nodes -/

def MaintenanceChecked (node : NodeState) (block : CBlock) : Prop :=
  node.isInitialBlockDownload = false → node.saplingMaintenance < block.getBlockTime →
    ∀ tx ∈ block.vtx, tx.isShieldedTx = false

theorem connectTransactions_iff_syncing {pprev : Option CBlockIndex} {fJustCheck : Bool} {r : Connected} :
    connectTransactions env node block pprev v fJustCheck = .ok r ↔
      MaintenanceChecked node block ∧ connectTransactions env node.syncing block pprev v fJustCheck = .ok r := by
  have hsuper : ∀ v, checkSuperblock env node.syncing block (nextHeight pprev) v =
      checkSuperblock env node block (nextHeight pprev) v :=
    @SamePayout.check env node.syncing node _ (.inl rfl) block
  have hmaintenance : (∀ tx ∈ block.vtx,
      (ConnectContext.of env node block pprev).fSaplingMaintenance = true → tx.isShieldedTx = false) ↔
        MaintenanceChecked node block := by
    simp only [ConnectContext.of, Bool.and_eq_true, Bool.not_eq_true', decide_eq_true_eq, MaintenanceChecked,
      and_imp, gt_iff_lt]
    tauto
  have hloop : ∀ s s', block.vtx.foldlM (connectTx env node (.of env node block pprev)) s = .ok s' ↔
      MaintenanceChecked node block ∧
        block.vtx.foldlM (connectTx env node.syncing (.of env node.syncing block pprev)) s = .ok s' := by
    intro s s'
    rw [foldlM_eq_ok_and (connectTx_maintenance env node (.of env node block pprev)), hmaintenance]
    rfl
  simp only [connectTransactions, bind_eq_ok, rejectIf_eq_ok, exists_and_left, exists_const, hsuper, hloop]
  constructor
  · rintro ⟨hpow, hpos, hpool, tree, htree, v', hv', s, ⟨hfree, hs⟩, hrest⟩
    exact ⟨hfree, hpow, hpos, hpool, tree, htree, v', hv', s, hs, hrest⟩
  · rintro ⟨hfree, hpow, hpos, hpool, tree, htree, v', hv', s, hs, hrest⟩
    exact ⟨hpow, hpos, hpool, tree, htree, v', hv', s, ⟨hfree, hs⟩, hrest⟩

/-- The checks of `Accepts`, with those that do not read the state of the node in the middle. -/
theorem accepts_iff (hgenesis : block.hash ≠ env.params.hashGenesisBlock) :
    Accepts env node block pprev v ↔ checkBlock env node block true true true = .ok () ∧
      ((pprev.hash != v.getBestBlock) = false ∧
        (!env.params.networkUpgradeActive (pprev.nHeight + 1) .UPGRADE_V6_0 && block.isProofOfStake &&
          !((block.vtx.head?).any fun cb => cb.vout.length == 1 && cb.vout.all CTxOut.isEmpty)) = false) ∧
      ∃ r, connectTransactions env node block (some pprev) v false = .ok r := by
  simp only [Accepts, connectBlock, bind_eq_ok, rejectIf_eq_ok, exists_and_left, exists_const, if_neg hgenesis]
  constructor
  · rintro ⟨hcheck, r, _, -, hbest, hcb, hconnect⟩
    exact ⟨hcheck, ⟨hbest, hcb⟩, r, hconnect⟩
  · rintro ⟨hcheck, ⟨hbest, hcb⟩, r, hconnect⟩
    refine ⟨hcheck, r, (), ?_, hbest, hcb, hconnect⟩
    rw [connectCheckBlock, Bool.not_false, hcheck]

theorem Accepts.syncing (hgenesis : block.hash ≠ env.params.hashGenesisBlock) (h : Accepts env node block pprev v) :
    Accepts env node.syncing block pprev v := by
  rw [accepts_iff hgenesis] at h ⊢
  obtain ⟨hcheck, hheader, r, hconnect⟩ := h
  refine ⟨?_, hheader, r, (connectTransactions_iff_syncing.mp hconnect).2⟩
  exact checkBlock_of_coldChecked (checkBlock_coldChecked hcheck).syncing hcheck

/-- **What a node checks beyond a syncing one**, if it knows the parent of the block. -/
theorem accepts_iff_syncing (hgenesis : block.hash ≠ env.params.hashGenesisBlock)
    (hknown : node.lookupBlockIndex block.hashPrevBlock = true) (hprev : block.hashPrevBlock ≠ UINT256_ZERO) :
    Accepts env node block pprev v ↔
      Accepts env node.syncing block pprev v ∧ TipChecked node block ∧ MaintenanceChecked node block := by
  constructor
  · intro h
    refine ⟨h.syncing hgenesis, ?_⟩
    obtain ⟨hcheck, -, r, hconnect⟩ := (accepts_iff hgenesis).mp h
    constructor
    · exact ((coldChecked_iff_syncing hknown hprev).mp (checkBlock_coldChecked hcheck)).2
    · exact (connectTransactions_iff_syncing.mp hconnect).1
  · rintro ⟨h, htip, hmaintenance⟩
    rw [accepts_iff hgenesis] at h ⊢
    obtain ⟨hcheck, hheader, r, hconnect⟩ := h
    refine ⟨?_, hheader, r, connectTransactions_iff_syncing.mpr ⟨hmaintenance, hconnect⟩⟩
    apply checkBlock_of_coldChecked _ hcheck
    exact (coldChecked_iff_syncing hknown hprev).mpr ⟨checkBlock_coldChecked hcheck, htip⟩

/-- Two syncing nodes with the same settings and the same payout accept the same blocks. -/
theorem Accepts.of_syncing (hgenesis : block.hash ≠ env.params.hashGenesisBlock) (hsettings : SameSettings n1 n2)
    (hpayout : SamePayout env.params n1 n2 (pprev.nHeight + 1 : Nat)) (h : Accepts env n1.syncing block pprev v) :
    Accepts env n2.syncing block pprev v := by
  rw [accepts_iff hgenesis] at h ⊢
  obtain ⟨hcheck, hheader, r, hconnect⟩ := h
  refine ⟨hcheck, hheader, r, ?_⟩
  have hsuper : ∀ v, checkSuperblock env n2.syncing block (nextHeight (some pprev)) v =
      checkSuperblock env n1.syncing block (nextHeight (some pprev)) v := by
    intro v
    exact (@SamePayout.check env n1.syncing n2.syncing _ hpayout block v).symm
  have hcontext : ConnectContext.of env n2.syncing block (some pprev) =
      ConnectContext.of env n1.syncing block (some pprev) := by
    simp only [ConnectContext.of, NodeState.syncing, hsettings.setInvalidOutPoints, Bool.not_true, Bool.false_and]
  have hthreads : n2.syncing.nScriptCheckThreads = n1.syncing.nScriptCheckThreads :=
    hsettings.nScriptCheckThreads
  have hinputs : connectInputs env n2.syncing = connectInputs env n1.syncing := by
    funext ctx s tx out
    simp only [connectInputs, hthreads]
  have hconnectTx : connectTx env n2.syncing = connectTx env n1.syncing := by
    funext ctx s tx
    simp only [connectTx, hinputs]
  simp only [connectTransactions, hsuper, hcontext, hconnectTx, hthreads] at hconnect ⊢
  exact hconnect

/-! ## Two branches of one tree -/

/-- A block that was staked by an output to the script, or by nobody. -/
def branchBlock (hash hashPrevBlock : Uint256) (staker : Option CScript) : CBlock where
  hash := hash
  nVersion := 8
  hashPrevBlock := hashPrevBlock
  hashMerkleRoot := 0
  nTime := 0
  nBits := 0
  nNonce := 0
  hashFinalSaplingRoot := 0
  vtx := match staker with
    | none => []
    | some script => [stakeCoinbase, ⟨2, 1, 0, [⟨⟨7, 0⟩, [], 0⟩], [⟨0, []⟩, ⟨1, script⟩], 0, none, none⟩]
  vchBlockSig := []

@[simp] theorem stakerOf_branchBlock (hash hashPrevBlock : Uint256) (staker : Option CScript) :
    stakerOf (branchBlock hash hashPrevBlock staker) = staker := by
  cases staker <;> rfl

/-- The hashes of the blocks of a tree with two branches. -/
def forkHash (genesis : Uint256) (k : Nat) : Uint256 := genesis + BitVec.ofNat 256 k

theorem forkHash_inj {genesis : Uint256} {j k : Nat} (hj : j < 4294967296) (hk : k < 4294967296)
    (h : forkHash genesis j = forkHash genesis k) : j = k := by
  have hjk := congrArg BitVec.toNat ((BitVec.add_right_inj genesis).mp h)
  rw [BitVec.toNat_ofNat, BitVec.toNat_ofNat, Nat.mod_eq_of_lt (by omega), Nat.mod_eq_of_lt (by omega)] at hjk
  exact hjk

/-- A tree with two branches of `n` blocks: those numbered below `n`, and the genesis block with those
    numbered above `n`. -/
def forkBlock (genesis : Uint256) (n : Nat) (stakerA stakerB : Nat → Option CScript) : Nat → CBlock
  | 0 => branchBlock (forkHash genesis 0) UINT256_ZERO none
  | k + 1 => branchBlock (forkHash genesis (k + 1)) (forkHash genesis (if k = n then 0 else k))
      (if k + 1 < n then stakerA (k + 1) else stakerB (k + 1 - n))

theorem forkBlock_hash (genesis : Uint256) (n : Nat) (stakerA stakerB : Nat → Option CScript) (k : Nat) :
    (forkBlock genesis n stakerA stakerB k).hash = forkHash genesis k := by
  cases k <;> rfl

/-- The numbers of the blocks of the second branch. -/
def secondBranch (n : Nat) : Nat → Nat
  | 0 => 0
  | i + 1 => n + (i + 1)

/-- The tree, with a parent for the block in question if none of the blocks has its hash. -/
def forkTree (genesis : Uint256) (n : Nat) (stakerA stakerB : Nat → Option CScript) (parent : Uint256) : Set CBlock :=
  fun b => (∃ k < 2 * n, b = forkBlock genesis n stakerA stakerB k) ∨
    (b = branchBlock parent UINT256_ZERO none ∧ ∀ k < 2 * n, forkHash genesis k ≠ parent)

/-- The node of the given branch of the tree. -/
def forkNode (node : NodeState) (genesis : Uint256) (n : Nat) (parent : Uint256) (chain : List CBlock)
    (isInitialBlockDownload : Bool) : NodeState :=
  { node with
    tip := chain.getLast?.map CBlock.hash
    chainActive := blockAt chain
    lookupBlockIndex := fun hash => hash == parent || (List.range (2 * n)).any fun k => forkHash genesis k == hash
    isInitialBlockDownload := isInitialBlockDownload }

section Fork

variable {p : Params} {node : NodeState} {n : Nat} {stakerA stakerB : Nat → Option CScript} {parent : Uint256}
  {ibd : Bool} {number : Nat → Nat}

theorem forkTree_identified {genesis : Uint256} (hn : n < 2147483648) :
    ∀ a ∈ forkTree genesis n stakerA stakerB parent, ∀ b ∈ forkTree genesis n stakerA stakerB parent,
      a.hash = b.hash → a = b := by
  rintro a (⟨j, hj, rfl⟩ | ⟨rfl, ha⟩) b (⟨k, hk, rfl⟩ | ⟨rfl, hb⟩) hhash
  · rw [forkBlock_hash, forkBlock_hash] at hhash
    rw [forkHash_inj (by omega) (by omega) hhash]
  · rw [forkBlock_hash] at hhash
    exact absurd hhash (hb j hj)
  · rw [forkBlock_hash] at hhash
    exact absurd hhash.symm (ha k hk)
  · rfl

theorem forkNode_known {genesis : Uint256} {chain : List CBlock} (hash : Uint256) :
    (forkNode node genesis n parent chain ibd).lookupBlockIndex hash = true ↔
      ∃ b ∈ forkTree genesis n stakerA stakerB parent, b.hash = hash := by
  simp only [forkNode, Bool.or_eq_true, beq_iff_eq, List.any_eq_true, List.mem_range]
  constructor
  · intro h
    by_cases hk : ∃ k < 2 * n, forkHash genesis k = hash
    · obtain ⟨k, hlt, hk⟩ := hk
      exact ⟨_, .inl ⟨k, hlt, rfl⟩, by rw [forkBlock_hash, hk]⟩
    · have hparent := h.resolve_right hk
      refine ⟨branchBlock parent UINT256_ZERO none, .inr ⟨rfl, fun k hlt hne => ?_⟩, hparent.symm⟩
      exact hk ⟨k, hlt, hne.trans hparent.symm⟩
  · rintro ⟨b, ⟨k, hlt, rfl⟩ | ⟨rfl, -⟩, rfl⟩
    · rw [forkBlock_hash]
      exact .inr ⟨k, hlt, rfl⟩
    · exact .inl rfl

theorem forkNode_onTree (hn : n < 2147483648) (hzero : number 0 = 0) (hnumber : ∀ i < n, number i < 2 * n)
    (hlink : ∀ i, i + 1 < n → ∃ k, number (i + 1) = k + 1 ∧ (if k = n then 0 else k) = number i) :
    OnTree p (forkTree p.hashGenesisBlock n stakerA stakerB parent) (forkNode node p.hashGenesisBlock n parent
        ((List.range n).map fun i => forkBlock p.hashGenesisBlock n stakerA stakerB (number i)) ibd) := by
  refine ⟨forkTree_identified hn, forkNode_known, _, ⟨?_, ?_, ?_⟩, rfl, rfl⟩
  · intro b hb
    obtain ⟨i, hi, rfl⟩ := List.mem_map.mp hb
    exact .inl ⟨number i, hnumber i (List.mem_range.mp hi), rfl⟩
  · intro b hb
    cases n with
    | zero => cases hb
    | succ m =>
      rw [List.range_succ_eq_map, List.map_cons, List.head?_cons, Option.mem_def, Option.some.injEq] at hb
      rw [← hb, hzero, forkBlock_hash]
      exact BitVec.add_zero _
  · rw [List.isChain_iff_getElem]
    intro i hi
    simp only [List.length_map, List.length_range] at hi
    obtain ⟨k, hk, hprev⟩ := hlink i hi
    simp only [List.getElem_map, List.getElem_range, forkBlock_hash, hk]
    rw [← hprev]
    rfl

/-- A node on a branch of the tree whose blocks have the given stakers, with the settings of `node`. -/
structure BranchNode (p : Params) (tree : Set CBlock) (node : NodeState) (n : Nat)
    (staker : Nat → Option CScript) (ibd : Bool) (m : NodeState) : Prop where
  onTree : OnTree p tree m
  settings : SameSettings node m
  download : m.isInitialBlockDownload = ibd
  tip : m.tip.isSome
  stakers : ∀ i : Int, 1 ≤ i → i < n → (m.chainActive i).bind stakerOf = staker i.toNat

theorem branchNode_fork {staker : Nat → Option CScript} (number : Nat → Nat) (hn : 0 < n ∧ n < 2147483648) (hzero : number 0 = 0)
    (hnumber : ∀ i < n, number i < 2 * n)
    (hlink : ∀ i, i + 1 < n → ∃ k, number (i + 1) = k + 1 ∧ (if k = n then 0 else k) = number i ∧
      (if k + 1 < n then stakerA (k + 1) else stakerB (k + 1 - n)) = staker (i + 1)) :
    BranchNode p (forkTree p.hashGenesisBlock n stakerA stakerB parent) node n staker ibd
      (forkNode node p.hashGenesisBlock n parent
        ((List.range n).map fun i => forkBlock p.hashGenesisBlock n stakerA stakerB (number i)) ibd) := by
  refine ⟨forkNode_onTree hn.2 hzero hnumber ?_, ⟨rfl, rfl, rfl, rfl, rfl⟩, rfl, ?_, ?_⟩
  · intro i hi
    obtain ⟨k, hk, hprev, -⟩ := hlink i hi
    exact ⟨k, hk, hprev⟩
  · obtain ⟨m, rfl⟩ : ∃ m, n = m + 1 := ⟨n - 1, by omega⟩
    simp [forkNode]
  · intro i h1 hi
    obtain ⟨k, hk⟩ : ∃ k : Nat, i.toNat = k + 1 := ⟨(i - 1).toNat, by omega⟩
    obtain ⟨l, hl, -, hstaker⟩ := hlink k (by omega)
    show (blockAt _ i).bind stakerOf = _
    rw [blockAt, if_neg (by omega), hk, List.getElem?_map, List.getElem?_range (by omega), Option.map_some, hl,
      ← hstaker]
    exact stakerOf_branchBlock _ _ _

end Fork

/-- There is a tree with the parent and two branches of `n` blocks that were staked as we like. -/
theorem exists_fork (p : Params) (node : NodeState) {n : Nat} (hn : 0 < n ∧ n < 2147483648)
    (stakerA stakerB : Nat → Option CScript) (parent : Uint256) :
    ∃ tree, (∃ b ∈ tree, b.hash = parent) ∧
      (∀ ibd, ∃ m, BranchNode p tree node n stakerA ibd m) ∧ (∀ ibd, ∃ m, BranchNode p tree node n stakerB ibd m) := by
  refine ⟨forkTree p.hashGenesisBlock n stakerA stakerB parent, ?_, fun ibd => ⟨_, branchNode_fork id hn rfl ?_ ?_⟩,
    fun ibd => ⟨_, branchNode_fork (secondBranch n) hn rfl ?_ ?_⟩⟩
  · apply (@forkNode_known node n stakerA stakerB parent true p.hashGenesisBlock [] parent).mp
    simp [forkNode]
  · intro i hi
    show i < 2 * n
    omega
  · intro i hi
    exact ⟨i, rfl, if_neg (by omega), if_pos hi⟩
  · intro i hi
    cases i <;> simp only [secondBranch] <;> omega
  · intro i hi
    refine ⟨n + i, rfl, ?_, ?_⟩
    · cases i with
      | zero => exact if_pos rfl
      | succ i => exact if_neg (by omega)
    · rw [if_neg (by omega)]
      congr 1
      omega

/-! ## The verdict in all states -/

/-- A script that is longer than all scripts of the block. -/
def freshScript (block : CBlock) : CScript :=
  List.replicate ((block.vtx.flatMap CTransaction.vout).map fun (out : CTxOut) => out.scriptPubKey.length).sum.succ 0

theorem ne_freshScript {out : CTxOut} (htx : tx ∈ block.vtx) (hout : out ∈ tx.vout) :
    out.scriptPubKey ≠ freshScript block := by
  intro h
  have hlen := congrArg List.length h
  have hmem : out.scriptPubKey.length ∈
      (block.vtx.flatMap CTransaction.vout).map fun out => out.scriptPubKey.length :=
    List.mem_map.mpr ⟨out, List.mem_flatMap.mpr ⟨tx, htx, hout⟩, rfl⟩
  have hle := List.le_sum_of_mem hmem
  rw [freshScript, List.length_replicate] at hlen
  omega

variable {m : NodeState}

theorem SporkFree.accepts (h : SporkFree node block) (hgenesis : block.hash ≠ env.params.hashGenesisBlock)
    (hknown : m.lookupBlockIndex block.hashPrevBlock = true) (hprev : block.hashPrevBlock ≠ UINT256_ZERO)
    (hsettings : SameSettings node m) (hsyncing : Accepts env m.syncing block pprev v) :
    Accepts env m block pprev v := by
  apply (accepts_iff_syncing hgenesis hknown hprev).mpr
  refine ⟨hsyncing, fun _ => ⟨h.freeOutput, fun hspork => ?_⟩, fun _ htime => ?_⟩
  · apply h.coldStaking
    rw [← hsettings.coldStakingMaintenance]
    exact hspork
  · apply h.shielded
    rw [← hsettings.saplingMaintenance]
    exact htime

theorem Accepts.sporkFree (h : Accepts env m block pprev v) (hgenesis : block.hash ≠ env.params.hashGenesisBlock)
    (hknown : m.lookupBlockIndex block.hashPrevBlock = true) (hprev : block.hashPrevBlock ≠ UINT256_ZERO)
    (hsettings : SameSettings node m) (htip : m.tip.isSome) (hibd : m.isInitialBlockDownload = false) :
    SporkFree node block := by
  obtain ⟨-, htipChecked, hmaintenance⟩ := (accepts_iff_syncing hgenesis hknown hprev).mp h
  obtain ⟨hfree, hcold⟩ := htipChecked ⟨htip, hibd⟩
  refine ⟨hfree, fun hspork => hcold ?_, fun htime => hmaintenance hibd ?_⟩
  · rw [hsettings.coldStakingMaintenance]
    exact hspork
  · rw [hsettings.saplingMaintenance]
    exact htime

theorem SyncFree.unpaid {nHeight : Int} (h : SyncFree p node block nHeight) (hheight : nHeight < 9223372036854775807) :
    getSuperblockPayout p nHeight = .ok 0 := by
  by_cases hsuper : isSuperblockHeight p nHeight = true
  · obtain ⟨payout, hpayout, hpos, hnonneg, -⟩ := getSuperblockPayout_eq hheight hsuper
    have hlate := h.noPayout hsuper
    rw [hpayout]
    congr 1
    omega
  · rw [getSuperblockPayout, if_neg hsuper]

/-- **The verdict on a block is the same in all states of the node exactly if it is `SyncFree`.** For every block that
    some node accepts on the state of its parent: all nodes that have the spork values of that one and share a block
    tree with the parent agree on it, whether or not they are in initial block download and whatever branch is active,
    if and only if a last-output-free coinstake does not use its last output, the block has no cold-staking outputs or
    shielded transactions under maintenance, and nothing is to be paid from the staking rewards pool at its height. -/
theorem accepts_independent_iff {env : Env} {node : NodeState} {block : CBlock} {pprev : CBlockIndex} {v : View}
    (hpos : 1 < env.params.nActivationHeight .UPGRADE_POS) (hgenesis : block.hash ≠ env.params.hashGenesisBlock)
    (hprev : block.hashPrevBlock = pprev.hash) (hnull : pprev.hash ≠ UINT256_ZERO)
    (hheight : pprev.nHeight + 1 < 2147483648) (haccepts : Accepts env node block pprev v) :
    (∀ tree n1 n2, OnTree env.params tree n1 → OnTree env.params tree n2 → (∃ b ∈ tree, b.hash = pprev.hash) →
      SameSettings node n1 → SameSettings node n2 → (Accepts env n1 block pprev v ↔ Accepts env n2 block pprev v)) ↔
      SyncFree env.params node block (pprev.nHeight + 1 : Nat) := by
  have hnull' : block.hashPrevBlock ≠ UINT256_ZERO := hprev ▸ hnull
  have hsyncing := haccepts.syncing hgenesis
  constructor
  · intro hsame
    -- one branch has the stakers that the accepting node has tallied, the other one staker only
    obtain ⟨tree, hparent, hA, hB⟩ := exists_fork env.params node ⟨Nat.succ_pos pprev.nHeight, hheight⟩
      (fun i => (node.chainActive i).bind stakerOf) (fun _ => some (freshScript block)) pprev.hash
    have hknown : ∀ m, OnTree env.params tree m → m.lookupBlockIndex block.hashPrevBlock = true := by
      intro m hm
      rw [hprev]
      exact (hm.known _).mpr hparent
    obtain ⟨mA, hmA⟩ := hA true
    have hacceptsA : Accepts env mA block pprev v := by
      apply (accepts_iff_syncing hgenesis (hknown mA hmA.onTree) hnull').mpr
      refine ⟨Accepts.of_syncing hgenesis hmA.settings (.inl (tallyBefore_congr ?_)) hsyncing, ?_, ?_⟩
      · intro i h1 hi
        rw [hmA.stakers i h1 hi, Int.toNat_of_nonneg (by omega)]
      · rintro ⟨-, hibd⟩
        exact absurd (hmA.download.symm.trans hibd) (by decide)
      · intro hibd
        exact absurd (hmA.download.symm.trans hibd) (by decide)
    constructor
    · obtain ⟨mA', hmA'⟩ := hA false
      have hacceptsA' := (hsame tree mA mA' hmA.onTree hmA'.onTree hparent hmA.settings hmA'.settings).mp hacceptsA
      exact hacceptsA'.sporkFree hgenesis (hknown mA' hmA'.onTree) hnull' hmA'.settings hmA'.tip hmA'.download
    · intro hsuper
      by_contra hearly
      obtain ⟨mB, hmB⟩ := hB true
      obtain ⟨-, -, r, hconnect⟩ := (accepts_iff hgenesis).mp
        ((hsame tree mA mB hmA.onTree hmB.onTree hparent hmA.settings hmB.settings).mp hacceptsA)
      simp only [connectTransactions, bind_eq_ok, rejectIf_eq_ok, exists_and_left, exists_const] at hconnect
      obtain ⟨-, -, -, tree', -, v0, hcheck, -⟩ := hconnect
      obtain ⟨hfirst, -, hle, hcycle⟩ := isSuperblockHeight_ok hsuper
      obtain ⟨payout, hpayout, hpaid, -⟩ := getSuperblockPayout_eq (by omega) hsuper
      obtain ⟨k, -, htally⟩ := tallyBefore_single hcycle (by omega) hmB.stakers
      exact checkSuperblock_single hsuper hpayout (hpaid.mpr (by omega)) htally
        (fun tx htx out hout => ne_freshScript htx hout) hcheck
  · intro hfree tree n1 n2 h₁ h2 hparent hs1 hs2
    have haccepts : ∀ m, OnTree env.params tree m → SameSettings node m → Accepts env m block pprev v := by
      intro m hm hsettings
      apply hfree.toSporkFree.accepts hgenesis _ hnull' hsettings
      · exact Accepts.of_syncing hgenesis hsettings (.inr (hfree.unpaid (by omega))) hsyncing
      · rw [hprev]
        exact (hm.known _).mpr hparent
    exact ⟨fun _ => haccepts n2 h2 hs2, fun _ => haccepts n1 h₁ hs1⟩

/-! ## A coinstake with a free last output -/

def lofScript : CScript :=
  getScriptForStakeDelegationLOF (copyCrypto.hash160 (sampleKey 1)) (copyCrypto.hash160 (sampleKey 2))

/-- A coinstake of a last-output-free delegation, signed by the staker. -/
def lofStake (outs : List CTxOut) : CTransaction :=
  ⟨2, 1, 0, [⟨⟨7, 0⟩, pushData (sampleSig 1 ++ [SIGHASH_ALL]) ++ pushData [1] ++ pushData (sampleKey 1), 0⟩],
    ⟨0, []⟩ :: outs, 0, none, none⟩

/-- A block of height 701 around it. -/
def lofBlock (outs : List CTxOut) : CBlock :=
  ⟨5, 8, 77, 1, 1785990000, 0x1e0ffff0, 0, PedersenHash.emptyRoot, [stakeCoinbase, lofStake outs], sampleSig 1⟩

def lofParent : CBlockIndex := ⟨77, 700, PedersenHash.emptyRoot, some 0⟩

def lofView : View := sampleView [(⟨7, 0⟩, ⟨false, false, ⟨2 * COIN, lofScript⟩, 1⟩)]

theorem splitStake_independent :
    Accepts sampleEnv sampleNode (lofBlock [⟨COIN, lofScript⟩, ⟨COIN, lofScript⟩]) lofParent lofView ∧
    ∀ tree n1 n2, OnTree mainParams tree n1 → OnTree mainParams tree n2 → (∃ b ∈ tree, b.hash = 77) →
      SameSettings sampleNode n1 → SameSettings sampleNode n2 →
        (Accepts sampleEnv n1 (lofBlock [⟨COIN, lofScript⟩, ⟨COIN, lofScript⟩]) lofParent lofView ↔
          Accepts sampleEnv n2 (lofBlock [⟨COIN, lofScript⟩, ⟨COIN, lofScript⟩]) lofParent lofView) := by
  have haccepts : Accepts sampleEnv sampleNode (lofBlock [⟨COIN, lofScript⟩, ⟨COIN, lofScript⟩]) lofParent
      lofView := ⟨by decide +kernel, exists_ok_of_toBool (by decide +kernel)⟩
  refine ⟨haccepts,
    (accepts_independent_iff (by decide) (by decide) rfl (by decide) (by decide) haccepts).mpr ?_⟩
  refine ⟨⟨?_, fun hspork => ?_, fun htime => ?_⟩, fun hsuper => ?_⟩
  · intro tx htx _ _ _
    cases htx
    rfl
  · cases hspork
  · exact absurd htime (by decide)
  · exact absurd hsuper (by decide)

/-- The last output of this coinstake differs from the one before. A node that is in initial block download accepts the
    block, and the same node after it does not. -/
theorem freeOutput_splits_network :
    Accepts sampleEnv sampleNode (lofBlock [⟨2 * COIN, lofScript⟩, ⟨0, [OP_1]⟩]) lofParent lofView ∧
      checkBlock sampleEnv { sampleNode with isInitialBlockDownload := false }
          (lofBlock [⟨2 * COIN, lofScript⟩, ⟨0, [OP_1]⟩]) true true true =
        .error (.invalid 0 REJECT_INVALID "bad-p2cs-outs" false "invalid cold-stake output") ∧
      ¬ Accepts sampleEnv { sampleNode with isInitialBlockDownload := false }
          (lofBlock [⟨2 * COIN, lofScript⟩, ⟨0, [OP_1]⟩]) lofParent lofView := by
  have hreject : checkBlock sampleEnv { sampleNode with isInitialBlockDownload := false }
      (lofBlock [⟨2 * COIN, lofScript⟩, ⟨0, [OP_1]⟩]) true true true =
        .error (.invalid 0 REJECT_INVALID "bad-p2cs-outs" false "invalid cold-stake output") := by
    decide +kernel
  refine ⟨⟨by decide +kernel, exists_ok_of_toBool (by decide +kernel)⟩, hreject, ?_⟩
  rintro ⟨hcheck, -⟩
  cases hcheck

end KrovaCoin
