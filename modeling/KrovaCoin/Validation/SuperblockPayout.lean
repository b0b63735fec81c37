import KrovaCoin.Validation.SyncState

/-!
# The staking rewards payout of a block (`consensus/superblock.cpp`, `validation.cpp`)

`CheckSuperblockPayoutTx` knows the pool by its script, and takes what is there to pay from the coin that
the transaction spends.

Principal results: `payout_from_pool_iff`, `payout_exists_iff`.
-/

namespace KrovaCoin

open Lib Superblock

def poolScript (p : Params) : CScript := getEffectiveScriptPubKey p stakingRewardsPool

/-- The cycle before the height has stakers, and the schedule an amount for them. -/
structure PayoutDue (p : Params) (node : NodeState) (nHeight : Nat) (payout : Int) : Prop where
  superblock : isSuperblockHeight p nHeight = true
  height : nHeight < 2147483648
  stakers : cycleHasStakers p node.chainActive nHeight = true
  scheduled : getSuperblockPayout p nHeight = .ok payout
  positive : 0 < payout

/-- The values of coins are amounts, and the null outpoint has no coin. -/
structure View.CoinsInOrder (p : Params) (v : View) : Prop where
  value : ∀ o c, v.coin o = some c → 0 ≤ c.out.nValue ∧ c.out.nValue ≤ p.nMaxMoneyOut
  notNull : ∀ o c, v.coin o = some c → o.isNull = false

variable {env : Env} {node : NodeState} {nHeight : Nat} {payout : Int} {v : View}

variable {p : Params}

theorem PayoutDue.tally_ne (h : PayoutDue p node nHeight payout) :
    (tallyBefore p node.chainActive nHeight).entries ≠ [] := by
  intro hnil
  have hstakers := h.stakers
  rw [cycleHasStakers, hnil] at hstakers
  cases hstakers

theorem PayoutDue.total_le (h : PayoutDue p node nHeight payout) :
    totalOf (tallyBefore p node.chainActive nHeight).entries ≤ p.nBudgetCycleBlocks ∧
      totalOf (tallyBefore p node.chainActive nHeight).entries ≤ 2147483647 := by
  obtain ⟨-, -, -, hcycle⟩ := isSuperblockHeight_ok h.superblock
  obtain ⟨hle, hle'⟩ := totalOf_tallyBefore_le node.chainActive hcycle.le (Int.natCast_nonneg nHeight)
  have := h.height
  exact ⟨hle, by omega⟩

theorem PayoutDue.payout_ge (h : PayoutDue p node nHeight payout) : 1440 * COIN ≤ payout := by
  have hheight := h.height
  obtain ⟨payout', hpayout, -, -, hge⟩ := getSuperblockPayout_eq (by omega) h.superblock
  rw [h.scheduled, Except.ok.injEq] at hpayout
  subst hpayout
  exact hge h.positive

theorem View.CoinsInOrder.fetched (h : v.CoinsInOrder p) (os : List COutPoint) :
    (os.foldl View.fetch v).CoinsInOrder p := by
  constructor
  · rw [View.coin_foldl_fetch]
    exact h.value
  · rw [View.coin_foldl_fetch]
    exact h.notNull

variable {tx : CTransaction} {c : Coin}

/-- What is checked of a transaction with one input, once the input is known to be a coin with the script of the
    pool. -/
theorem checkSuperblockPayoutTx_coin {txin : CTxIn}
    (hne : (tallyBefore env.params node.chainActive nHeight).entries ≠ [])
    (htotal : totalOf (tallyBefore env.params node.chainActive nHeight).entries ≤ 2147483647)
    (hscheduled : getSuperblockPayout env.params nHeight = .ok payout) (hpos : 0 < payout) (hvin : tx.vin = [txin])
    (hcoin : v.coin txin.prevout = some c) (hscript : c.out.scriptPubKey = poolScript env.params)
    (hvalue : 0 ≤ c.out.nValue ∧ c.out.nValue ≤ 9223372036854775807) :
    checkSuperblockPayoutTx env node tx nHeight v = .ok true ↔
      0 < c.out.nValue ∧ tx.vout = payoutOutputs (tallyBefore env.params node.chainActive nHeight) payout
        c.out.nValue (poolScript env.params) := by
  unfold checkSuperblockPayoutTx
  rw [hvin]
  dsimp only
  rw [View.accessCoin_of_coin hcoin, if_neg (by simp [View.coin_isSpent hcoin]),
    if_neg (show ¬ c.out.scriptPubKey ≠ getEffectiveScriptPubKey _ _ from not_not.mpr hscript),
    buildSuperblockPayoutOutputs_eq hne hscheduled hpos hvalue htotal, hscript]
  simp only [faulting, ok_bind]
  split
  · rename_i hnone
    split at hnone
    · rename_i hzero
      simp [hzero, pure_eq_ok]
    · cases hnone
  · rename_i expected hsome
    split at hsome
    · cases hsome
    · cases hsome
      rw [pure_eq_ok, beq_iff_eq]
      exact (and_iff_right (by omega)).symm

/-- **The transactions that are taken for the payout**: those that spend a coin with the script of the pool
    and have the outputs that follow from the value of that coin. -/
theorem checkSuperblockPayoutTx_iff (hdue : PayoutDue env.params node nHeight payout)
    (hmax : env.params.nMaxMoneyOut < 9223372036854775808) (hcoins : v.CoinsInOrder env.params) :
    checkSuperblockPayoutTx env node tx nHeight v = .ok true ↔
      ∃ txin c, tx.vin = [txin] ∧ v.coin txin.prevout = some c ∧ c.out.scriptPubKey = poolScript env.params ∧
        0 < c.out.nValue ∧ tx.vout = payoutOutputs (tallyBefore env.params node.chainActive nHeight) payout c.out.nValue
            (poolScript env.params) := by
  have hcheck : ∀ {txin c}, tx.vin = [txin] → v.coin txin.prevout = some c →
      c.out.scriptPubKey = poolScript env.params → (checkSuperblockPayoutTx env node tx nHeight v = .ok true ↔
        0 < c.out.nValue ∧ tx.vout = payoutOutputs (tallyBefore env.params node.chainActive nHeight) payout
          c.out.nValue (poolScript env.params)) := by
    intro txin c hvin hcoin hscript
    have hvalue := hcoins.value _ _ hcoin
    exact checkSuperblockPayoutTx_coin hdue.tally_ne hdue.total_le.2 hdue.scheduled hdue.positive hvin hcoin hscript
      ⟨hvalue.1, by omega⟩
  constructor
  · intro h
    obtain ⟨txin, hvin⟩ : ∃ txin, tx.vin = [txin] := by
      unfold checkSuperblockPayoutTx at h
      split at h
      · rename_i txin hvin
        exact ⟨txin, hvin⟩
      · cases h
    have h' := h
    unfold checkSuperblockPayoutTx at h'
    rw [hvin] at h'
    dsimp only at h'
    split at h'
    · cases h'
    · rename_i hspent
      split at h'
      · cases h'
      · rename_i hscript
        have hcoin : v.coin txin.prevout = some (v.accessCoin txin.prevout) := by
          rw [← v.accessCoin_live, Coin.live_of_not_isSpent (by simpa using hspent)]
        obtain ⟨hpos, hvout⟩ := (hcheck hvin hcoin (not_not.mp hscript)).mp h
        exact ⟨txin, _, hvin, hcoin, not_not.mp hscript, hpos, hvout⟩
  · rintro ⟨txin, c, hvin, hcoin, hscript, hpos, hvout⟩
    exact (hcheck hvin hcoin hscript).mpr ⟨hpos, hvout⟩

/-! ## The pool's coin -/

/-- No other coin that is worth something has the script of the pool. -/
def OnlyPoolCoin (p : Params) (v : View) (o : COutPoint) : Prop :=
  ∀ o' c', v.coin o' = some c' → c'.out.scriptPubKey = poolScript p → 0 < c'.out.nValue → o' = o

/-- The transaction spends the pool's coin, and pays to every staker the share of the scheduled payout. -/
structure PaysFromPool (p : Params) (node : NodeState) (nHeight : Nat) (payout : Int) (o : COutPoint)
    (tx : CTransaction) : Prop where
  spends : tx.vin.map CTxIn.prevout = [o]
  pays : ∀ e ∈ (tallyBefore p node.chainActive nHeight).entries,
    ⟨e.2 * payout / totalOf (tallyBefore p node.chainActive nHeight).entries, e.1⟩ ∈ tx.vout

theorem PayoutDue.share_pos (h : PayoutDue p node nHeight payout) (hcycle : p.nBudgetCycleBlocks = 1440)
    {e : CScript × Int} (he : e ∈ (tallyBefore p node.chainActive nHeight).entries) :
    0 < shareOf payout (totalOf (tallyBefore p node.chainActive nHeight).entries) e := by
  have hT := StakerTally.total_pos h.tally_ne
  have hpos := (tallyBefore p node.chainActive nHeight).positive e he
  have hle := h.total_le.1
  have hge : 144000000000 ≤ payout := h.payout_ge
  have hmul : payout ≤ e.2 * payout := le_mul_of_one_le_left (by omega) hpos
  exact (Int.le_ediv_iff_mul_le hT).mpr (by omega)

variable {o : COutPoint}

/-- A payout from the pool's coin, if that covers what is scheduled, is the payout as it is meant. -/
theorem paysFromPool_of_outputs (hdue : PayoutDue env.params node nHeight payout)
    (hcycle : env.params.nBudgetCycleBlocks = 1440) (hcovers : payout ≤ c.out.nValue) {txin : CTxIn}
    (hvin : tx.vin = [txin]) (hprevout : txin.prevout = o)
    (hvout : tx.vout = payoutOutputs (tallyBefore env.params node.chainActive nHeight) payout c.out.nValue
      (poolScript env.params)) : PaysFromPool env.params node nHeight payout o tx := by
  have hmin : min payout c.out.nValue = payout := Int.min_eq_left hcovers
  constructor
  · rw [hvin, List.map_singleton, hprevout]
  · intro e he
    have hshare := hdue.share_pos hcycle he
    have hmem := @share_mem_payoutOutputs _ payout c.out.nValue (poolScript env.params) e he
      (by rw [hmin]; exact hshare)
    rw [hmin, ← hvout] at hmem
    exact hmem

/-- A transaction without data that spends a coin. -/
def spendTo (o : COutPoint) (vout : List CTxOut) : CTransaction := ⟨0, 1, 0, [⟨o, [], 0⟩], vout, 0, none, none⟩

/-- **The payout is made from the pool's coin exactly if no other coin has its script.** Where something is to be paid,
    and a coin with the script of the pool covers it: all transactions that are taken for the payout spend that coin and
    pay the scheduled shares if and only if it is the only one, and then every block that `ConnectBlock` accepts has
    such a transaction. -/
theorem payout_from_pool_iff {o : COutPoint} {c : Coin} (hmain : env.params = mainParams)
    (hdue : PayoutDue env.params node nHeight payout) (hcoins : v.CoinsInOrder env.params)
    (hpool : v.coin o = some c) (hcovers : payout ≤ c.out.nValue) :
    ((∀ tx, checkSuperblockPayoutTx env node tx nHeight v = .ok true →
        PaysFromPool env.params node nHeight payout o tx) ↔ OnlyPoolCoin env.params v o) ∧
    (OnlyPoolCoin env.params v o → ∀ block pprev r, pprev.nHeight + 1 = nHeight →
      block.hash ≠ env.params.hashGenesisBlock → connectBlock env node block (some pprev) v false = .ok r →
        ∃ tx ∈ block.vtx, PaysFromPool env.params node nHeight payout o tx) := by
  have hmax : 0 ≤ env.params.nMaxMoneyOut ∧ env.params.nMaxMoneyOut < 9223372036854775808 := by
    rw [hmain]
    decide
  have hcycle : env.params.nBudgetCycleBlocks = 1440 := by
    rw [hmain]
    rfl
  have honly : OnlyPoolCoin env.params v o → ∀ (os : List COutPoint) tx,
      checkSuperblockPayoutTx env node tx nHeight (os.foldl View.fetch v) = .ok true →
        PaysFromPool env.params node nHeight payout o tx := by
    intro honly os tx htx
    obtain ⟨txin, c', hvin, hcoin, hscript, hpos, hvout⟩ :=
      (checkSuperblockPayoutTx_iff hdue hmax.2 (hcoins.fetched os)).mp htx
    rw [View.coin_foldl_fetch] at hcoin
    have hprevout := honly _ _ hcoin hscript hpos
    rw [hprevout, hpool, Option.some.injEq] at hcoin
    subst hcoin
    exact paysFromPool_of_outputs hdue hcycle hcovers hvin hprevout hvout
  refine ⟨⟨fun hall o' c' hcoin hscript hpos => ?_, fun h => honly h []⟩, ?_⟩
  · have hpays := hall (spendTo o' (payoutOutputs (tallyBefore env.params node.chainActive nHeight) payout
        c'.out.nValue (poolScript env.params)))
      ((checkSuperblockPayoutTx_iff hdue hmax.2 hcoins).mpr ⟨_, c', rfl, hcoin, hscript, hpos, rfl⟩)
    exact List.singleton_inj.mp hpays.spends
  · intro h block pprev r hheight hgenesis hconnect
    obtain ⟨pindexPrev, tree, v0, s, hpprev, hconnected⟩ := connectBlock_ok hmax hgenesis hconnect
    cases hpprev
    subst hheight
    obtain ⟨tx, htx, os, hfound⟩ := checkSuperblock_found hdue.superblock hdue.scheduled hdue.positive hdue.stakers
      hconnected.superblock
    exact ⟨tx, htx, honly h os tx hfound⟩

/-! ## A payout from another coin -/

/-- A node with a block that a delegate has staked at height 2040. -/
def payoutNode : NodeState :=
  { sampleNode with
    chainActive := fun i => if i = 2040 then some (lofBlock [⟨COIN, lofScript⟩, ⟨COIN, lofScript⟩]) else none }

def payoutParent : CBlockIndex := ⟨77, 2040, PedersenHash.emptyRoot, some 0⟩

/-- The coin of the delegation, and the given coins with the script of the pool. -/
def payoutView (pools : List (COutPoint × Int)) : View :=
  sampleView ((⟨7, 0⟩, ⟨false, false, ⟨2 * COIN, lofScript⟩, 1⟩) ::
    pools.map fun pool => (pool.1, ⟨false, false, ⟨pool.2, poolScript mainParams⟩, 1⟩))

/-- A staked block of height 2041 with the transactions after the coinstake. -/
def payoutBlock (txs : List CTransaction) : CBlock :=
  ⟨5, 8, 77, 1, 1785990000, 0x1e0ffff0, 0, PedersenHash.emptyRoot,
    stakeCoinbase :: lofStake [⟨COIN, lofScript⟩, ⟨COIN, lofScript⟩] :: txs, sampleSig 1⟩

theorem payoutNode_due : PayoutDue sampleEnv.params payoutNode 2041 690410958904110 :=
  ⟨by decide, by decide, by decide +kernel, by decide, by decide⟩

theorem View.mem_entries_of_coin {v : View} (hnew : v.top = .new) (h : v.coin o = some c) :
    ∃ e ∈ v.base.coins.entries, e.1 = o ∧ e.2 = c := by
  have hbase : vis v.base [] o = some c := by
    rw [← h, View.vis_top, hnew]
    rfl
  obtain ⟨c', hget, hlive⟩ := Option.bind_eq_some_iff.mp hbase
  exact ⟨⟨o, c'⟩, AList.mem_lookup_iff.mp hget, rfl, (Coin.live_eq_some.mp hlive).1⟩

theorem payoutView_coinsInOrder {pools : List (COutPoint × Int)}
    (h : ∀ e ∈ (payoutView pools).base.coins.entries, (0 ≤ e.2.out.nValue ∧ e.2.out.nValue ≤ mainParams.nMaxMoneyOut) ∧
      e.1.isNull = false) : (payoutView pools).CoinsInOrder sampleEnv.params := by
  constructor
  · intro o c hcoin
    obtain ⟨e, he, rfl, rfl⟩ := View.mem_entries_of_coin rfl hcoin
    exact (h e he).1
  · intro o c hcoin
    obtain ⟨e, he, rfl, rfl⟩ := View.mem_entries_of_coin rfl hcoin
    exact (h e he).2

theorem onlyPool_payout : PayoutDue sampleEnv.params payoutNode 2041 690410958904110 ∧ ∀ tx,
    checkSuperblockPayoutTx sampleEnv payoutNode tx 2041 (payoutView [(⟨9, 0⟩, POOL_TOTAL)]) = .ok true →
      PaysFromPool sampleEnv.params payoutNode 2041 690410958904110 ⟨9, 0⟩ tx := by
  have hcoins := @payoutView_coinsInOrder [(⟨9, 0⟩, POOL_TOTAL)] (by decide +kernel)
  have hpool : (payoutView [(⟨9, 0⟩, POOL_TOTAL)]).coin ⟨9, 0⟩ =
      some ⟨false, false, ⟨POOL_TOTAL, poolScript mainParams⟩, 1⟩ := by decide +kernel
  refine ⟨payoutNode_due, (payout_from_pool_iff rfl payoutNode_due hcoins hpool (by decide)).1.mpr ?_⟩
  intro o c hcoin hscript _
  obtain ⟨e, he, rfl, rfl⟩ := View.mem_entries_of_coin rfl hcoin
  exact (by decide +kernel : ∀ e ∈ (payoutView [(⟨9, 0⟩, POOL_TOTAL)]).base.coins.entries,
    e.2.out.scriptPubKey = poolScript mainParams → e.1 = ⟨9, 0⟩) e he hscript

/-- A transaction that pays one coin to the staker. -/
def smallPayout : CTransaction := ⟨3, 1, 0, [⟨⟨8, 0⟩, [], 0⟩], [⟨COIN, lofScript⟩], 0, none, none⟩

/-- **One coin instead of the scheduled payout.** The pool's coin is unspent and covers what is scheduled, and
    `ConnectBlock` accepts a block that pays one coin from an output to the pool's script. -/
theorem smallPayout_accepted : (∃ r, connectBlock sampleEnv payoutNode (payoutBlock [smallPayout]) (some payoutParent)
      (payoutView [(⟨8, 0⟩, COIN), (⟨9, 0⟩, POOL_TOTAL)]) false = .ok r) ∧
    PayoutDue sampleEnv.params payoutNode 2041 690410958904110 ∧
    (payoutView [(⟨8, 0⟩, COIN), (⟨9, 0⟩, POOL_TOTAL)]).coin ⟨9, 0⟩ =
      some ⟨false, false, ⟨POOL_TOTAL, poolScript mainParams⟩, 1⟩ ∧ 690410958904110 ≤ POOL_TOTAL ∧
    ∀ tx ∈ (payoutBlock [smallPayout]).vtx, ⟨9, 0⟩ ∉ tx.vin.map CTxIn.prevout := by
  refine ⟨exists_ok_of_toBool (by decide +kernel), payoutNode_due, by decide +kernel, by decide, by decide⟩

/-! ## Scripts of stakers -/

variable {script : CScript}

theorem matchPayToPubkey_short {pubkey : List UInt8} (h : matchPayToPubkey script = some pubkey) :
    script.length ≤ 67 ∧ script.isZerocoinMint = false := by
  unfold matchPayToPubkey at h
  dsimp only at h
  split at h
  · rename_i hmatch
    split at hmatch
    · rename_i hsize
      obtain ⟨hlen, hhead, -⟩ := hsize
      exact ⟨hlen.le, by rw [CScript.isZerocoinMint, CScript.startsWithOpcode, hhead]; rfl⟩
    · cases hmatch
  · split at h
    · rename_i hmatch
      split at hmatch
      · rename_i hsize
        obtain ⟨hlen, hhead, -⟩ := hsize
        refine ⟨?_, by rw [CScript.isZerocoinMint, CScript.startsWithOpcode, hhead]; rfl⟩
        rw [hlen]
        decide
      · cases hmatch
    · cases h

theorem notMint_of_dup (h : script[0]? = some OP_DUP) : script.isZerocoinMint = false := by
  rw [CScript.isZerocoinMint, CScript.startsWithOpcode, List.head?_eq_getElem?, h]
  rfl

theorem solver_stakeable {whichType : TxnOutType} {vSolutions : List (List UInt8)}
    (h : solver script = some (whichType, vSolutions))
    (htype : whichType = .TX_PUBKEY ∨ whichType = .TX_PUBKEYHASH ∨ whichType = .TX_COLDSTAKE) :
    script.length ≤ 67 ∧ script.isZerocoinMint = false := by
  unfold solver at h
  split at h
  · cases h
  split at h
  · cases h
    simp at htype
  split at h
  · cases h
    simp at htype
  split at h
  · rename_i hpubkey
    exact matchPayToPubkey_short hpubkey
  split at h
  · rename_i hkeyhash
    unfold matchPayToPubkeyHash at hkeyhash
    split at hkeyhash
    · rename_i hp2pkh
      simp only [CScript.isPayToPublicKeyHash, Bool.and_eq_true, beq_iff_eq] at hp2pkh
      exact ⟨by omega, notMint_of_dup hp2pkh.1.1.1.1.2⟩
    · cases hkeyhash
  split at h
  · cases h
    simp at htype
  split at h
  · rename_i hcold
    unfold matchPayToColdStaking at hcold
    split at hcold
    · rename_i hp2cs
      simp only [CScript.isPayToColdStaking, Bool.and_eq_true, beq_iff_eq] at hp2cs
      exact ⟨by omega, notMint_of_dup hp2cs.1.1.1.1.1.1.1.1.1.1.2⟩
    · cases hcold
  split at h
  · cases h
    simp at htype
  · cases h

theorem stakerOf_short {c : Crypto} {block : CBlock} (hsig : checkBlockSignature c block = true)
    (h : stakerOf block = some script) : script.length ≤ 67 ∧ script.isZerocoinMint = false := by
  unfold stakerOf at h
  split at h
  · rename_i hpos
    obtain ⟨key, hkey, hvalid, -⟩ := checkBlockSignature_ok hpos hsig
    split at h
    · rename_i cb tx txs hvtx
      split at h
      · rename_i out0 out1 outs hvout
        cases h
        unfold blockSigningKey at hkey
        rw [hvtx] at hkey
        dsimp only at hkey
        rw [hvout] at hkey
        split at hkey
        · rename_i hcons
          cases hcons
          split at hkey
          · cases hkey
          · rename_i hsolver
            exact solver_stakeable hsolver (.inl rfl)
          · rename_i hsolver
            exact solver_stakeable hsolver (.inr (.inl rfl))
          · rename_i hsolver
            exact solver_stakeable hsolver (.inr (.inr rfl))
          · cases hkey
            cases hvalid
        · cases hkey
      · cases h
    · cases h
  · cases h

/-! ## A payout that passes `CheckTransaction` -/

/-- A transaction that spends a coin and has a shielded output, so that the limit for shielded transactions
    applies to its size. -/
def shieldedSpendTo (o : COutPoint) (vout : List CTxOut) : CTransaction :=
  ⟨0, 3, 0, [⟨o, [], 0⟩], vout, 0,
    some ⟨0, [], [⟨0, 0, 0, .replicate 580 0, .replicate 80 0, .replicate 192 0⟩], .replicate 64 0⟩, none⟩

theorem sum_outSizes_le {n : Nat} : ∀ {vout : List CTxOut}, (∀ out ∈ vout, out.scriptPubKey.length ≤ n) →
    (vout.map fun out => 8 + bytesSize out.scriptPubKey).sum ≤ vout.length * (17 + n) := by
  intro vout
  induction vout with
  | nil => simp
  | cons out vout ih =>
    intro h
    have hrest := ih fun o ho => h o (List.mem_cons_of_mem _ ho)
    have hout := h out List.mem_cons_self
    have hlen : compactSizeLen out.scriptPubKey.length ≤ 9 := by
      unfold compactSizeLen
      split_ifs <;> omega
    rw [List.map_cons, List.sum_cons, List.length_cons, Nat.succ_mul]
    unfold bytesSize at hrest ⊢
    omega

variable {vout : List CTxOut}

theorem shieldedSpendTo_size (hlen : vout.length ≤ 1441) (hshort : ∀ out ∈ vout, out.scriptPubKey.length ≤ 67) :
    (shieldedSpendTo o vout).getTotalSize ≤ 400000 := by
  have hsum := sum_outSizes_le hshort
  have hcount : compactSizeLen vout.length ≤ 9 := by
    unfold compactSizeLen
    split_ifs <;> omega
  have hsize : (shieldedSpendTo o vout).getTotalSize =
      1073 + (compactSizeLen vout.length + (vout.map fun out => 8 + bytesSize out.scriptPubKey).sum) := by
    show 4 + 42 + vectorSize (vout.map fun out => 8 + bytesSize out.scriptPubKey) + 4 + 1023 = _
    rw [vectorSize, List.length_map]
    omega
  omega

theorem isCoinStake_of_pos (h : ∀ out ∈ tx.vout, 0 < out.nValue) : tx.isCoinStake = false := by
  unfold CTransaction.isCoinStake
  split
  · rename_i txin vin out out' vout hvin hvout
    have hempty : out.isEmpty = false := by
      simp [CTxOut.isEmpty, (h out (by simp [hvout])).ne']
    rw [hempty, Bool.and_false]
  · rfl

theorem checkTransaction_shieldedSpendTo {cold : Bool}
    (hmax : 0 ≤ p.nMaxMoneyOut ∧ p.nMaxMoneyOut < 9223372036854775808) (ho : o.isNull = false)
    (hlen : vout.length ≤ 1441)
    (hshort : ∀ out ∈ vout, out.scriptPubKey.length ≤ 67 ∧ out.scriptPubKey.isZerocoinMint = false)
    (hout : ∀ out ∈ vout, 0 < out.nValue ∧ (out.scriptPubKey.isPayToColdStaking = true →
      cold = true ∧ MIN_COLDSTAKING_AMOUNT ≤ out.nValue)) (hsum : sumValues vout ≤ p.nMaxMoneyOut) :
    checkTransaction p (shieldedSpendTo o vout) cold = .ok () := by
  have hcb : (shieldedSpendTo o vout).isCoinBase = false := by
    simp [CTransaction.isCoinBase, shieldedSpendTo, ho]
  have hcs : (shieldedSpendTo o vout).isCoinStake = false := isCoinStake_of_pos fun out hmem => (hout out hmem).1
  have hmint : (shieldedSpendTo o vout).hasZerocoinMintOutputs = false := by
    simp only [CTransaction.hasZerocoinMintOutputs, List.any_eq_false]
    intro out hmem
    simpa [CTxOut.isZerocoinMint] using (hshort out hmem).2
  have hspend : (shieldedSpendTo o vout).hasZerocoinSpendInputs = false := by
    simp [CTransaction.hasZerocoinSpendInputs, shieldedSpendTo, CTxIn.isZerocoinSpend, CTxIn.isZerocoinPublicSpend,
      CScript.isZerocoinSpend, CScript.isZerocoinPublicSpend, CScript.startsWithOpcode]
  have hdata : (shieldedSpendTo o vout).hasSaplingData = true := rfl
  have hsapling : saplingCheckTransaction p (shieldedSpendTo o vout) = .ok 0 := by
    simp only [saplingCheckTransaction, hdata, hcs, hcb, hspend, hmint, bind_eq_ok, rejectIf_eq_ok, exists_and_left,
      exists_const, if_true]
    refine ⟨rfl, rfl, ?_⟩
    simp only [shieldedSpendTo, saplingCheckWithoutProof, bind_eq_ok, rejectIf_eq_ok, exists_and_left, exists_const,
      pure_eq_ok]
    refine ⟨rfl, ?_, rfl, rfl, rfl, rfl⟩
    rw [decide_eq_false_iff_not]
    omega
  have houts := @checkTxOuts_of (shieldedSpendTo o vout) p cold hmax.2 vout 0 (Int.le_refl 0) hout (by omega)
  simp only [checkTransaction, bind_eq_ok, rejectIf_eq_ok, exists_and_left, exists_const]
  refine ⟨rfl, ?_, rfl, ?_, 0, hsapling, _, houts, ?_, ?_⟩
  · show (vout.isEmpty && false && _) = false
    rw [Bool.and_false, Bool.false_and]
  · have hsize := @shieldedSpendTo_size o vout hlen fun out hmem => (hshort out hmem).1
    rw [decide_eq_false_iff_not]
    exact not_lt.mpr hsize
  · show (!decide [o].Nodup) = false
    simp
  · rw [checkTxIns, hcb, if_neg Bool.false_ne_true, rejectIf_eq_ok]
    simp [shieldedSpendTo, ho]

/-! ## Is there a payout? -/

/-- The blocks of the active chain have passed `CheckBlock`. -/
def ActiveChecked (env : Env) (node : NodeState) : Prop :=
  ∀ i block, node.chainActive i = some block → ∃ node', checkBlock env node' block true true true = .ok ()

/-- A coin from which the stakers can be paid: it has the script of the pool, is worth something, and the
    share of a delegation, if there is one, is enough for a cold-staking output. -/
structure Payable (p : Params) (t : StakerTally) (payout : Int) (cold : Bool) (c : Coin) : Prop where
  script : c.out.scriptPubKey = poolScript p
  positive : 0 < c.out.nValue
  delegations : ∀ e ∈ t.entries, e.1.isPayToColdStaking = true →
    0 < shareOf (min payout c.out.nValue) (totalOf t.entries) e →
      cold = true ∧ MIN_COLDSTAKING_AMOUNT ≤ shareOf (min payout c.out.nValue) (totalOf t.entries) e

theorem payoutOutputs_short (hmain : env.params = mainParams) (hactive : ActiveChecked env node) {value : Int}
    {out : CTxOut}
    (h : out ∈ payoutOutputs (tallyBefore env.params node.chainActive nHeight) payout value (poolScript env.params)) :
    out.scriptPubKey.length ≤ 67 ∧ out.scriptPubKey.isZerocoinMint = false := by
  rcases (mem_payoutOutputs h).2 with ⟨e, he, rfl⟩ | hscript
  · obtain ⟨i, block, hblock, hstaker⟩ := mem_tallyBefore he
    obtain ⟨node', hcheck⟩ := hactive i block hblock
    exact stakerOf_short (checkBlock_signature hcheck) hstaker
  · rw [hscript, hmain]
    decide

/-- **There is a payout exactly if a payable coin is left.** Where something is to be paid on the main network, some
    transaction passes `CheckTransaction` and is taken for the payout if and only if the view has a coin with the script
    of the pool that is worth something and whose shares are not too small for the delegations among the stakers. -/
theorem payout_exists_iff (hmain : env.params = mainParams) (hdue : PayoutDue env.params node nHeight payout)
    (hcoins : v.CoinsInOrder env.params) (hactive : ActiveChecked env node) (cold : Bool) :
    (∃ tx, checkTransaction env.params tx cold = .ok () ∧ checkSuperblockPayoutTx env node tx nHeight v = .ok true) ↔
      ∃ o c, v.coin o = some c ∧ Payable env.params (tallyBefore env.params node.chainActive nHeight) payout cold c := by
  have hmax : 0 ≤ env.params.nMaxMoneyOut ∧ env.params.nMaxMoneyOut < 9223372036854775808 := by
    rw [hmain]
    decide
  constructor
  · rintro ⟨tx, htx, hpayout⟩
    obtain ⟨txin, c, -, hcoin, hscript, hpos, hvout⟩ := (checkSuperblockPayoutTx_iff hdue hmax.2 hcoins).mp hpayout
    refine ⟨txin.prevout, c, hcoin, hscript, hpos, fun e he hp2cs hshare => ?_⟩
    apply checkTransaction_coldStaking htx ⟨_, e.1⟩ _ hp2cs
    rw [hvout]
    exact share_mem_payoutOutputs he hshare
  · rintro ⟨o, c, hcoin, hpayable⟩
    obtain ⟨hnonneg, hle⟩ := hcoins.value o c hcoin
    have hlen : (payoutOutputs (tallyBefore env.params node.chainActive nHeight) payout c.out.nValue
        (poolScript env.params)).length ≤ 1441 := by
      have hentries := length_le_totalOf (tallyBefore env.params node.chainActive nHeight).positive
      have htotal := hdue.total_le.1
      have hcycle : env.params.nBudgetCycleBlocks = 1440 := by
        rw [hmain]
        rfl
      refine length_payoutOutputs_le.trans ?_
      omega
    refine ⟨shieldedSpendTo o (payoutOutputs (tallyBefore env.params node.chainActive nHeight) payout c.out.nValue
      (poolScript env.params)), ?_, ?_⟩
    · apply checkTransaction_shieldedSpendTo hmax (hcoins.notNull o c hcoin) hlen
      · intro out hout
        exact payoutOutputs_short hmain hactive hout
      · intro out hout
        obtain ⟨hpos, hwhich⟩ := mem_payoutOutputs hout
        refine ⟨hpos, fun hp2cs => ?_⟩
        rcases hwhich with ⟨e, he, rfl⟩ | hscript
        · exact hpayable.delegations e he hp2cs hpos
        · -- the pool itself is no delegation
          rw [hscript, hmain] at hp2cs
          exact absurd hp2cs (by decide)
      · exact (valueOf_payoutOutputs hdue.tally_ne hdue.positive hnonneg).le.trans hle
    · exact (checkSuperblockPayoutTx_iff hdue hmax.2 hcoins).mpr
        ⟨_, c, rfl, hcoin, hpayable.script, hpayable.positive, rfl⟩

theorem payoutNode_active : ActiveChecked sampleEnv payoutNode := by
  intro i block h
  simp only [payoutNode] at h
  split at h
  · cases h
    exact ⟨sampleNode, by decide +kernel⟩
  · cases h

theorem oneCoin_payable : ∃ tx, checkTransaction sampleEnv.params tx true = .ok () ∧
    checkSuperblockPayoutTx sampleEnv payoutNode tx 2041 (payoutView [(⟨8, 0⟩, COIN)]) = .ok true := by
  have hcoins := @payoutView_coinsInOrder [(⟨8, 0⟩, COIN)] (by decide +kernel)
  apply (payout_exists_iff rfl payoutNode_due hcoins payoutNode_active true).mpr
  exact ⟨⟨8, 0⟩, ⟨false, false, ⟨COIN, poolScript mainParams⟩, 1⟩, by decide +kernel, rfl, by decide,
    by decide +kernel⟩

/-- **Without a coin of the pool no block is valid.** Nothing can be paid at height 2041, and no block is accepted
    there. -/
theorem noPool_stuck : PayoutDue sampleEnv.params payoutNode 2041 690410958904110 ∧
    (¬ ∃ tx cold, checkTransaction sampleEnv.params tx cold = .ok () ∧
      checkSuperblockPayoutTx sampleEnv payoutNode tx 2041 (payoutView []) = .ok true) ∧
    ∀ block r, block.hash ≠ sampleEnv.params.hashGenesisBlock →
      connectBlock sampleEnv payoutNode block (some payoutParent) (payoutView []) false ≠ .ok r := by
  have hnone : ∀ (os : List COutPoint) tx,
      checkSuperblockPayoutTx sampleEnv payoutNode tx 2041 (os.foldl View.fetch (payoutView [])) ≠ .ok true := by
    intro os tx h
    have hcoins := @payoutView_coinsInOrder [] (by decide +kernel)
    obtain ⟨txin, c, -, hcoin, hscript, -⟩ :=
      (checkSuperblockPayoutTx_iff payoutNode_due (by decide) (hcoins.fetched os)).mp h
    rw [View.coin_foldl_fetch] at hcoin
    obtain ⟨e, he, -, rfl⟩ := View.mem_entries_of_coin rfl hcoin
    exact (by decide +kernel : ∀ e ∈ (payoutView []).base.coins.entries,
      e.2.out.scriptPubKey ≠ poolScript mainParams) e he hscript
  refine ⟨payoutNode_due, ?_, ?_⟩
  · rintro ⟨tx, cold, -, h⟩
    exact hnone [] tx h
  · intro block r hgenesis hconnect
    obtain ⟨pindexPrev, tree, v0, s, hpprev, hconnected⟩ := connectBlock_ok (by decide) hgenesis hconnect
    cases hpprev
    obtain ⟨tx, -, os, hfound⟩ := checkSuperblock_found payoutNode_due.superblock payoutNode_due.scheduled
      payoutNode_due.positive payoutNode_due.stakers hconnected.superblock
    exact hnone os tx hfound

end KrovaCoin
