import KrovaCoin.BlockAssembler
import KrovaCoin.Validation.SuperblockPayout

/-!
# From a payout to a block (`validation.cpp`, `blockassembler.cpp`, `consensus/superblock.cpp`)

The outputs of a staking rewards payout add up to the coin it spends, so that it pays no fee, unless value of
the shielded pool is left to it.

Principal result: `payout_relayed_iff`.
-/

namespace KrovaCoin

open Lib Superblock

/-! ## Scripts that cannot be executed -/

theorem execOp_zerocoin {ctx : EvalContext} {op : UInt8} (hop : op = OP_ZEROCOINSPEND ∨ op = OP_ZEROCOINPUBLICSPEND)
    {pc : CScript} {s s' : EvalState} : execOp ctx op true pc s ≠ .ok s' := by
  intro h
  obtain ⟨code, stack, alt, vf, n⟩ := s
  rcases hop with rfl | rfl
  · cases stack with
    | nil => cases h
    | cons x st => cases h
  · cases stack with
    | nil => cases h
    | cons x st => cases h

theorem evalScript_zerocoin {ctx : EvalContext} {stack stack' : List (List UInt8)} (h : evalScript ctx stack = .ok stack') :
    ctx.script.isZerocoinSpend = false ∧ ctx.script.isZerocoinPublicSpend = false := by
  have hop : ∀ op, OP_PUSHDATA4 < op → (op = OP_ZEROCOINSPEND ∨ op = OP_ZEROCOINPUBLICSPEND) →
      ctx.script.startsWithOpcode op = false := by
    intro op hlt hzerocoin
    rw [CScript.startsWithOpcode, Bool.eq_false_iff]
    intro hhead
    unfold evalScript at h
    split at h
    · cases h
    · split at h
      · cases h
      · rename_i s hloop
        cases hscript : ctx.script with
        | nil =>
          rw [hscript] at hhead
          simp at hhead
        | cons b pc =>
          rw [hscript] at hhead hloop
          have hb : b = op := by simpa using hhead
          subst hb
          obtain ⟨n, s1, fuel, hexec, -⟩ := evalLoop_step (getOp_opcode hlt) (Nat.le_refl _) hloop
          rw [evalOp_of_exec hlt rfl] at hexec
          exact execOp_zerocoin hzerocoin hexec
  exact ⟨hop _ (by decide) (.inl rfl), hop _ (by decide) (.inr rfl)⟩

theorem checkInputScript_ok {env : Env} {tx : CTransaction} {v : View} {flags : UInt32} {input : CTxIn × Nat}
    {check : CScriptCheck} (h : checkInputScript env false tx v flags input = .ok check) :
    check = ⟨(v.accessCoin input.1.prevout).out, tx, input.2, flags⟩ ∧ check.run env.crypto = .ok () := by
  simp only [checkInputScript, bind_eq_ok, rejectIf_eq_ok, exists_and_left, exists_const, Bool.false_eq_true,
    if_false] at h
  obtain ⟨-, h⟩ := h
  split at h
  · rename_i hrun
    rw [pure_eq_ok] at h
    subst h
    exact ⟨rfl, hrun⟩
  · simp only [bind_eq_ok] at h
    obtain ⟨_, -, h⟩ := h
    cases h

/-! ## What a payout pays -/

/-- A payout for a height that is valid and signed. -/
structure ValidPayout (env : Env) (node : NodeState) (nHeight : Nat) (v : View) (tx : CTransaction) : Prop where
  checked : ∃ cold, checkTransaction env.params tx cold = .ok ()
  inputs : ∃ flags checks, checkInputs env false tx v nHeight true flags = .ok checks
  payout : checkSuperblockPayoutTx env node tx nHeight v = .ok true

variable {env : Env} {node : NodeState} {nHeight : Nat} {payout : Int} {v : View} {tx : CTransaction}

theorem ValidPayout.noZerocoin (h : ValidPayout env node nHeight v tx) {txin : CTxIn} (hvin : tx.vin = [txin]) :
    tx.hasZerocoinSpendInputs = false := by
  obtain ⟨flags, checks, hinputs⟩ := h.inputs
  simp only [checkInputs, bind_eq_ok, if_true, hvin] at hinputs
  obtain ⟨-, -, hscripts⟩ := hinputs
  simp only [List.zipIdx_cons, List.zipIdx_nil, List.mapM_cons, List.mapM_nil, bind_eq_ok] at hscripts
  obtain ⟨check, hcheck, -⟩ := hscripts
  obtain ⟨rfl, hrun⟩ := checkInputScript_ok hcheck
  obtain ⟨stackCopy, stack, hsig, -⟩ := verifyScript_ok hrun
  obtain ⟨hspend, hpublic⟩ := evalScript_zerocoin hsig
  simp only [hvin, List.getElem?_cons_zero, Option.elim_some] at hspend hpublic
  simp [CTransaction.hasZerocoinSpendInputs, hvin, CTxIn.isZerocoinSpend, CTxIn.isZerocoinPublicSpend, hspend, hpublic]

/-- **What a payout pays is its value balance**, and that is not negative. -/
theorem ValidPayout.fee (hmoney : env.params.nMaxMoneyOut = 7200000000000000000) (hdue : PayoutDue env.params node nHeight payout)
    (hcoins : v.CoinsInOrder env.params) (h : ValidPayout env node nHeight v tx) :
    TxChecked env.params tx ∧ (0 ≤ tx.valueBalance ∧ tx.valueBalance ≤ 7200000000000000000) ∧ (∀ txin ∈ tx.vin, (v.coin txin.prevout).isSome) ∧
      ∃ nValueIn nValueOut, v.getValueIn tx = .ok nValueIn ∧ tx.getValueOut = .ok nValueOut ∧
        nValueIn - nValueOut = tx.valueBalance := by
  have hmax : 0 ≤ env.params.nMaxMoneyOut ∧ env.params.nMaxMoneyOut < 9223372036854775808 := by omega
  obtain ⟨cold, hcold⟩ := h.checked
  have htx := checkTransaction_ok hmax hcold
  obtain ⟨txin, c, hvin, hcoin, hscript, hpos, hvout⟩ := (checkSuperblockPayoutTx_iff hdue hmax.2 hcoins).mp h.payout
  obtain ⟨hnonneg, hle⟩ := hcoins.value _ _ hcoin
  have hcb : tx.isCoinBase = false := by
    simp [CTransaction.isCoinBase, hvin, hcoins.notNull _ _ hcoin]
  have hcs : tx.isCoinStake = false := isCoinStake_of_pos fun out hout => (mem_payoutOutputs (hvout ▸ hout)).1
  have hsum : sumValues tx.vout = c.out.nValue := by
    rw [hvout]
    exact valueOf_payoutOutputs hdue.tally_ne hdue.positive hnonneg
  have hvalueIn : v.valueIn tx.vin = c.out.nValue := by
    rw [hvin, View.valueIn_cons, View.valueIn_nil, View.accessCoin_of_coin hcoin, Int.add_zero]
  obtain ⟨flags, checks, hinputs⟩ := h.inputs
  obtain ⟨⟨⟩, htxInputs, -⟩ := bind_eq_ok.mp hinputs
  obtain ⟨hfee, hlt⟩ := (checkTxInputs_ok hmax htx htxInputs).fee hcs
  have hbalance := fromPool_sub_toPool tx
  have hpool := toPool_nonneg tx
  have hpool' := htx.fromPool_le hmax.1
  refine ⟨htx, ⟨by omega, by omega⟩, by simp [hvin, hcoin], c.out.nValue + tx.fromPool,
    tx.toPool + c.out.nValue, ?_, ?_, by omega⟩
  · have hok : ∃ x, v.getValueIn tx = .ok x := by
      rw [View.getValueIn, if_neg (by simp [hcb]), htx.getShieldedValueIn]
      exact ⟨_, rfl⟩
    obtain ⟨x, hx⟩ := hok
    rw [hx, getValueIn_eq htx hcb (h.noZerocoin hvin) hx, hvalueIn, toInt64_of_inInt64 ⟨by omega, by omega⟩]
  · rw [htx.getValueOut hmax.2, hsum]

/-! ## The fee for relay -/

/-- The fee for a size at a rate for 1000 bytes: the rate itself where the quotient would be zero. -/
def relayFee (rate : Int) (size : Nat) : Int := if rate * size < 1000 then rate else rate * size / 1000

/-- The limits of the rate and of the size of a transaction keep the products in range. -/
theorem getFee_eq_relayFee {rate : Int} (hrate : 0 ≤ rate ∧ rate ≤ 400000 * COIN) {size : Nat} (hsize : size ≤ 400000) :
    getFee rate size = relayFee rate size ∧ rate * size < 18446744073709551616 ∧ 0 ≤ relayFee rate size ∧
      100 * relayFee rate size ≤ 7200000000000000000 := by
  have hprod : rate * size ≤ 40000000000000 * 400000 := by
    have hcoin : (400000 * COIN : Int) = 40000000000000 := rfl
    exact Int.mul_le_mul (by omega) (by omega) (by omega) (by omega)
  have hnonneg : 0 ≤ rate * size := Int.mul_nonneg hrate.1 (by omega)
  have hcoin : (400000 * COIN : Int) = 40000000000000 := rfl
  refine ⟨?_, by omega, ?_, ?_⟩
  · unfold getFee relayFee
    dsimp only
    split <;> split <;> omega
  · unfold relayFee
    split <;> omega
  · unfold relayFee
    split <;> omega

theorem TxChecked.valueBalance_of_transparent {p : Params} (h : TxChecked p tx) (htx : tx.isShieldedTx = false) :
    tx.valueBalance = 0 := by
  by_contra hne
  have hdata := hasSaplingData_of (.inl hne)
  rw [CTransaction.isShieldedTx, (h.sapling hdata).version, hdata] at htx
  cases htx

theorem ValidPayout.size_le (h : ValidPayout env node nHeight v tx) : tx.getTotalSize ≤ 400000 := by
  obtain ⟨cold, hcold⟩ := h.checked
  simp only [checkTransaction, bind_eq_ok, rejectIf_eq_ok, exists_and_left, exists_const, decide_eq_false_iff_not] at hcold
  obtain ⟨-, -, -, hsize, -⟩ := hcold
  simp only [MAX_TX_SIZE_AFTER_SAPLING, MAX_STANDARD_TX_SIZE] at hsize
  split at hsize <;> omega

theorem ValidPayout.feeRule_iff (hmoney : env.params.nMaxMoneyOut = 7200000000000000000) (hdue : PayoutDue env.params node nHeight payout)
    (hcoins : v.CoinsInOrder env.params) (h : ValidPayout env node nHeight v tx) {rate : Int}
    (hrate : 0 ≤ rate ∧ rate ≤ 400000 * COIN) (nFeeDelta : Int) :
    acceptFeeRule env.params rate nFeeDelta true false v tx = .ok () ↔
      100 * relayFee rate tx.getTotalSize ≤ tx.valueBalance := by
  obtain ⟨htx, hbalance, -, nValueIn, nValueOut, hin, hout, hfee⟩ := h.fee hmoney hdue hcoins
  obtain ⟨hgetFee, -, hnonneg, hle⟩ := getFee_eq_relayFee hrate h.size_le
  have hrange : ∀ x, 0 ≤ x → x ≤ 7200000000000000000 → env.params.moneyRange x = true := fun x h0 h1 =>
    (Params.moneyRange_iff _ _).mpr ⟨h0, by omega⟩
  rw [acceptFeeRule_iff hin hout (by rw [hfee]; exact ⟨by omega, by omega⟩), hfee, hgetFee]
  cases hshielded : tx.isShieldedTx with
  | true =>
    have hmin : getMinRelayFee env.params rate nFeeDelta tx tx.getTotalSize = 100 * relayFee rate tx.getTotalSize := by
      rw [getMinRelayFee, if_pos hshielded, getShieldedTxMinFee, hgetFee, DEFAULT_SHIELDEDTXFEE_K,
        toInt64_of_inInt64 ⟨by omega, by omega⟩, hrange _ (by omega) (by omega), if_pos rfl, Int.mul_comm]
    rw [hmin]
    exact ⟨fun hrule => hrule.1, fun hpaid => ⟨hpaid, by omega⟩⟩
  | false =>
    -- without shielded data only a fee of zero is paid
    have hzero := htx.valueBalance_of_transparent hshielded
    have hmin : 0 ≤ getMinRelayFee env.params rate nFeeDelta tx tx.getTotalSize ∧
        getMinRelayFee env.params rate nFeeDelta tx tx.getTotalSize ≤ relayFee rate tx.getTotalSize := by
      rw [getMinRelayFee, if_neg (by simp [hshielded])]
      split
      · exact ⟨Int.le_refl 0, hnonneg⟩
      · rw [getMinRelayFeeOfSize, hgetFee, hrange _ hnonneg (by omega), if_pos rfl]
        exact ⟨hnonneg, Int.le_refl _⟩
    exact ⟨fun hrule => by omega, fun hpaid => ⟨by omega, by omega⟩⟩

/-! ## In the pool -/

/-- A transaction in a consistent pool over a view: the entry has the fee that was computed when it was
    accepted, and was not put back by a negative delta; transactions of the pool have no coins in the view, and
    an entry with ancestors spends an output of one. -/
structure Pooled (v : View) (pool : CTxMemPool) (tx : CTransaction) (e : CTxMemPoolEntry) : Prop where
  sound : pool.Sound
  mem : e ∈ pool.mapTx
  entry : e.tx = tx
  fee : ∀ nValueIn nValueOut, v.getValueIn tx = .ok nValueIn → tx.getValueOut = .ok nValueOut →
    e.nFee = toInt64 (nValueIn - nValueOut)
  delta : 0 ≤ e.feeDelta ∧ InInt64 (e.nFee + e.feeDelta)
  fees : e.withAncestors.nModFeesWithAncestors = ((pool.family e).map CTxMemPoolEntry.getModifiedFee).sum
  unconfirmed : ∀ a ∈ pool.mapTx, ∀ o, v.coin o ≠ none → o.hash ≠ a.tx.hash
  parent : pool.ancestors e ≠ [] → ∃ txin ∈ tx.vin, ∃ a ∈ pool.mapTx, txin.prevout.hash = a.tx.hash

/-- The transaction, once it is in the pool, is in every template for the height that has room for it; the
    shielded transactions of the pool have to fit into one block. -/
def ReachesTemplate (rate : Int) (nHeight : Nat) (v : View) (tx : CTransaction) : Prop :=
  ∀ (ctx : AssemblerContext) pool e, ctx.minRelayTxFee = rate → ctx.nHeight = nHeight →
    ctx.fSaplingMaintenance = false → shieldedSize pool.mapTx ≤ MAX_BLOCK_SHIELDED_TXES_SIZE →
    isFinalTx ctx.adjustedTime tx nHeight 0 = true → Pooled v pool tx e →
      ∃ a, addPackageTxs ctx pool = .ok (some a) ∧ Selected ctx e a

theorem Pooled.alone {pool : CTxMemPool} {e : CTxMemPoolEntry} (h : Pooled v pool tx e)
    (hvin : ∀ txin ∈ tx.vin, (v.coin txin.prevout).isSome) : pool.ancestors e = [] := by
  by_contra hne
  obtain ⟨txin, htxin, a, ha, hhash⟩ := h.parent hne
  exact h.unconfirmed a ha txin.prevout (Option.isSome_iff_ne_none.mp (hvin txin htxin)) hhash

/-- **A payout reaches a block through the node's own pipeline exactly if its value balance covers a hundred times the
    fee for relay.** A transparent payout, whose balance is zero, does so only where that fee is zero. -/
theorem payout_relayed_iff (hmoney : env.params.nMaxMoneyOut = 7200000000000000000) (hdue : PayoutDue env.params node nHeight payout)
    (hcoins : v.CoinsInOrder env.params) (h : ValidPayout env node nHeight v tx) {rate : Int}
    (hrate : 0 ≤ rate ∧ rate ≤ 400000 * COIN) (nFeeDelta : Int) :
    (acceptFeeRule env.params rate nFeeDelta true false v tx = .ok () ∧ ReachesTemplate rate nHeight v tx) ↔
      100 * relayFee rate tx.getTotalSize ≤ tx.valueBalance := by
  rw [h.feeRule_iff hmoney hdue hcoins hrate nFeeDelta, and_iff_left_iff_imp]
  intro hpaid ctx pool e hctx hheight hmaintenance hroom hfinal hpooled
  obtain ⟨htx, hbalance, hvin, nValueIn, nValueOut, hin, hout, hfee⟩ := h.fee hmoney hdue hcoins
  obtain ⟨hgetFee, hmax, hnonneg, -⟩ := getFee_eq_relayFee hrate h.size_le
  have halone := hpooled.alone hvin
  have hfamily : pool.family e = [e] := by rw [CTxMemPool.family, halone]
  have hsize : e.withAncestors.nSizeWithAncestors.toNat = tx.getTotalSize := by
    rw [hpooled.sound.size e hpooled.mem, hfamily, ← hpooled.entry]
    simp [CTxMemPoolEntry.getTxSize]
  have hfees : 100 * relayFee rate tx.getTotalSize ≤ e.withAncestors.nModFeesWithAncestors := by
    obtain ⟨hdelta, hrange⟩ := hpooled.delta
    have hnFee : e.nFee = tx.valueBalance := by
      rw [hpooled.fee _ _ hin hout, hfee, toInt64_of_inInt64 ⟨by omega, by omega⟩]
    rw [hpooled.fees, hfamily]
    simp only [List.map_cons, List.map_nil, List.sum_cons, List.sum_nil, CTxMemPoolEntry.getModifiedFee,
      toInt64_of_inInt64 hrange]
    omega
  apply addPackageTxs_includes hpooled.sound hmaintenance hroom
  refine ⟨hpooled.mem, halone, by rw [hpooled.entry, hheight]; exact hfinal, ?_, ?_⟩
  · rw [hctx, hsize, hgetFee]
    omega
  · intro st hst hunpaid
    rw [hctx] at hunpaid
    apply wellBelow_of_unpaid hrate.1 hst _ hunpaid
    · rw [hsize, hgetFee]
      exact hfees
    · rw [hsize]
      exact hmax

/-! ## A payout that is refused -/

/-- Hash functions for which every key is that of the pool. -/
def poolCrypto : Crypto :=
  { copyCrypto with ripemd160 := fun _ => Vector.ofFn fun i => ((poolScript mainParams).drop 3).getD i 0 }

def poolEnv : Env := { sampleEnv with crypto := poolCrypto }

/-- The pool's coin and the coin of the delegation. -/
def poolView : View := payoutView [(⟨9, 0⟩, POOL_TOTAL)]

/-- The payout for height 2041, signed. -/
def payoutTx : CTransaction :=
  ⟨3, 1, 0, [⟨⟨9, 0⟩, pushData (sampleSig 1 ++ [SIGHASH_ALL]) ++ pushData (sampleKey 1), 0xffffffff⟩],
    [⟨690410958904110, lofScript⟩, ⟨POOL_TOTAL - 690410958904110, poolScript mainParams⟩], 0, none, none⟩

theorem payoutTx_valid : ValidPayout poolEnv payoutNode 2041 poolView payoutTx :=
  ⟨⟨true, by decide +kernel⟩, ⟨MANDATORY_SCRIPT_VERIFY_FLAGS, exists_ok_of_toBool (by decide +kernel)⟩,
    by decide +kernel⟩

theorem poolView_coinsInOrder : poolView.CoinsInOrder poolEnv.params := payoutView_coinsInOrder (by decide +kernel)

theorem payoutTx_free : acceptFeeRule poolEnv.params 0 0 true false poolView payoutTx = .ok () ∧
    ReachesTemplate 0 2041 poolView payoutTx := by
  have hdue : PayoutDue poolEnv.params payoutNode 2041 690410958904110 := payoutNode_due
  have hfee : 100 * relayFee 0 payoutTx.getTotalSize ≤ payoutTx.valueBalance := by decide +kernel
  exact (payout_relayed_iff rfl hdue poolView_coinsInOrder payoutTx_valid ⟨Int.le_refl 0, by decide⟩ 0).mpr hfee

def payoutEntry : CTxMemPoolEntry := ⟨payoutTx, 0, 0, 2, 1, ⟨UInt64.ofNat payoutTx.getTotalSize, 0, 2⟩⟩

def payoutPool : CTxMemPool := ⟨[payoutEntry], fun _ => []⟩

def payoutContext : AssemblerContext :=
  ⟨DEFAULT_MIN_RELAY_TX_FEE, 750000, 2041, 1786000000, false, defaultBlockMaxSize_le⟩

theorem payoutPool_sound : payoutPool.Sound where
  nodup := List.nodup_singleton _
  sorted := List.pairwise_singleton _ _
  family_nodup e _ := List.nodup_singleton e
  mem e _ a ha := by cases ha
  trans e _ a ha := by cases ha
  size_ge e he := by
    rw [List.mem_singleton.mp he]
    decide +kernel
  size e he := by
    rw [List.mem_singleton.mp he]
    decide +kernel
  size_lt e he := by
    rw [List.mem_singleton.mp he]
    decide +kernel
  sigOps e he := by
    rw [List.mem_singleton.mp he]
    decide +kernel
  sigOps_lt e he := by
    rw [List.mem_singleton.mp he]
    decide +kernel

theorem payoutPool_pooled : Pooled poolView payoutPool payoutTx payoutEntry where
  sound := payoutPool_sound
  mem := List.mem_singleton_self _
  entry := rfl
  fee nValueIn nValueOut hin hout := by
    have hvalues : poolView.getValueIn payoutTx = .ok POOL_TOTAL ∧ payoutTx.getValueOut = .ok POOL_TOTAL := by
      decide +kernel
    rw [hvalues.1] at hin
    rw [hvalues.2] at hout
    cases hin
    cases hout
    rw [Int.sub_self]
    rfl
  delta := by decide
  fees := by decide +kernel
  unconfirmed a ha o hcoin := by
    rw [List.mem_singleton.mp ha]
    obtain ⟨c, hc⟩ := Option.ne_none_iff_exists'.mp hcoin
    obtain ⟨e, he, rfl, -⟩ := View.mem_entries_of_coin rfl hc
    exact (by decide +kernel : ∀ e ∈ poolView.base.coins.entries, e.1.hash ≠ payoutEntry.tx.hash) e he
  parent hne := absurd rfl hne

/-- **A payout that no node relays or mines.** At the default fee rate the valid payout of height 2041 is refused for
    its fee, and if it were in the pool, the template would stay empty. -/
theorem payoutTx_refused : ValidPayout poolEnv payoutNode 2041 poolView payoutTx ∧
    acceptFeeRule poolEnv.params DEFAULT_MIN_RELAY_TX_FEE 0 true false poolView payoutTx =
      .error (.invalid 0 REJECT_INSUFFICIENTFEE "insufficient fee" false "0 < 1890") ∧
    Pooled poolView payoutPool payoutTx payoutEntry ∧
    addPackageTxs payoutContext payoutPool = .ok (some resetBlock) ∧ ¬ Selected payoutContext payoutEntry resetBlock := by
  refine ⟨payoutTx_valid, by decide +kernel, payoutPool_pooled, by decide +kernel, ?_⟩
  rintro (hin | hfull)
  · cases hin
  · exact absurd hfull (by decide +kernel)

end KrovaCoin
