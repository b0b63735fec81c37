import KrovaCoin.Lib.OverlayWeight
import KrovaCoin.Validation.CoinRuns

/-!
# The assertions of `ConnectBlock`

A failed `assert` aborts the node. In the loop over the transactions there are the assertions that a coin is not spent,
in `CheckTxInputs` and `CheckInputs`, and after it the one that the fees are not negative.

Principal result: `connectBlock_assertions_iff`.
-/

namespace KrovaCoin

open Lib

variable {env : Env} {node : NodeState} {ctx : ConnectContext} {tx : CTransaction} {v : View}
  {keys : Finset COutPoint} {w : Coin → Int}

/-! ## Coins that are asserted to be unspent -/

theorem throwing_ne_assertion {α : Type} (x : Except String α) : throwing x ≠ .error .assertion := by
  cases x <;> simp [throwing]

theorem haveInputs_unspent (hcb : tx.isCoinBase = false) (hzc : tx.hasZerocoinSpendInputs = false)
    (h : v.haveInputs tx = true) : ∀ txin ∈ tx.vin, (v.accessCoin txin.prevout).isSpent = false := by
  intro txin htxin
  simp only [View.haveInputs, hcb, hzc, Bool.false_or, List.all_eq_true] at h
  have hsome := h txin htxin
  rw [View.haveCoin_eq, Option.isSome_iff_exists] at hsome
  obtain ⟨c, hc⟩ := hsome
  rw [View.accessCoin_of_coin hc]
  exact View.coin_isSpent hc

variable {nSpendHeight : Int}

theorem checkTxInputs_ne_assertion (hcb : tx.isCoinBase = false) (hzc : tx.hasZerocoinSpendInputs = false) :
    checkTxInputs env tx v nSpendHeight ≠ .error .assertion := by
  refine bind_ne_error (rejectIf_ne_error (by simp)) fun _ hhave => ?_
  rw [rejectIf_eq_ok, Bool.not_eq_false'] at hhave
  have hunspent := haveInputs_unspent hcb hzc hhave
  refine bind_ne_error (rejectIf_ne_error (by simp)) fun _ _ => ?_
  refine bind_ne_error (foldlM_ne_error fun txin htxin nValueIn => ?_) fun _ _ => ?_
  · simp only [checkTxInput, hunspent txin htxin]
    refine bind_ne_error (by simp [rejectIf]) fun _ _ => ?_
    refine bind_ne_error (rejectIf_ne_error (by simp)) fun _ _ => ?_
    refine bind_ne_error (rejectIf_ne_error (by simp [dos])) fun _ _ h => ?_
    cases h
  · refine bind_ne_error (throwing_ne_assertion _) fun _ _ => ?_
    unfold checkTxFee
    split
    · simp
    · refine bind_ne_error (throwing_ne_assertion _) fun _ _ => ?_
      refine bind_ne_error (rejectIf_ne_error (by simp [dos])) fun _ _ => ?_
      refine bind_ne_error (rejectIf_ne_error (by simp [dos])) fun _ _ => ?_
      exact rejectIf_ne_error (by simp [dos])

theorem checkInputs_ne_assertion {threads fScriptChecks : Bool} {flags : UInt32} (hcb : tx.isCoinBase = false)
    (hzc : tx.hasZerocoinSpendInputs = false) :
    checkInputs env threads tx v nSpendHeight fScriptChecks flags ≠ .error .assertion := by
  refine bind_ne_error (checkTxInputs_ne_assertion hcb hzc) fun _ hins => ?_
  split
  · refine mapM_ne_error fun input hinput => ?_
    have hhave : v.haveInputs tx = true := by
      simp only [checkTxInputs, bind_eq_ok, rejectIf_eq_ok, exists_and_left, exists_const, Bool.not_eq_false'] at hins
      exact hins.1
    have hmem : input.1 ∈ tx.vin := (List.mem_zipIdx' hinput).2 ▸ List.getElem_mem _
    simp only [checkInputScript, haveInputs_unspent hcb hzc hhave input.1 hmem]
    refine bind_ne_error (by simp [rejectIf]) fun _ _ => ?_
    split
    · simp [pure, Except.pure]
    · split
      · simp [pure, Except.pure]
      · refine bind_ne_error (rejectIf_ne_error (by simp)) fun _ _ => ?_
        simp [dos]
  · simp [pure, Except.pure]

variable {nHeight : Nat}

theorem updateCoins_ne_assertion {invalidOut : COutPoint → Bool} (htx : TxChecked env.params tx) :
    updateCoins tx v nHeight invalidOut ≠ .error .assertion := by
  refine bind_ne_error (foldlM_ne_error fun out hout v1 => ?_) fun _ _ h => by cases h
  have hvalue : 0 ≤ out.2.nValue := by
    obtain ⟨⟨o, i⟩, hmem, rfl⟩ := List.mem_map.mp hout
    exact (htx.values o (List.fst_mem_of_mem_zipIdx hmem)).1
  unfold View.addOutput
  split
  · simp
  · apply View.addCoin_ne_assertion
    simp only [Coin.isSpent, CTxOut.isNull, beq_eq_false_iff_ne]
    omega

variable {s : ConnectState} {pprev : CBlockIndex}

/-- **A transaction without zerocoin inputs fails none of the assertions of the loop.** -/
theorem connectTx_ne_assertion (htx : TxChecked env.params tx) (hprev : ctx.pprev = some pprev)
    (hzc : tx.isCoinBase = true ∨ tx.hasZerocoinSpendInputs = false) :
    connectTx env node ctx s tx ≠ .error .assertion := by
  refine bind_ne_error (rejectIf_ne_error (by simp [dos])) fun _ _ => ?_
  refine bind_ne_error (rejectIf_ne_error (by simp [dos])) fun _ _ => ?_
  refine bind_ne_error ?_ fun _ _ => ?_
  · unfold connectAvailable
    split
    · simp
    · refine bind_ne_error (rejectIf_ne_error (by simp [dos])) fun _ _ => ?_
      refine bind_ne_error (rejectIf_ne_error (by simp [dos])) fun _ _ => ?_
      refine bind_ne_error (rejectIf_ne_error (by simp [dos])) fun _ _ => ?_
      simp [pure, Except.pure]
  refine bind_ne_error (throwing_ne_assertion _) fun _ _ => ?_
  refine bind_ne_error ?_ fun _ _ => ?_
  · unfold connectInputs
    split
    · simp
    · rename_i hcb
      rw [Bool.not_eq_true] at hcb
      have hzc : tx.hasZerocoinSpendInputs = false := by simpa [hcb] using hzc
      refine bind_ne_error (throwing_ne_assertion _) fun _ _ => ?_
      refine bind_ne_error (by simp [hprev, getSpendHeight]) fun _ _ => ?_
      refine bind_ne_error (checkInputs_ne_assertion hcb hzc) fun _ _ => ?_
      simp [pure, Except.pure]
  refine bind_ne_error (updateCoins_ne_assertion htx) fun _ _ => ?_
  refine bind_ne_error (throwing_ne_assertion _) fun _ _ => ?_
  simp [pure, Except.pure]

/-! ## A zerocoin input -/

/-- A view without coins. -/
def emptyView : View := ⟨⟨∅, 0, ∅, ∅, none⟩, ⟨0, ∅, 0, ∅, ∅⟩⟩

/-- The variables of the loop at its start, over a view without coins. -/
def emptyConnectState : ConnectState := ⟨emptyView, 0, 0, 0, 0, [], .empty, []⟩

/-- **A transaction with a zerocoin input passes `HaveInputs` without its coins**, and fails the
    assertion right after. -/
theorem connectTx_zerocoin (hmax : 0 ≤ env.params.nMaxMoneyOut ∧ env.params.nMaxMoneyOut < 9223372036854775808)
    (htx : TxChecked env.params tx) (hsigops : getLegacySigOpCount tx ≤ MAX_BLOCK_SIGOPS_CURRENT)
    (hprev : ctx.pprev = some pprev) (hcb : tx.isCoinBase = false) (hzc : tx.hasZerocoinSpendInputs = true) :
    connectTx env node ctx emptyConnectState tx = .error .assertion := by
  have hshielded : tx.hasSaplingData = false := by
    by_contra hdata
    rw [Bool.not_eq_false] at hdata
    rw [(htx.sapling hdata).noZerocoinSpend] at hzc
    cases hzc
  have hnotShielded : tx.isShieldedTx = false := by simp [CTransaction.isShieldedTx, hshielded]
  have hhave : emptyView.haveInputs tx = true := by simp [View.haveInputs, hzc]
  have hreq : emptyView.haveShieldedRequirements env.pedersen tx = true := by
    simp [View.haveShieldedRequirements, hnotShielded]
  have hp2sh : emptyView.getP2SHSigOpCount tx = 0 := by
    unfold View.getP2SHSigOpCount
    rw [if_neg (by simp [hcb]), List.sum_eq_zero_iff]
    intro n hn
    obtain ⟨txin, -, rfl⟩ := List.mem_map.mp hn
    rfl
  have hinputs : ∀ nSpendHeight, checkTxInputs env tx emptyView nSpendHeight = .error .assertion := by
    intro nSpendHeight
    obtain ⟨txin, vin, hvin⟩ : ∃ txin vin, tx.vin = txin :: vin := by
      cases hvin : tx.vin with
      | nil => simp [CTransaction.hasZerocoinSpendInputs, hvin] at hzc
      | cons txin vin => exact ⟨txin, vin, rfl⟩
    have hspent : (emptyView.accessCoin txin.prevout).isSpent = true := by
      rfl
    simp [checkTxInputs, hhave, hreq, hvin, List.foldlM_cons, checkTxInput, hspent, rejectIf]
  obtain ⟨txValueIn, hvalueIn⟩ : ∃ txValueIn, emptyView.getValueIn tx = .ok txValueIn := by
    rw [View.getValueIn, if_neg (by simp [hcb]), htx.getShieldedValueIn, ok_bind]
    exact ⟨_, rfl⟩
  have hsig : ¬ MAX_BLOCK_SIGOPS_CURRENT < getLegacySigOpCount tx := by omega
  have havailable : connectAvailable env emptyView tx (getLegacySigOpCount tx) =
      .ok (getLegacySigOpCount tx) := by
    simp [connectAvailable, hcb, hhave, hreq, hp2sh, rejectIf, hsig, pure, Except.pure]
  simp [connectTx, emptyConnectState, hnotShielded, rejectIf, hsig, havailable, htx.getValueOut hmax.2,
    throwing, connectInputs, hcb, hvalueIn, hprev, getSpendHeight, checkInputs, hinputs]

/-! ## Fees -/

/-- The value a coin can bring to a transaction at the height: nothing while it is immature. -/
def spendableValue (p : Params) (nSpendHeight : Int) (c : Coin) : Int :=
  if (c.fCoinBase || c.fCoinStake) && decide (nSpendHeight - c.nHeight < p.nCoinbaseMaturity) then 0
  else max 0 c.out.nValue

theorem spendableValue_nonneg (p : Params) (nSpendHeight : Int) (c : Coin) : 0 ≤ spendableValue p nSpendHeight c := by
  unfold spendableValue
  split <;> omega

theorem Spendable.value_eq {p : Params} {c : Coin} (h : Spendable p nSpendHeight c) :
    spendableValue p nSpendHeight c = c.out.nValue := by
  have hmature : ((c.fCoinBase || c.fCoinStake) && decide (nSpendHeight - c.nHeight < p.nCoinbaseMaturity)) =
      false := by
    cases hflag : c.fCoinBase || c.fCoinStake with
    | false => rfl
    | true =>
      have := h.mature hflag
      simp only [Bool.true_and, decide_eq_false_iff_not]
      omega
  have hvalue := h.value.1
  rw [spendableValue, hmature, if_neg Bool.false_ne_true]
  omega

theorem inputOps_gain {os : List COutPoint} (f : COutPoint → Coin) (hkeys : ∀ o ∈ os, o ∈ keys) :
    ((inputOps os (os.map f)).map (Op.gain w keys)).sum = -(os.map fun o => w (f o)).sum := by
  induction os with
  | nil => rfl
  | cons o os ih =>
    have hrest := ih fun o' ho' => hkeys o' (List.mem_cons_of_mem _ ho')
    simp only [inputOps, List.map_cons, List.zip_cons_cons, List.sum_cons, Op.gain,
      hkeys o List.mem_cons_self, if_true] at hrest ⊢
    omega

theorem outputOps_gain_le (hw : ∀ c, 0 ≤ w c) (outs : List (COutPoint × CTxOut)) :
    ((outs.flatMap (outputOps tx nHeight)).map (Op.gain w keys)).sum ≤
      (outs.map fun out => w (tx.coinOf nHeight out.2)).sum := by
  induction outs with
  | nil => simp
  | cons out outs ih =>
    have hout := hw (tx.coinOf nHeight out.2)
    have hone : ((outputOps tx nHeight out).map (Op.gain w keys)).sum ≤ w (tx.coinOf nHeight out.2) := by
      unfold outputOps
      split
      · simpa using hout
      · split
        · simp only [List.map_cons, List.map_nil, List.sum_cons, List.sum_nil, Op.gain]
          split <;> omega
        · simpa [Op.gain] using hout
    simp only [List.flatMap_cons, List.map_append, List.sum_append, List.map_cons, List.sum_cons]
    omega

theorem outputs_snd (tx : CTransaction) : tx.outputs.map Prod.snd = tx.vout := by
  simp [CTransaction.outputs, Function.comp_def]

theorem spendableValue_minted {p : Params} {out : CTxOut} (hmaturity : 0 < p.nCoinbaseMaturity)
    (hminted : tx.isCoinBase = true ∨ tx.isCoinStake = true) :
    spendableValue p nHeight (tx.coinOf nHeight out) = 0 := by
  have hflag : (tx.isCoinBase || tx.isCoinStake) = true := by simpa using hminted
  rw [spendableValue, if_pos (by simp [CTransaction.coinOf, hflag, hmaturity])]

/-- The outputs of a transaction add at most their value, and those of a coinbase or coinstake nothing. -/
theorem txOutputs_gain_le (htx : TxChecked env.params tx) (hmaturity : 0 < env.params.nCoinbaseMaturity) :
    ((tx.outputs.flatMap (outputOps tx nHeight)).map (Op.gain (spendableValue env.params nHeight) keys)).sum ≤
        if tx.isCoinBase || tx.isCoinStake then 0 else sumValues tx.vout := by
  refine (outputOps_gain_le (spendableValue_nonneg env.params nHeight) tx.outputs).trans ?_
  have hcomp : (tx.outputs.map fun out => spendableValue env.params nHeight (tx.coinOf nHeight out.2)) =
      tx.vout.map fun out => spendableValue env.params nHeight (tx.coinOf nHeight out) := by
    rw [← outputs_snd tx, List.map_map]
    rfl
  rw [hcomp]
  split
  · rename_i hminted
    rw [List.sum_eq_zero]
    intro x hx
    obtain ⟨out, -, rfl⟩ := List.mem_map.mp hx
    exact spendableValue_minted hmaturity (by simpa using hminted)
  · apply List.sum_le_sum
    intro out hout
    have hvalue := (htx.values out hout).1
    unfold spendableValue
    split
    · exact hvalue
    · simp [CTransaction.coinOf, hvalue]

/-- The value of the inputs of a transaction as `GetValueIn` counts it, without a bound. -/
def View.amountIn (v : View) (tx : CTransaction) : Int := (tx.vin.map v.inputValue).sum + tx.fromPool

theorem getValueIn_toInt64 (htx : TxChecked env.params tx) (hcb : tx.isCoinBase = false) :
    v.getValueIn tx = .ok (toInt64 (v.amountIn tx)) := by
  have hfold : tx.vin.foldl (fun nResult txin => toInt64 (nResult + v.inputValue txin)) 0 =
      toInt64 (tx.vin.map v.inputValue).sum := by
    rw [← List.foldl_map (f := v.inputValue) (g := fun nResult x => toInt64 (nResult + x)),
      foldl_toInt64 _ (by decide), Int.zero_add]
  rw [View.getValueIn, if_neg (by simp [hcb]), htx.getShieldedValueIn, ok_bind, hfold,
    toInt64_add_toInt64]
  rfl

theorem getValueIn_eq {txValueIn : Int} (htx : TxChecked env.params tx) (hcb : tx.isCoinBase = false)
    (hzc : tx.hasZerocoinSpendInputs = false) (h : v.getValueIn tx = .ok txValueIn) :
    txValueIn = toInt64 (v.valueIn tx.vin + tx.fromPool) := by
  have hvalues : tx.vin.map v.inputValue = tx.vin.map fun txin => (v.accessCoin txin.prevout).out.nValue := by
    apply List.map_congr_left
    intro txin htxin
    simp only [CTransaction.hasZerocoinSpendInputs, List.any_eq_false] at hzc
    rw [View.inputValue, if_neg (hzc txin htxin)]
  rw [getValueIn_toInt64 htx hcb, Except.ok.injEq, View.amountIn, hvalues] at h
  exact h.symm

variable {s' : ConnectState} {own : Set COutPoint} {σ : Slots COutPoint Coin}

theorem TxConnected.fees {txundo : CTxUndo} (hctx : ctx.nHeight = nextHeight ctx.pprev)
    (hmaturity : 0 < env.params.nCoinbaseMaturity) (hvalid : ∀ o, ctx.invalidOut o = false)
    (hkeys : ∀ o ∈ tx.spends, o ∈ keys) (htx : TxChecked env.params tx) (hmax : 0 ≤ env.params.nMaxMoneyOut)
    (hzc : tx.isCoinBase = true ∨ tx.hasZerocoinSpendInputs = false) (h : TxConnected env node ctx s s' tx txundo)
    (hsim : s.view.Sim own σ) (hfees : 0 ≤ s.nFees)
    (hbound : s.nFees + σ.weight (spendableValue env.params ctx.nHeight) keys + tx.fromPool < 9223372036854775808) :
    ∃ own' σ', s'.view.Sim own' σ' ∧ 0 ≤ s'.nFees ∧ s'.nFees + σ'.weight (spendableValue env.params ctx.nHeight) keys ≤
        s.nFees + σ.weight (spendableValue env.params ctx.nHeight) keys + tx.fromPool := by
  obtain ⟨hprev, own', σ', hruns, hsim'⟩ := h.runs hvalid htx hsim
  refine ⟨own', σ', hsim', ?_⟩
  have hpos : 0 ≤ σ'.weight (spendableValue env.params ctx.nHeight) keys :=
    Slots.weight_nonneg (spendableValue_nonneg env.params ctx.nHeight)
  have hpool := htx.fromPool_le hmax
  have hweight : σ'.weight (spendableValue env.params ctx.nHeight) keys ≤
      σ.weight (spendableValue env.params ctx.nHeight) keys -
        (tx.spends.map fun o => spendableValue env.params ctx.nHeight (s.view.accessCoin o)).sum +
        if tx.isCoinBase || tx.isCoinStake then 0 else sumValues tx.vout := by
    rw [hruns.weight_eq, txOps, List.map_append, List.sum_append, hprev, inputOps_gain _ hkeys]
    have hout := @txOutputs_gain_le env tx keys ctx.nHeight htx hmaturity
    omega
  cases hcb : tx.isCoinBase with
  | true =>
    rw [(h.coinbase hcb).1]
    simp only [CTransaction.spends, hcb, Bool.true_or, if_true, List.map_nil, List.sum_nil] at hweight
    omega
  | false =>
    obtain ⟨pprev, txValueIn, vChecks, hin⟩ := h.inputs hcb
    have hheight : (ctx.nHeight : Int) = pprev.nHeight + 1 := by
      rw [hctx, hin.parent]
      simp [nextHeight]
    have hspent : (tx.spends.map fun o => spendableValue env.params ctx.nHeight (s.view.accessCoin o)).sum =
        s.view.valueIn tx.vin := by
      rw [CTransaction.spends, hcb, if_neg Bool.false_ne_true, List.map_map, View.valueIn]
      congr 1
      apply List.map_congr_left
      intro txin htxin
      rw [Function.comp_apply, hheight, (hin.checked.coins txin htxin).2.value_eq]
    have htotal := hin.checked.total.1
    have hzc : tx.hasZerocoinSpendInputs = false := by simpa [hcb] using hzc
    cases hcs : tx.isCoinStake with
    | true =>
      rw [hin.nFees, hcs, if_pos rfl]
      simp only [hcb, hcs, Bool.or_true, if_true] at hweight
      omega
    | false =>
      have hfee := hin.checked.fee hcs
      have hvalueIn := getValueIn_eq htx hcb hzc hin.valueIn
      have htoPool := toPool_nonneg tx
      rw [toInt64_of_inInt64 ⟨by omega, by omega⟩] at hvalueIn
      simp only [hcb, hcs, Bool.or_false, Bool.false_eq_true, if_false] at hweight
      rw [hin.nFees, hcs, if_neg Bool.false_ne_true, hvalueIn, toInt64_of_inInt64 ⟨by omega, by omega⟩]
      omega

def fromPoolSum (vtx : List CTransaction) : Int := (vtx.map CTransaction.fromPool).sum

theorem fromPoolSum_cons (tx : CTransaction) (vtx : List CTransaction) :
    fromPoolSum (tx :: vtx) = tx.fromPool + fromPoolSum vtx := by
  simp [fromPoolSum]

theorem fromPoolSum_nonneg (vtx : List CTransaction) : 0 ≤ fromPoolSum vtx := by
  apply List.sum_nonneg
  intro x hx
  obtain ⟨tx, -, rfl⟩ := List.mem_map.mp hx
  unfold CTransaction.fromPool
  split <;> omega

/-- **The fees of a block are bounded by the coins it can spend and what it takes from the pool**, and
    do not wrap below that bound. -/
theorem ConnectRun.fees (keys : Finset COutPoint) {entries : List (CTransaction × CTxUndo)}
    (hctx : ctx.nHeight = nextHeight ctx.pprev) (hmaturity : 0 < env.params.nCoinbaseMaturity)
    (hvalid : ∀ o, ctx.invalidOut o = false) (hmax : 0 ≤ env.params.nMaxMoneyOut)
    (h : ConnectRun env node ctx s entries s') :
    ∀ {own : Set COutPoint} {σ : Slots COutPoint Coin}, s.view.Sim own σ → 0 ≤ s.nFees →
      (∀ entry ∈ entries, (∀ o ∈ entry.1.spends, o ∈ keys) ∧
        (entry.1.isCoinBase = true ∨ entry.1.hasZerocoinSpendInputs = false)) →
      s.nFees + σ.weight (spendableValue env.params ctx.nHeight) keys + fromPoolSum (entries.map Prod.fst) <
        9223372036854775808 →
      0 ≤ s'.nFees := by
  induction h with
  | nil =>
    intro own σ _ hfees _ _
    exact hfees
  | @cons s s1 s' tx txundo entries htx hstep _ ih =>
    intro own σ hsim hfees hall hbound
    obtain ⟨hkeys, hzc⟩ : (∀ o ∈ tx.spends, o ∈ keys) ∧
        (tx.isCoinBase = true ∨ tx.hasZerocoinSpendInputs = false) := hall (tx, txundo) List.mem_cons_self
    have hrest := fromPoolSum_nonneg (entries.map Prod.fst)
    rw [List.map_cons, fromPoolSum_cons] at hbound
    dsimp only at hbound
    obtain ⟨own1, σ1, hsim1, hfees1, hle⟩ := hstep.fees hctx hmaturity hvalid hkeys htx hmax hzc hsim hfees
      (by omega)
    exact ih hsim1 hfees1 (fun entry he => hall entry (List.mem_cons_of_mem _ he)) (by omega)

/-! ## Blocks -/

def CBlock.inputKeys (block : CBlock) : Finset COutPoint := (block.vtx.flatMap CTransaction.spends).toFinset

theorem findSuperblockPayout_ok : ∀ {vtx : List CTransaction} {v v' : View} {found : Bool},
    findSuperblockPayout env node nHeight v vtx = .ok (found, v') →
      (∃ os : List COutPoint, v' = os.foldl View.fetch v) ∧
      (found = true → ∃ tx ∈ vtx, ∃ os : List COutPoint,
        checkSuperblockPayoutTx env node tx nHeight (os.foldl View.fetch v) = .ok true) := by
  intro vtx
  induction vtx with
  | nil =>
    intro v v' found h
    cases h
    exact ⟨⟨[], rfl⟩, fun hfound => by cases hfound⟩
  | cons tx vtx ih =>
    intro v v' found h
    obtain ⟨os1, hcons⟩ := findSuperblockPayout_cons env node nHeight v tx vtx
    rw [hcons, bind_eq_ok] at h
    obtain ⟨b, hb, h⟩ := h
    cases b with
    | true =>
      cases h
      exact ⟨⟨os1, rfl⟩, fun _ => ⟨tx, List.mem_cons_self, [], hb⟩⟩
    | false =>
      obtain ⟨⟨os, rfl⟩, hfound⟩ := ih h
      refine ⟨⟨os1 ++ os, List.foldl_append.symm⟩, fun hf => ?_⟩
      obtain ⟨tx', htx', os', hcheck⟩ := hfound hf
      exact ⟨tx', List.mem_cons_of_mem _ htx', os1 ++ os', by rw [List.foldl_append]; exact hcheck⟩

variable {block : CBlock} {v0 : View}

theorem checkSuperblock_found {payout : Int} (hsuper : Superblock.isSuperblockHeight env.params nHeight = true)
    (hpayout : Superblock.getSuperblockPayout env.params nHeight = .ok payout) (hpos : 0 < payout)
    (hstakers : Superblock.cycleHasStakers env.params node.chainActive nHeight = true)
    (h : checkSuperblock env node block nHeight v = .ok v0) : ∃ tx ∈ block.vtx, ∃ os : List COutPoint,
      checkSuperblockPayoutTx env node tx nHeight (os.foldl View.fetch v) = .ok true := by
  rw [checkSuperblock, hsuper, Bool.not_true, if_neg Bool.false_ne_true] at h
  obtain ⟨⟨found, v'⟩, hfind, h⟩ := bind_eq_ok.mp h
  cases found with
  | true => exact (findSuperblockPayout_ok hfind).2 rfl
  | false => simp [hpayout, faulting, hstakers, hpos, rejectIf] at h

theorem checkSuperblock_fetches (h : checkSuperblock env node block nHeight v = .ok v0) :
    ∃ os : List COutPoint, v0 = os.foldl View.fetch v := by
  unfold checkSuperblock at h
  split at h
  · cases h
    exact ⟨[], rfl⟩
  · rw [bind_eq_ok] at h
    obtain ⟨⟨found, v'⟩, hfind, h⟩ := h
    obtain ⟨os, hos⟩ := (findSuperblockPayout_ok hfind).1
    dsimp only at h
    split at h
    · cases h
      exact ⟨os, hos⟩
    · simp only [bind_eq_ok, rejectIf_eq_ok, exists_and_left, exists_const, pure_eq_ok] at h
      obtain ⟨-, -, -, rfl⟩ := h
      exact ⟨os, hos⟩

theorem checkSuperblock_sim (hsim : v.Sim own σ) (h : checkSuperblock env node block nHeight v = .ok v0) :
    v0.Sim own σ := by
  obtain ⟨os, rfl⟩ := checkSuperblock_fetches h
  exact List.foldlRecOn os View.fetch (motive := fun w => w.Sim own σ) hsim fun _ hw o _ => hw.fetch o

theorem checkSuperblock_sameRest (h : checkSuperblock env node block nHeight v = .ok v0) : View.SameRest v v0 := by
  obtain ⟨os, rfl⟩ := checkSuperblock_fetches h
  exact List.foldlRecOn os View.fetch (motive := fun w => View.SameRest v w) (.refl v)
    fun w hw o _ => hw.trans (.fetch w o)

/-- **When the assertions of `ConnectBlock` hold.** A transaction of a block that passes `CheckBlock` fails the
    assertions on coins in no state exactly if it is the coinbase or has no zerocoin input. If that is so for all of
    them, and the coins the block can spend and the value it takes from the pool are within the range of a word, no
    assertion of the loop fails, nor does the one on the fees. -/
theorem connectBlock_assertions_iff {block : CBlock} {pprev : CBlockIndex} {pow merkle sig : Bool}
    (hmax : 0 ≤ env.params.nMaxMoneyOut ∧ env.params.nMaxMoneyOut < 9223372036854775808)
    (hmaturity : 0 < env.params.nCoinbaseMaturity)
    (hvalid : ∀ o, (ConnectContext.of env node block (some pprev)).invalidOut o = false)
    (hcheck : checkBlock env node block pow merkle sig = .ok ()) :
    (∀ tx ∈ block.vtx, (∀ s, connectTx env node (.of env node block (some pprev)) s tx ≠ .error .assertion) ↔
        (tx.isCoinBase = true ∨ tx.hasZerocoinSpendInputs = false)) ∧
    ((∀ tx ∈ block.vtx, tx.isCoinBase = true ∨ tx.hasZerocoinSpendInputs = false) →
      ∀ (v v0 : View) (tree : SaplingMerkleTree), v.Tidy →
        checkSuperblock env node block (pprev.nHeight + 1) v = .ok v0 →
        v.slots.weight (spendableValue env.params (pprev.nHeight + 1)) block.inputKeys +
          fromPoolSum block.vtx < 9223372036854775808 →
        block.vtx.foldlM (connectTx env node (.of env node block (some pprev)))
            ⟨v0, 0, 0, 0, 0, [], tree, []⟩ ≠ .error .assertion ∧
          ∀ s, block.vtx.foldlM (connectTx env node (.of env node block (some pprev)))
            ⟨v0, 0, 0, 0, 0, [], tree, []⟩ = .ok s → 0 ≤ s.nFees) := by
  have hblock := checkBlock_ok hmax hcheck
  constructor
  · intro tx htx
    constructor
    · intro h
      by_contra hnot
      simp only [not_or, Bool.not_eq_true, Bool.not_eq_false] at hnot
      have hsigops : getLegacySigOpCount tx ≤ MAX_BLOCK_SIGOPS_CURRENT :=
        (List.single_le_sum (by simp) _ (List.mem_map_of_mem htx)).trans hblock.sigops
      exact h emptyConnectState
        (connectTx_zerocoin hmax (hblock.txs tx htx) hsigops rfl hnot.1 hnot.2)
    · intro hzc s
      exact connectTx_ne_assertion (hblock.txs tx htx) rfl hzc
  · intro hzc v v0 tree htidy hsuper hbound
    constructor
    · apply foldlM_ne_error
      intro tx htx s
      exact connectTx_ne_assertion (hblock.txs tx htx) rfl (hzc tx htx)
    · intro s hloop
      obtain ⟨entries, hfst, hrun⟩ := connectRun_of_foldlM hmax hblock.txs hloop
      have hsim : v.Sim ∅ v.slots := ⟨htidy, rfl, by simp⟩
      have hsim0 := checkSuperblock_sim hsim hsuper
      refine hrun.fees block.inputKeys rfl hmaturity hvalid hmax.1 hsim0 le_rfl ?_ ?_
      · intro entry hentry
        have hmem : entry.1 ∈ block.vtx := hfst ▸ List.mem_map_of_mem hentry
        refine ⟨fun o ho => ?_, hzc entry.1 hmem⟩
        rw [CBlock.inputKeys, List.mem_toFinset, List.mem_flatMap]
        exact ⟨entry.1, hmem, ho⟩
      · rw [hfst, zero_add]
        exact hbound

/-! ## A block of the main network -/

/-- A hash for which the table of empty roots is right. -/
def samplePedersen : PedersenHash where
  combine a b d :=
    if a = pedersenEmptyRoot d ∧ b = pedersenEmptyRoot d then pedersenEmptyRoot (d + 1) else a ^^^ (b <<< 1)
  emptyRoots := by
    intro d _
    simp

/-- The main network, with its checkpoints. -/
def sampleEnv : Env where
  params := mainParams
  crypto := copyCrypto
  pedersen := samplePedersen
  proofs := ⟨fun _ _ => true, fun _ => true, fun _ _ _ _ _ => true⟩
  checkpoints := .main true

/-- A block of height 1. -/
def sampleParent : CBlockIndex := ⟨77, 1, PedersenHash.emptyRoot, some 0⟩

/-- A node whose tip it is. -/
def sampleNode : NodeState where
  tip := some 77
  chainActive _ := none
  lookupBlockIndex hash := hash == 77
  isInitialBlockDownload := true
  coldStakingMaintenance := false
  saplingMaintenance := 4070908800
  getAdjustedTime := 1786000000
  nScriptCheckThreads := 0
  setInvalidOutPoints _ := false

def sampleView (coins : List (COutPoint × Coin)) : View :=
  ⟨⟨coins.foldl (fun m e => KMap.set m e.1 (some e.2)) ∅, 77, ∅, ∅, none⟩, ⟨0, ∅, 0, ∅, ∅⟩⟩

def sampleCoinbase : CTransaction :=
  ⟨1, 1, 0, [⟨⟨0, 0xffffffff⟩, [0x52, 0x00], 0xffffffff⟩], [⟨0, [OP_1]⟩], 0, none, none⟩

/-- A block of height 2 with the transactions after the coinbase. -/
def sampleBlock (txs : List CTransaction) : CBlock :=
  ⟨5, 8, 77, 1, 1785990000, 0x1e0ffff0, 0, PedersenHash.emptyRoot, sampleCoinbase :: txs, []⟩

/-- A spend of a coin that is there. -/
def plainTx : CTransaction := ⟨2, 1, 0, [⟨⟨7, 0⟩, [], 0⟩], [⟨900, [OP_1]⟩], 0, none, none⟩

def plainView : View := sampleView [(⟨7, 0⟩, ⟨false, false, ⟨1000, [OP_1]⟩, 1⟩)]

theorem plainBlock_assertions : (sampleBlock [plainTx]).vtx.foldlM (connectTx sampleEnv sampleNode
        (.of sampleEnv sampleNode (sampleBlock [plainTx]) (some sampleParent)))
      ⟨plainView, 0, 0, 0, 0, [], .empty, []⟩ ≠ .error .assertion := by
  have hiff := @connectBlock_assertions_iff sampleEnv sampleNode (sampleBlock [plainTx]) sampleParent
    true true true (by decide) (by decide) (fun _ => rfl) (by decide +kernel)
  have htidy : plainView.Tidy := by
    intro o e h
    cases h
  exact (hiff.2 (by decide) plainView plainView .empty htidy rfl (by decide +kernel)).1

/-- An input that looks like a public zerocoin spend, of an output that does not exist. -/
def zerocoinTx : CTransaction :=
  ⟨2, 1, 0, [⟨⟨7, 0⟩, [OP_ZEROCOINPUBLICSPEND], 0⟩], [⟨0, [OP_1]⟩], 0, none, none⟩

def isAssertion {α : Type} : Except Failure α → Bool
  | .error .assertion => true
  | _ => false

theorem eq_of_isAssertion {α : Type} {x : Except Failure α} (h : isAssertion x = true) : x = .error .assertion := by
  unfold isAssertion at h
  split at h
  · rfl
  · cases h

/-- **A block that aborts the node.** It passes `CheckBlock` and `ContextualCheckBlock`, and in `ConnectBlock` its
    second transaction fails the assertion of `CheckTxInputs`. -/
theorem zerocoinBlock_aborts : checkBlock sampleEnv sampleNode (sampleBlock [zerocoinTx]) true true true = .ok () ∧
      contextualCheckBlock sampleEnv sampleNode (sampleBlock [zerocoinTx]) (some sampleParent) = .ok () ∧
      checkTxInputs sampleEnv zerocoinTx (sampleView []) 2 = .error .assertion ∧
      connectBlock sampleEnv sampleNode (sampleBlock [zerocoinTx]) (some sampleParent) (sampleView []) false =
        .error .assertion := by
  refine ⟨by decide +kernel, by decide +kernel, by decide +kernel, eq_of_isAssertion (by decide +kernel)⟩

end KrovaCoin
