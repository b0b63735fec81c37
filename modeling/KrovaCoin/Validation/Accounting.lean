import KrovaCoin.Validation.Assertions

/-!
# The amounts of a block in `int64_t` (`validation.cpp`)

`ConnectBlock` adds up the values of all transactions of a block: money that moves through several transactions is
counted at each of them.

Principal results: `connectBlock_accounting_iff`, `twoHops_overflow`.
-/

namespace KrovaCoin

open Lib

/-! ## The sums of the loop -/

/-- What a transaction pays out: its outputs and what enters the shielded pool. -/
def CTransaction.paid (tx : CTransaction) : Int := tx.toPool + sumValues tx.vout

/-- What a transaction brings in; nothing for a coinbase. -/
def View.brought (v : View) (tx : CTransaction) : Int := if tx.isCoinBase then 0 else v.amountIn tx

/-- `GetValueIn` of a transaction, and what `ConnectBlock` adds with it, stay in range. -/
structure InputsFit (s : ConnectState) (tx : CTransaction) : Prop where
  nResult : ∀ k, InInt64 ((tx.vin.take k).map s.view.inputValue).sum
  txValueIn : InInt64 (s.view.amountIn tx)
  fee : tx.isCoinStake = false →
    InInt64 (s.view.amountIn tx - tx.paid) ∧ InInt64 (s.nFees + (s.view.amountIn tx - tx.paid))
  nValueIn : InInt64 (s.nValueIn + s.view.amountIn tx)

/-- Every sum of the loop over the transactions from the state on, and `nMint` after it, is in the range of
    `int64_t`. -/
def AccumulatorsFit (env : Env) (node : NodeState) (ctx : ConnectContext) : ConnectState → List CTransaction → Prop
  | s, [] => InInt64 (s.nValueOut - s.nValueIn) ∧ InInt64 (s.nValueOut - s.nValueIn + s.nFees)
  | s, tx :: txs => (tx.isCoinBase = false → InputsFit s tx) ∧ InInt64 (s.nValueOut + tx.paid) ∧
      ∀ s', connectTx env node ctx s tx = .ok s' → AccumulatorsFit env node ctx s' txs

/-- The values of all outputs of a block. -/
def outputTotal (vtx : List CTransaction) : Int := (vtx.map CTransaction.paid).sum

/-- The values of all inputs of a block: each coin is read from the view that `UpdateCoins` leaves after the
    transactions before. -/
def inputTotal (ctx : ConnectContext) : View → List CTransaction → Int
  | _, [] => 0
  | v, tx :: txs => v.brought tx +
      match updateCoins tx v ctx.nHeight ctx.invalidOut with
      | .ok (v', _) => inputTotal ctx v' txs
      | .error _ => 0

@[simp] theorem outputTotal_cons (tx : CTransaction) (txs : List CTransaction) :
    outputTotal (tx :: txs) = tx.paid + outputTotal txs := by
  simp [outputTotal]

section

variable {env : Env} {node : NodeState} {ctx : ConnectContext}

theorem TxChecked.paid_nonneg {p : Params} {tx : CTransaction} (h : TxChecked p tx) : 0 ≤ tx.paid :=
  add_nonneg (toPool_nonneg tx) (sumValues_nonneg fun out hout => (h.values out hout).1)

theorem outputTotal_nonneg {p : Params} {vtx : List CTransaction} (h : ∀ tx ∈ vtx, TxChecked p tx) :
    0 ≤ outputTotal vtx := by
  apply List.sum_nonneg
  intro x hx
  obtain ⟨tx, htx, rfl⟩ := List.mem_map.mp hx
  exact (h tx htx).paid_nonneg

/-! ## One transaction -/

section Step

variable {s s' : ConnectState} {tx : CTransaction} {txundo : CTxUndo}

theorem inputTotal_cons (txs : List CTransaction) (h : TxConnected env node ctx s s' tx txundo) :
    inputTotal ctx s.view (tx :: txs) = s.view.brought tx + inputTotal ctx s'.view txs := by
  rw [inputTotal, h.coins]

theorem TxConnected.inputValue_nonneg (hcb : tx.isCoinBase = false) (h : TxConnected env node ctx s s' tx txundo) :
    ∀ txin ∈ tx.vin, 0 ≤ s.view.inputValue txin := by
  intro txin htxin
  obtain ⟨pprev, txValueIn, vChecks, hin⟩ := h.inputs hcb
  unfold View.inputValue
  split
  · unfold COIN
    omega
  · exact (hin.checked.coins txin htxin).2.value.1

theorem TxConnected.sum_take_inputs (hmax : 0 ≤ env.params.nMaxMoneyOut) (htx : TxChecked env.params tx)
    (hcb : tx.isCoinBase = false) (h : TxConnected env node ctx s s' tx txundo) (k : Nat) :
    0 ≤ ((tx.vin.take k).map s.view.inputValue).sum ∧
      ((tx.vin.take k).map s.view.inputValue).sum ≤ s.view.amountIn tx := by
  have hnonneg : ∀ x ∈ tx.vin.map s.view.inputValue, 0 ≤ x := by
    intro x hx
    obtain ⟨txin, htxin, rfl⟩ := List.mem_map.mp hx
    exact h.inputValue_nonneg hcb txin htxin
  have hsub := (List.take_sublist k tx.vin).map s.view.inputValue
  have hle := hsub.sum_le_sum hnonneg
  have hpool := (htx.fromPool_le hmax).1
  refine ⟨List.sum_nonneg fun x hx => hnonneg x (hsub.subset hx), ?_⟩
  unfold View.amountIn
  omega

theorem TxConnected.brought_nonneg (hmax : 0 ≤ env.params.nMaxMoneyOut) (htx : TxChecked env.params tx)
    (h : TxConnected env node ctx s s' tx txundo) : 0 ≤ s.view.brought tx := by
  unfold View.brought
  split
  · exact le_rfl
  · rename_i hcb
    have hsum := h.sum_take_inputs hmax htx (Bool.not_eq_true _ ▸ hcb) 0
    exact hsum.1.trans hsum.2

/-- What is known of the sums while they fit: the fees lie between what was paid out and what was brought in. -/
structure AccountsInOrder (s : ConnectState) : Prop where
  nValueIn : 0 ≤ s.nValueIn ∧ s.nValueIn ≤ 9223372036854775807
  nValueOut : 0 ≤ s.nValueOut ∧ s.nValueOut ≤ 9223372036854775807
  nFees : -s.nValueOut ≤ s.nFees ∧ s.nFees ≤ s.nValueIn

/-- The sums of a transaction fit exactly if what it pays out and brings in still finds room. -/
theorem TxConnected.fits_iff (hmax : 0 ≤ env.params.nMaxMoneyOut) (htx : TxChecked env.params tx)
    (h : TxConnected env node ctx s s' tx txundo) (hs : AccountsInOrder s) :
    ((tx.isCoinBase = false → InputsFit s tx) ∧ InInt64 (s.nValueOut + tx.paid)) ↔
      s.nValueOut + tx.paid ≤ 9223372036854775807 ∧ s.nValueIn + s.view.brought tx ≤ 9223372036854775807 := by
  obtain ⟨⟨hin0, hin⟩, ⟨hout0, hout⟩, hfees0, hfees⟩ := hs
  have hpaid := htx.paid_nonneg
  unfold View.brought
  constructor
  · rintro ⟨hinputs, hfits⟩
    refine ⟨hfits.2, ?_⟩
    split
    · omega
    · rename_i hcb
      exact (hinputs (by simpa using hcb)).nValueIn.2
  · rintro ⟨hroomOut, hroomIn⟩
    refine ⟨fun hcb => ?_, ⟨by omega, hroomOut⟩⟩
    rw [if_neg (by simp [hcb])] at hroomIn
    have hsums := h.sum_take_inputs hmax htx hcb
    have hbrought := (hsums 0).1.trans (hsums 0).2
    refine ⟨fun k => ⟨?_, ?_⟩, ⟨by omega, by omega⟩, fun _ => ⟨⟨by omega, by omega⟩, by omega, by omega⟩, by omega,
      hroomIn⟩
    · have := (hsums k).1
      omega
    · have := (hsums k).2
      omega

theorem TxConnected.accountsInOrder (hmax : 0 ≤ env.params.nMaxMoneyOut) (htx : TxChecked env.params tx)
    (h : TxConnected env node ctx s s' tx txundo) (hs : AccountsInOrder s)
    (hroomOut : s.nValueOut + tx.paid ≤ 9223372036854775807)
    (hroomIn : s.nValueIn + s.view.brought tx ≤ 9223372036854775807) :
    AccountsInOrder s' ∧ s'.nValueOut = s.nValueOut + tx.paid ∧ s'.nValueIn = s.nValueIn + s.view.brought tx := by
  obtain ⟨⟨hin0, hin⟩, ⟨hout0, hout⟩, hfees0, hfees⟩ := hs
  have hpaid := htx.paid_nonneg
  have hbrought := h.brought_nonneg hmax htx
  have hnValueOut : s'.nValueOut = s.nValueOut + tx.paid := by
    have hin : InInt64 (s.nValueOut + tx.paid) := ⟨by omega, hroomOut⟩
    rw [h.nValueOut]
    exact toInt64_of_inInt64 hin
  unfold View.brought at hroomIn hbrought ⊢
  cases hcb : tx.isCoinBase with
  | true =>
    obtain ⟨hf, hi, -⟩ := h.coinbase hcb
    rw [if_pos rfl, add_zero]
    refine ⟨⟨?_, ?_, ?_⟩, hnValueOut, hi⟩ <;> omega
  | false =>
    rw [hcb, if_neg Bool.false_ne_true] at hroomIn hbrought
    obtain ⟨pprev, txValueIn, vChecks, hinputs⟩ := h.inputs hcb
    have hvalueIn : txValueIn = s.view.amountIn tx := by
      have hget := hinputs.valueIn
      rw [getValueIn_toInt64 htx hcb, Except.ok.injEq, toInt64_of_inInt64 ⟨by omega, by omega⟩] at hget
      exact hget.symm
    have hnValueIn : s'.nValueIn = s.nValueIn + s.view.amountIn tx := by
      rw [hinputs.nValueIn, hvalueIn]
      exact toInt64_of_inInt64 ⟨by omega, hroomIn⟩
    have hnFees : s'.nFees = s.nFees ∨ s'.nFees = s.nFees + (s.view.amountIn tx - tx.paid) := by
      rw [hinputs.nFees, hvalueIn]
      split
      · exact .inl rfl
      · exact .inr (toInt64_of_inInt64 (x := s.nFees + (s.view.amountIn tx - tx.paid)) ⟨by omega, by omega⟩)
    refine ⟨⟨?_, ?_, ?_⟩, hnValueOut, hnValueIn⟩ <;> omega

end Step

theorem inputTotal_nonneg (hmax : 0 ≤ env.params.nMaxMoneyOut ∧ env.params.nMaxMoneyOut < 9223372036854775808) :
    ∀ {vtx : List CTransaction} {s s' : ConnectState}, (∀ tx ∈ vtx, TxChecked env.params tx) →
      vtx.foldlM (connectTx env node ctx) s = .ok s' → 0 ≤ inputTotal ctx s.view vtx
  | [], _, _, _, _ => le_rfl
  | tx :: vtx, s, s', htxs, h => by
    rw [List.forall_mem_cons] at htxs
    obtain ⟨s1, h1, hrest⟩ := bind_eq_ok.mp h
    obtain ⟨txundo, hstep⟩ := connectTx_ok hmax htxs.1 h1
    rw [inputTotal_cons vtx hstep]
    exact add_nonneg (hstep.brought_nonneg hmax.1 htxs.1) (inputTotal_nonneg hmax htxs.2 hrest)

/-- The sums of the loop fit from a state in order on exactly if the totals of the transactions that are left find
    room. -/
theorem accumulatorsFit_iff (hmax : 0 ≤ env.params.nMaxMoneyOut ∧ env.params.nMaxMoneyOut < 9223372036854775808) :
    ∀ {vtx : List CTransaction} {s s' : ConnectState}, (∀ tx ∈ vtx, TxChecked env.params tx) →
      vtx.foldlM (connectTx env node ctx) s = .ok s' → AccountsInOrder s →
      (AccumulatorsFit env node ctx s vtx ↔ s.nValueOut + outputTotal vtx ≤ 9223372036854775807 ∧
          s.nValueIn + inputTotal ctx s.view vtx ≤ 9223372036854775807)
  | [], s, _, _, _, hs => by
    obtain ⟨⟨hin0, hin⟩, ⟨hout0, hout⟩, hfees0, hfees⟩ := hs
    simp only [AccumulatorsFit, outputTotal, List.map_nil, List.sum_nil, inputTotal, add_zero, InInt64]
    omega
  | tx :: vtx, s, s', htxs, h, hs => by
    rw [List.forall_mem_cons] at htxs
    obtain ⟨s1, h1, hrest⟩ := bind_eq_ok.mp h
    obtain ⟨txundo, hstep⟩ := connectTx_ok hmax htxs.1 h1
    have hleftOut := outputTotal_nonneg htxs.2
    have hleftIn := inputTotal_nonneg hmax htxs.2 hrest
    have hfits := hstep.fits_iff hmax.1 htxs.1 hs
    have hnext : (∀ s2, connectTx env node ctx s tx = .ok s2 → AccumulatorsFit env node ctx s2 vtx) ↔
        AccumulatorsFit env node ctx s1 vtx := by
      constructor
      · intro hall
        exact hall s1 h1
      · intro hone s2 h2
        rw [h1, Except.ok.injEq] at h2
        exact h2 ▸ hone
    rw [AccumulatorsFit, hnext, ← and_assoc, hfits, outputTotal_cons, inputTotal_cons vtx hstep]
    constructor
    · rintro ⟨⟨hroomOut, hroomIn⟩, htail⟩
      obtain ⟨hs1, hout1, hin1⟩ := hstep.accountsInOrder hmax.1 htxs.1 hs hroomOut hroomIn
      have hroom := (accumulatorsFit_iff hmax htxs.2 hrest hs1).mp htail
      omega
    · rintro ⟨hroomOut, hroomIn⟩
      obtain ⟨hs1, hout1, hin1⟩ := hstep.accountsInOrder hmax.1 htxs.1 hs (by omega) (by omega)
      refine ⟨by omega, (accumulatorsFit_iff hmax htxs.2 hrest hs1).mpr ?_⟩
      omega

/-! ## `ConnectBlock` -/

theorem connectBlock_loop {block : CBlock} {pprev : Option CBlockIndex} {v : View} {fJustCheck : Bool} {r : Connected}
    (hmax : 0 ≤ env.params.nMaxMoneyOut ∧ env.params.nMaxMoneyOut < 9223372036854775808)
    (hgenesis : block.hash ≠ env.params.hashGenesisBlock) (h : connectBlock env node block pprev v fJustCheck = .ok r) :
    ∃ tree v0 s, (∀ tx ∈ block.vtx, TxChecked env.params tx) ∧ bestTree env.pedersen v = .ok tree ∧
      checkSuperblock env node block (nextHeight pprev) v = .ok v0 ∧
      block.vtx.foldlM (connectTx env node (.of env node block pprev)) ⟨v0, 0, 0, 0, 0, [], tree, []⟩ = .ok s := by
  simp only [connectBlock, bind_eq_ok, rejectIf_eq_ok, exists_and_left, exists_const, if_neg hgenesis] at h
  obtain ⟨⟨⟩, hcheck, -, -, h⟩ := h
  simp only [connectTransactions, bind_eq_ok, rejectIf_eq_ok, exists_and_left, exists_const] at h
  obtain ⟨-, -, -, tree, htree, v0, hsuper, s, hloop, -⟩ := h
  exact ⟨tree, v0, s, (checkBlock_ok hmax (connectCheckBlock_ok hcheck)).txs, htree, hsuper, hloop⟩

end

/-- **The sums of an accepted block fit in `int64_t` exactly if the values of all its outputs, and those of all its
    inputs, add up to a number that does.** -/
theorem connectBlock_accounting_iff (env : Env) (node : NodeState) (block : CBlock) (pprev : Option CBlockIndex)
    (v : View) (fJustCheck : Bool) (r : Connected)
    (hmax : 0 ≤ env.params.nMaxMoneyOut ∧ env.params.nMaxMoneyOut < 9223372036854775808)
    (hgenesis : block.hash ≠ env.params.hashGenesisBlock) (h : connectBlock env node block pprev v fJustCheck = .ok r) :
    ∃ tree v0, bestTree env.pedersen v = .ok tree ∧ checkSuperblock env node block (nextHeight pprev) v = .ok v0 ∧
      (AccumulatorsFit env node (.of env node block pprev) ⟨v0, 0, 0, 0, 0, [], tree, []⟩ block.vtx ↔
        outputTotal block.vtx ≤ CAMOUNT_MAX ∧ inputTotal (.of env node block pprev) v0 block.vtx ≤ CAMOUNT_MAX) := by
  obtain ⟨tree, v0, s, htxs, htree, hsuper, hloop⟩ := connectBlock_loop hmax hgenesis h
  have hstart : AccountsInOrder ⟨v0, 0, 0, 0, 0, [], tree, []⟩ := by
    constructor <;> dsimp only <;> omega
  have hfits := accumulatorsFit_iff hmax htxs hloop hstart
  rw [zero_add, zero_add] at hfits
  exact ⟨tree, v0, htree, hsuper, hfits⟩

theorem plainBlock_accounting : ∃ r, connectBlock sampleEnv sampleNode (sampleBlock [plainTx]) (some sampleParent)
    plainView false = .ok r ∧ ∃ tree v0, bestTree sampleEnv.pedersen plainView = .ok tree ∧
      AccumulatorsFit sampleEnv sampleNode (.of sampleEnv sampleNode (sampleBlock [plainTx]) (some sampleParent))
        ⟨v0, 0, 0, 0, 0, [], tree, []⟩ (sampleBlock [plainTx]).vtx := by
  obtain ⟨r, hr⟩ : ∃ r, connectBlock sampleEnv sampleNode (sampleBlock [plainTx]) (some sampleParent) plainView false =
      .ok r := exists_ok_of_toBool (by decide +kernel)
  obtain ⟨tree, v0, htree, hsuper, hfits⟩ := connectBlock_accounting_iff _ _ _ _ _ _ r (by decide) (by decide) hr
  cases hsuper
  exact ⟨r, hr, tree, plainView, htree, hfits.mpr (by decide +kernel)⟩

/-- Two transactions that move a coin of seven tenths of 10 ^ 19. -/
def firstHop : CTransaction := ⟨2, 1, 0, [⟨⟨7, 0⟩, [], 0⟩], [⟨7000000000000000000, [OP_1]⟩], 0, none, none⟩

def secondHop : CTransaction := ⟨3, 1, 0, [⟨⟨2, 0⟩, [], 0⟩], [⟨7000000000000000000, [OP_1]⟩], 0, none, none⟩

def hopView : View := sampleView [(⟨7, 0⟩, ⟨false, false, ⟨7000000000000000000, [OP_1]⟩, 1⟩)]

/-- **A coin that moves twice in a block.** The only coin of the view is within the money range, `ConnectBlock` accepts
    the block, and its sums do not fit. -/
theorem twoHops_overflow : sampleEnv.params.moneyRange 7000000000000000000 = true ∧
    ∃ r, connectBlock sampleEnv sampleNode (sampleBlock [firstHop, secondHop]) (some sampleParent) hopView false =
      .ok r ∧ ∃ tree, bestTree sampleEnv.pedersen hopView = .ok tree ∧
      ¬ AccumulatorsFit sampleEnv sampleNode
        (.of sampleEnv sampleNode (sampleBlock [firstHop, secondHop]) (some sampleParent))
        ⟨hopView, 0, 0, 0, 0, [], tree, []⟩ (sampleBlock [firstHop, secondHop]).vtx := by
  obtain ⟨r, hr⟩ : ∃ r, connectBlock sampleEnv sampleNode (sampleBlock [firstHop, secondHop]) (some sampleParent)
      hopView false = .ok r := exists_ok_of_toBool (by decide +kernel)
  obtain ⟨tree, v0, s, htxs, htree, hsuper, hloop⟩ := connectBlock_loop (by decide) (by decide) hr
  cases hsuper
  have hstart : AccountsInOrder ⟨hopView, 0, 0, 0, 0, [], tree, []⟩ := by
    constructor <;> dsimp only <;> omega
  refine ⟨by decide, r, hr, tree, htree, fun hfits => ?_⟩
  have htotal : ¬ (0 + outputTotal (sampleBlock [firstHop, secondHop]).vtx ≤ 9223372036854775807) := by decide +kernel
  exact htotal ((accumulatorsFit_iff (by decide) htxs hloop hstart).mp hfits).1

end KrovaCoin
