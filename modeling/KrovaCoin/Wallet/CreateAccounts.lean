import KrovaCoin.Wallet.CreateTransaction

/-!
# A transaction of the wallet accounts for every base unit

* `RoundBuilt`, `createRound_cases`, `createRound_next` — what one round of the fee loop of `CreateTransaction` does.

Principal result: `createTransaction_accounts`.
-/

namespace KrovaCoin

open Lib

/-! ## The rounds -/

section Rounds

variable {w : CWallet} {args : CreateArgs} {chance : Nat → RoundChance} {vAvailableCoins : List COutput} {nValue : Int}
  {s : FeeState}

theorem valueToSelect_eq_ok {f nToSelect : Int} (h : valueToSelect args nValue f = .ok nToSelect) :
    nToSelect = nValue + if countFeePayers args.vecSend = 0 then f else 0 := by
  unfold valueToSelect at h
  split at h
  · rename_i hnone
    rw [if_pos hnone, checkInt64_eq_ok h]
  · rename_i hsome
    cases h
    rw [if_neg hsome, add_zero]

/-- What a round that returns has done. -/
structure RoundBuilt (w : CWallet) (args : CreateArgs) (nValue f : Int) (built : BuiltTx) : Prop where
  filled : ∃ paid, fillOutputs w.fees f (countFeePayers args.vecSend) true args.vecSend = .ok paid ∧
    ∃ nChange, ChangePaid w.fees.dustRelayFee args.coinControl args.nChangePosInOut paid nChange (built.nFeeRet - f)
      built.vout built.nChangePosInOut ∧
      totalValue built.setCoins = nValue + (if countFeePayers args.vecSend = 0 then f else 0) + nChange
  coins : w.txs.Spendable built.setCoins

variable {next : LoopStep FeeState BuiltTx}

/-- A round fills the outputs, selects coins and pays the change; then the fee decides. -/
theorem createRound_cases (havailable : w.txs.Spendable (vAvailableCoins.map COutput.toWalletCoin))
    (h : createRound w args chance vAvailableCoins nValue s = .ok next) :
    (∃ nToSelect, valueToSelect args nValue s.nFeeRet = .ok nToSelect) ∧
      ∃ built, RoundBuilt w args nValue s.nFeeRet built ∧ checkFee w args s built = .ok next ∧
        ∃ setCoins nValueIn, selectCoinsToSpend w.txs w.opts vAvailableCoins
          (nValue + if countFeePayers args.vecSend = 0 then s.nFeeRet else 0) args.coinControl
          (chance s.nRound).coins = .ok (some (setCoins, nValueIn)) ∧ built.setCoins = w.setOrder setCoins := by
  rw [createRound, bind_eq_ok] at h
  obtain ⟨nToSelect, hselect, h⟩ := h
  have hselect' := checked_eq_ok.mp hselect
  have hvalue := valueToSelect_eq_ok hselect'
  obtain ⟨paid, hpaid, h⟩ := bind_eq_ok.mp h
  obtain ⟨found?, hfound, h⟩ := bind_eq_ok.mp h
  cases found? with
  | none => cases h
  | some found =>
    obtain ⟨setCoins, nValueIn⟩ := found
    obtain ⟨nChange, hchange, h⟩ := bind_eq_ok.mp h
    obtain ⟨change, hpay, h⟩ := bind_eq_ok.mp h
    have hfound' := checked_eq_ok.mp hfound
    obtain ⟨hcoins, htotal, hreaches⟩ := selectCoinsToSpend_sound havailable hfound'
    have hchange' := checkInt64_eq_ok (checked_eq_ok.mp hchange)
    have hperm := w.setOrder_perm setCoins
    refine ⟨⟨nToSelect, hselect'⟩, ⟨change, w.setOrder setCoins⟩, ⟨⟨paid, hpaid, nChange, ?_, ?_⟩, ?_⟩, h,
      setCoins, nValueIn, hvalue ▸ hfound', rfl⟩
    · exact payChange_paid (by omega) hpay
    · rw [totalValue_perm hperm, ← htotal, ← hvalue, hchange']
      ring
    · exact hcoins.of_subperm hperm.subperm

theorem checkFee_eq_ok {built : BuiltTx} (h : checkFee w args s built = .ok next) :
    ∃ txNew, w.dummySigned built.setCoins built.vout = some txNew ∧
      ((feeNeeded w.fees args.coinControl args.nFeePay (feeBytes txNew args.nExtraSize) ≤ built.nFeeRet ∧
          next = .done built) ∨
        built.nFeeRet < feeNeeded w.fees args.coinControl args.nFeePay (feeBytes txNew args.nExtraSize) ∧
          next = .next ⟨feeNeeded w.fees args.coinControl args.nFeePay (feeBytes txNew args.nExtraSize),
            s.nRound + 1⟩) := by
  unfold checkFee at h
  split at h
  · cases h
  · rename_i txNew htx
    obtain ⟨_, _, h⟩ := bind_eq_ok.mp h
    refine ⟨txNew, htx, ?_⟩
    cases h
    split
    · rename_i henough
      exact .inl ⟨henough, rfl⟩
    · rename_i hmore
      exact .inr ⟨Int.not_le.mp hmore, rfl⟩

theorem fee_le_of_filled {fees : FeeSettings} {f : Int} {k : Nat} (hf : 0 ≤ f) (hk : 0 < k) :
    ∀ {vecSend : List CRecipient} {vout : List CTxOut}, fillOutputs fees f k true vecSend = .ok vout →
      0 < countFeePayers vecSend → (∀ recipient ∈ vecSend, 0 ≤ recipient.nAmount) →
      f ≤ k * (vecSend.map CRecipient.nAmount).sum
  | [], _, _, hpays, _ => by simp [countFeePayers] at hpays
  | recipient :: vecSend, vout, h, hpays, hnonneg => by
    obtain ⟨txout, rest, rfl, -, hvalue, hdust, hrest⟩ := fillOutputs_cons_eq_ok h
    rw [List.forall_mem_cons] at hnonneg
    have hsum : 0 ≤ (vecSend.map CRecipient.nAmount).sum := by
      apply List.sum_nonneg
      intro n hn
      obtain ⟨r, hr, rfl⟩ := List.mem_map.mp hn
      exact hnonneg.2 r hr
    rw [List.map_cons, List.sum_cons]
    cases hpay : recipient.fSubtractFeeFromAmount with
    | false =>
      have hcount : 0 < countFeePayers vecSend := by
        simpa [countFeePayers, List.countP_cons, hpay] using hpays
      rw [hpay] at hrest
      have ih := fee_le_of_filled hf hk hrest hcount hnonneg.2
      have := mul_nonneg (Int.natCast_nonneg k) hnonneg.1
      rw [mul_add]
      omega
    | true =>
      have hvalue0 := nValue_nonneg_of_not_dust hdust
      rw [hpay, if_pos rfl, if_pos rfl] at hvalue
      have hmod : 0 ≤ f % k := Int.emod_nonneg f (by omega)
      have hle : f / k + f % k ≤ recipient.nAmount + (vecSend.map CRecipient.nAmount).sum := by omega
      calc f = k * (f / k) + f % k := (Int.mul_ediv_add_emod f k).symm
        _ ≤ k * (f / k) + k * (f % k) := by nlinarith
        _ = k * (f / k + f % k) := by ring
        _ ≤ k * (recipient.nAmount + (vecSend.map CRecipient.nAmount).sum) :=
          mul_le_mul_of_nonneg_left hle (by omega)

theorem createRound_next (havailable : w.txs.Spendable (vAvailableCoins.map COutput.toWalletCoin))
    (hnValue : sumAmounts 0 args.vecSend = .ok nValue) {s' : FeeState} (hfee : 0 ≤ s.nFeeRet)
    (h : createRound w args chance vAvailableCoins nValue s = .ok (.next s')) :
    s.nFeeRet < s'.nFeeRet ∧ s.nFeeRet ≤ 9223372036854775807 + countFeePayers args.vecSend * nValue := by
  obtain ⟨⟨nToSelect, hselect⟩, built, ⟨⟨paid, hpaid, nChange, hchange, -⟩, -⟩, hcheck, -⟩ :=
    createRound_cases havailable h
  obtain ⟨hsum, hnonneg⟩ := sumAmounts_eq_ok hnValue
  rw [zero_add] at hsum
  have hextra := hchange.extra_nonneg
  obtain ⟨txNew, -, ⟨-, hdone⟩ | ⟨hmore, hnext⟩⟩ := checkFee_eq_ok hcheck
  · cases hdone
  · cases hnext
    refine ⟨by dsimp only; omega, ?_⟩
    have hvalue0 : 0 ≤ nValue := by
      rw [hsum]
      apply List.sum_nonneg
      intro n hn
      obtain ⟨r, hr, rfl⟩ := List.mem_map.mp hn
      exact hnonneg r hr
    by_cases hk : countFeePayers args.vecSend = 0
    · rw [valueToSelect, if_pos hk] at hselect
      have hrange := inInt64_of_checkInt64 hselect
      unfold InInt64 at hrange
      rw [hk]
      omega
    · have hle := fee_le_of_filled hfee (Nat.pos_of_ne_zero hk) hpaid (Nat.pos_of_ne_zero hk) hnonneg
      rw [← hsum] at hle
      omega

end Rounds

/-! ## The coins a selection starts from -/

variable {w : CWallet}

theorem getOutputsFromCoinControl_eq_ok : ∀ {inputs : List COutPoint} {coins : List COutput},
    w.getOutputsFromCoinControl inputs = .ok coins →
    ((coins.map COutput.toWalletCoin).map WalletCoin.outPoint).Sublist inputs ∧
      ∀ coin ∈ coins.map COutput.toWalletCoin, w.txs.Holds coin
  | [], coins, h => by
    cases h
    exact ⟨.slnil, fun _ hcoin => by cases hcoin⟩
  | outPoint :: inputs, coins, h => by
    unfold CWallet.getOutputsFromCoinControl at h
    split at h
    · obtain ⟨hsub, hheld⟩ := getOutputsFromCoinControl_eq_ok h
      exact ⟨hsub.cons _, hheld⟩
    · rename_i tx htx
      split at h
      · rename_i hlt
        obtain ⟨rest, hrest, h⟩ := bind_eq_ok.mp h
        cases h
        obtain ⟨hsub, hheld⟩ := getOutputsFromCoinControl_eq_ok hrest
        have hhash := w.txs.hash_eq htx
        have hout : WalletCoin.outPoint ⟨tx, outPoint.n, hlt⟩ = outPoint := by
          simp only [WalletCoin.outPoint, hhash]
        refine ⟨?_, List.forall_mem_cons.mpr ⟨?_, hheld⟩⟩
        · rw [List.map_cons, List.map_cons, hout]
          exact hsub.cons_cons _
        · unfold WalletTxs.Holds
          rw [hhash, htx]
      · cases h

theorem selectionCoins_spendable {coinControl : Option CCoinControl} {coins : List COutput}
    (h : w.selectionCoins coinControl = .ok coins) : w.txs.Spendable (coins.map COutput.toWalletCoin) := by
  unfold CWallet.selectionCoins at h
  split at h
  · obtain ⟨hsub, hheld⟩ := getOutputsFromCoinControl_eq_ok h
    refine ⟨List.Nodup.sublist hsub ?_, hheld⟩
    cases coinControl with
    | none => exact List.nodup_nil
    | some cc => exact cc.selected_nodup
  · cases h
    exact w.available

/-! ## `CreateTransaction` -/

theorem signInputs_prevout {produce : Nat → WalletCoin → Option CScript} {coins : List WalletCoin} {vin : List CTxIn}
    (h : signInputs produce coins = some vin) : vin.map CTxIn.prevout = coins.map WalletCoin.outPoint := by
  have hgeneral : ∀ {entries : List (WalletCoin × Nat)} {vin : List CTxIn},
      (entries.mapM fun e => (produce e.2 e.1).map fun scriptSig =>
        (⟨e.1.outPoint, scriptSig, SEQUENCE_FINAL⟩ : CTxIn)) = some vin →
      vin.map CTxIn.prevout = (entries.map Prod.fst).map WalletCoin.outPoint := by
    intro entries
    induction entries with
    | nil =>
      intro vin h
      cases h
      rfl
    | cons e entries ih =>
      intro vin h
      rw [List.mapM_cons] at h
      obtain ⟨txin, htxin, h⟩ := Option.bind_eq_some_iff.mp h
      obtain ⟨rest, hrest, h⟩ := Option.bind_eq_some_iff.mp h
      cases h
      obtain ⟨scriptSig, -, rfl⟩ := Option.map_eq_some_iff.mp htxin
      rw [List.map_cons, List.map_cons, List.map_cons, ih hrest]
  rw [hgeneral h, List.zipIdx_map_fst]

variable {args : CreateArgs} {created : CreatedTx}

/-- The transaction that is returned has the inputs and outputs that the loop has built. -/
theorem finishTransaction_eq_ok {built : BuiltTx} (h : finishTransaction w args built = .ok created) :
    created.txRet.vin.map CTxIn.prevout = built.setCoins.map WalletCoin.outPoint ∧ created.txRet.vout = built.vout ∧
      created.nFeeRet = built.nFeeRet ∧ created.nChangePosInOut = built.nChangePosInOut := by
  rw [finishTransaction, bind_eq_ok] at h
  obtain ⟨_, _, h⟩ := h
  obtain ⟨vin, hvin, h⟩ : ∃ vin : List CTxIn, vin.map CTxIn.prevout = built.setCoins.map WalletCoin.outPoint ∧
      (do
        let txNew := newTransaction vin built.vout
        rejectIf (decide (txNew.getTotalSize ≥ MAX_STANDARD_TX_SIZE)) (.returnsFalse "Transaction too large")
        let txRet := w.makeTransaction txNew
        rejectIf (!w.withinChainLimits txRet) (.returnsFalse "Transaction has too long of a mempool chain")
        return ⟨txRet, built.nFeeRet, built.nChangePosInOut⟩) = (.ok created : Except WalletError CreatedTx) := by
    dsimp only at h
    split at h
    · split at h
      · cases h
      · rename_i vin hsign
        exact ⟨vin, signInputs_prevout hsign, h⟩
    · refine ⟨_, ?_, h⟩
      simp [newTransaction, unsignedInputs, Function.comp_def]
  obtain ⟨_, _, h⟩ := bind_eq_ok.mp h
  obtain ⟨_, _, h⟩ := bind_eq_ok.mp h
  cases h
  exact ⟨hvin, rfl, rfl, rfl⟩

/-- A transaction of the wallet accounts for every base unit: it spends the coins `setCoins`, pays the recipients with
    the fee `f`, and the change goes to an output or, as dust, to the fee. -/
structure Accounts (w : CWallet) (args : CreateArgs) (created : CreatedTx) (setCoins : List WalletCoin) (f nChange : Int) :
    Prop where
  /-- The inputs are pairwise distinct coins of the wallet. -/
  coins : w.txs.Spendable setCoins
  inputs : created.txRet.vin.map CTxIn.prevout = setCoins.map WalletCoin.outPoint
  fee : totalValue setCoins - outputsValue created.txRet.vout = created.nFeeRet
  /-- The fee is enough for the size with dummy signatures. -/
  enough : ∃ txNew, w.dummySigned setCoins created.txRet.vout = some txNew ∧
    feeNeeded w.fees args.coinControl args.nFeePay (feeBytes txNew args.nExtraSize) ≤ created.nFeeRet
  outputs : ChangePaid w.fees.dustRelayFee args.coinControl args.nChangePosInOut (paidOutputs args.vecSend f) nChange
    (created.nFeeRet - f) created.txRet.vout created.nChangePosInOut

theorem accounts_of_built {nValue f : Int} {s : FeeState} {built : BuiltTx}
    (hnValue : sumAmounts 0 args.vecSend = .ok nValue) (hbuilt : RoundBuilt w args nValue f built)
    (hfee : checkFee w args s built = .ok (.done built)) (hfinish : finishTransaction w args built = .ok created) :
    ∃ nChange, Accounts w args created built.setCoins f nChange := by
  obtain ⟨⟨paid, hpaid, nChange, hchange, htotal⟩, hcoins⟩ := hbuilt
  obtain ⟨hvin, hvout, hfeeRet, hpos⟩ := finishTransaction_eq_ok hfinish
  have hpaidEq := fillOutputs_eq_paidOutputs hpaid
  refine ⟨nChange, hcoins, hvin, ?_, ?_, ?_⟩
  · have houts := hchange.outputsValue_eq
    have hsum := outputsValue_paidOutputs args.vecSend f
    rw [← hpaidEq] at hsum
    have hvalue := (sumAmounts_eq_ok hnValue).1
    rw [hvout, hfeeRet, htotal]
    split at hsum <;> rename_i hk <;> simp only [hk, if_true, if_false] <;> omega
  · obtain ⟨txNew, htx, ⟨henough, -⟩ | ⟨-, hnext⟩⟩ := checkFee_eq_ok hfee
    · rw [hvout, hfeeRet]
      exact ⟨txNew, htx, henough⟩
    · cases hnext
  · rw [hvout, hfeeRet, hpos, ← hpaidEq]
    exact hchange

section Main

variable {w : CWallet} {args : CreateArgs} {chance : Nat → RoundChance}

variable {created : CreatedTx}

/-- What a call that returns `true` has done: the last round of the loop, with the fee `s.nFeeRet` it started from. -/
theorem createTransaction_eq_ok {fuel : Nat} (h : createTransaction w args chance fuel = .ok (some created)) :
    ∃ vAvailableCoins nValue s built, sumAmounts 0 args.vecSend = .ok nValue ∧
      w.selectionCoins args.coinControl = .ok vAvailableCoins ∧
      createRound w args chance vAvailableCoins nValue s = .ok (.done built) ∧
      finishTransaction w args built = .ok created := by
  rw [createTransaction, bind_eq_ok] at h
  obtain ⟨nValue, hnValue, h⟩ := h
  obtain ⟨_, _, h⟩ := bind_eq_ok.mp h
  obtain ⟨vAvailableCoins, hav, h⟩ := bind_eq_ok.mp h
  obtain ⟨built?, hloop, h⟩ := bind_eq_ok.mp h
  cases built? with
  | none => cases h
  | some built =>
    obtain ⟨created', hfinish, heq⟩ := map_eq_ok.mp h
    cases heq
    obtain ⟨s, -, hround⟩ := whileLoop_done (fun _ => True) (fun _ _ _ _ => trivial) trivial hloop
    exact ⟨vAvailableCoins, nValue, s, built, hnValue, checked_eq_ok.mp hav, hround, hfinish⟩

theorem createRounds_terminate (chance : Nat → RoundChance) {vAvailableCoins : List COutput} {nValue : Int}
    (hnValue : sumAmounts 0 args.vecSend = .ok nValue) (hav : w.selectionCoins args.coinControl = .ok vAvailableCoins)
    {s : FeeState} (hs : 0 ≤ s.nFeeRet) :
    ∃ fuel, whileLoop (createRound w args chance vAvailableCoins nValue) fuel s ≠ .ok none := by
  refine ⟨_, whileLoop_ne_none (fun s => 0 ≤ s.nFeeRet)
    (fun s => (9223372036854775807 + countFeePayers args.vecSend * nValue + 1 - s.nFeeRet).toNat)
    (fun s s' hs h => ?_) hs (Nat.lt_succ_self _)⟩
  obtain ⟨hlt, hle⟩ := createRound_next (selectionCoins_spendable hav) hnValue hs h
  omega

theorem createTransaction_terminates : ∃ fuel, createTransaction w args chance fuel ≠ .ok none := by
  cases hnValue : sumAmounts 0 args.vecSend with
  | error e => exact ⟨0, by simp [createTransaction, hnValue]⟩
  | ok nValue =>
    cases hav : w.selectionCoins args.coinControl with
    | error e =>
      refine ⟨0, fun h => ?_⟩
      rw [createTransaction, hnValue, ok_bind, bind_eq_ok] at h
      obtain ⟨_, _, h⟩ := h
      rw [hav] at h
      cases h
    | ok vAvailableCoins =>
      have hstart : 0 ≤ (⟨if args.nFeePay > 0 then args.nFeePay else 0, 0⟩ : FeeState).nFeeRet := by
        dsimp only
        split <;> omega
      obtain ⟨fuel, hloop⟩ := createRounds_terminate chance hnValue hav hstart
      refine ⟨fuel, fun h => ?_⟩
      rw [createTransaction, hnValue, ok_bind, bind_eq_ok] at h
      obtain ⟨_, _, h⟩ := h
      obtain ⟨coins, hcoins, h⟩ := bind_eq_ok.mp h
      obtain rfl : vAvailableCoins = coins := by
        rw [checked_eq_ok, hav] at hcoins
        exact Except.ok.inj hcoins
      obtain ⟨built?, hbuilt, h⟩ := bind_eq_ok.mp h
      cases built? with
      | none => exact hloop hbuilt
      | some built =>
        obtain ⟨_, _, heq⟩ := map_eq_ok.mp h
        cases heq

/-- A call that returns `true` accounts for every base unit, and spends what the caller has selected. -/
theorem accounts_of_created {fuel : Nat} (h : createTransaction w args chance fuel = .ok (some created)) :
    ∃ setCoins f nChange, Accounts w args created setCoins f nChange ∧
      ∀ cc, args.coinControl = some cc → onlySelected (some cc) = false →
        cc.setSelected ⊆ setCoins.map WalletCoin.outPoint := by
  obtain ⟨vAvailableCoins, nValue, s, built, hnValue, hav, hround, hfinish⟩ := createTransaction_eq_ok h
  obtain ⟨-, built', hbuilt, hcheck, setCoins, nValueIn, hselect, horder⟩ :=
    createRound_cases (selectionCoins_spendable hav) hround
  obtain rfl : built' = built := by
    obtain ⟨txNew, -, ⟨-, hdone⟩ | ⟨-, hnext⟩⟩ := checkFee_eq_ok hcheck
    · cases hdone
      rfl
    · cases hnext
  obtain ⟨nChange, haccounts⟩ := accounts_of_built hnValue hbuilt hcheck hfinish
  refine ⟨built'.setCoins, s.nFeeRet, nChange, haccounts, fun cc hcc honly => ?_⟩
  rw [hcc] at hselect
  have hperm : (built'.setCoins.map WalletCoin.outPoint).Perm (setCoins.map WalletCoin.outPoint) := by
    rw [horder]
    exact (w.setOrder_perm setCoins).map _
  exact fun outPoint hout => hperm.symm.subset (setSelected_subset_selected honly hselect hout)

/-- **A transaction built by the wallet accounts for every base unit.** The fee loop comes to an end, and if
    `CreateTransaction` returns `true`, its inputs are distinct coins of the wallet, the inputs without the outputs
    leave the fee, the fee is enough for the size with dummy signatures, every recipient is paid its amount without its
    share of a fee `f`, and the change is one more output, or is added to an output with the change script, or is dust
    and the difference to `f`. -/
theorem createTransaction_accounts (w : CWallet) (args : CreateArgs) (chance : Nat → RoundChance) :
    (∃ fuel, createTransaction w args chance fuel ≠ .ok none) ∧
      ∀ fuel created, createTransaction w args chance fuel = .ok (some created) →
        ∃ setCoins f nChange, Accounts w args created setCoins f nChange := by
  refine ⟨createTransaction_terminates, fun fuel created h => ?_⟩
  obtain ⟨setCoins, f, nChange, haccounts, -⟩ := accounts_of_created h
  exact ⟨setCoins, f, nChange, haccounts⟩

end Main

/-! A wallet with one coin pays a recipient that bears the fee. -/

/-- A transaction that pays five coins to `[OP_1]`. -/
def walletTx : CTransaction := { newTransaction [] [⟨500000000, [0x51]⟩] with hash := 1 }

def walletTxs : WalletTxs where
  mapWallet hash := if hash = 1 then some walletTx else none
  hash_eq := by
    intro hash tx h
    split at h
    · rename_i heq
      cases h
      exact heq.symm
    · cases h

def walletCoin : COutput := ⟨⟨walletTx, 0, by decide⟩, 10, true, true, none⟩

def sampleWallet : CWallet where
  txs := walletTxs
  opts := ⟨true, 25⟩
  fees := ⟨0, 10000, 10000, 30000, 100000000, 0, false⟩
  vAvailableCoins := [walletCoin]
  available := ⟨by decide, fun coin hcoin => by
    obtain rfl : coin = walletCoin.toWalletCoin := by simpa using hcoin
    rfl⟩
  setOrder coins := coins
  setOrder_perm coins := .refl coins
  dummySignature _ := some [0x51]
  produceSignature _ _ _ := some []
  withinChainLimits _ := true
  serializeHash _ := 2

/-- Nothing is shuffled, and no bit is set. -/
def calmChance (_ : Nat) : RoundChance where
  coins _ := ⟨id, List.Perm.refl, fun _ _ => false, fun _ _ => false⟩
  reservedKey := some [0x52]
  nRand := 0

/-- One coin for a recipient that pays the fee. -/
def sampleArgs : CreateArgs := { vecSend := [⟨[0x53], 100000000, true⟩] }

theorem createTransaction_accounts_sample :
    ∃ created, createTransaction sampleWallet sampleArgs calmChance 2 = .ok (some created) ∧
      ∃ setCoins f nChange, Accounts sampleWallet sampleArgs created setCoins f nChange := by
  obtain ⟨created, hcreated⟩ : ∃ created, createTransaction sampleWallet sampleArgs calmChance 2 = .ok (some created) :=
    exists_ok_some (by decide +kernel)
  exact ⟨created, hcreated, (createTransaction_accounts sampleWallet sampleArgs calmChance).2 2 created hcreated⟩

end KrovaCoin
