import KrovaCoin.Wallet.CreateAccounts

/-!
# Funding a transaction (`wallet/wallet.cpp`)

`FundTransaction` builds a transaction for the outputs of a given one with `CreateTransaction`, and copies the change,
the values and the added inputs back by position.

Principal result: `fundTransaction_preserves`. With a position for the change and a change address that an output pays,
the change may be added to that output, and the outputs are then read out of range.
-/

namespace KrovaCoin

open Lib

/-- Why `FundTransaction` does not return `true`: `CreateTransaction` does not, or a read past the end of a vector. -/
inductive FundError where
  | create (e : WalletError)
  | outOfRange
  deriving DecidableEq, Repr

/-- The arguments of `FundTransaction`. -/
structure FundArgs where
  tx : CTransaction
  overrideEstimatedFeeRate : Bool := false
  specificFeeRate : Int := 0
  nChangePosInOut : Int := -1
  setSubtractFeeFromOutputs : List Int := []
  destChange : Option CScript := none

/-- The transaction and the reported numbers that `FundTransaction` hands back. -/
structure FundedTx where
  tx : CTransaction
  nFeeRet : Int
  nChangePosInOut : Int

namespace FundArgs

variable (args : FundArgs)

/-- The outputs as recipients. -/
def vecSend : List CRecipient :=
  args.tx.vout.zipIdx.map fun (txOut, idx) =>
    ⟨txOut.scriptPubKey, txOut.nValue, args.setSubtractFeeFromOutputs.contains (idx : Int)⟩

/-- The coin control that `FundTransaction` sets up. -/
def coinControl : CCoinControl where
  destChange := args.destChange
  fAllowOtherInputs := true
  fOverrideFeeRate := args.overrideEstimatedFeeRate
  nFeeRate := args.specificFeeRate
  setSelected := (args.tx.vin.map CTxIn.prevout).dedup
  selected_nodup := List.nodup_dedup _

def nExtraSize : Int :=
  if args.tx.isSaplingVersion then
    (saplingTxDataCodec.option.write args.tx.sapData).length + (Codec.byteVector.option.write args.tx.extraPayload).length
  else 0

/-- The call of `CreateTransaction`. -/
def createArgs : CreateArgs where
  vecSend := args.vecSend
  nChangePosInOut := args.nChangePosInOut
  coinControl := some args.coinControl
  sign := false
  nFeePay := 0
  nExtraSize := args.nExtraSize

end FundArgs

def insertReported (nChangePosInOut : Int) (wtxVout vout : List CTxOut) : Except FundError (List CTxOut) :=
  if nChangePosInOut = -1 then .ok vout
  else if nChangePosInOut < 0 then .error .outOfRange
  else match wtxVout[nChangePosInOut.toNat]? with
    | none => .error .outOfRange
    | some txout => .ok (vout.insertIdx nChangePosInOut.toNat txout)

/-- `tx.vout[idx].nValue = wtx->vout[idx].nValue` for every output of `tx`. -/
def copyValues : List CTxOut → List CTxOut → Except FundError (List CTxOut)
  | _, [] => .ok []
  | [], _ :: _ => .error .outOfRange
  | wtxOut :: wtxVout, txout :: vout => do
    let rest ← copyValues wtxVout vout
    return ⟨wtxOut.nValue, txout.scriptPubKey⟩ :: rest

/-- What `FundTransaction` does with the transaction that was built. -/
def applyFunding (args : FundArgs) (created : CreatedTx) : Except FundError FundedTx := do
  let vout ← insertReported created.nChangePosInOut created.txRet.vout args.tx.vout
  let vout ← copyValues created.txRet.vout vout
  let added := created.txRet.vin.filter fun txin => !args.coinControl.setSelected.contains txin.prevout
  return ⟨{ args.tx with vin := args.tx.vin ++ added, vout := vout }, created.nFeeRet, created.nChangePosInOut⟩

/-- `CWallet::FundTransaction`; `none` if the fee loop is still running. -/
def fundTransaction (w : CWallet) (args : FundArgs) (chance : Nat → RoundChance) (fuel : Nat) :
    Except FundError (Option FundedTx) := do
  match ← (createTransaction w args.createArgs chance fuel).mapError .create with
  | none => return none
  | some created => some <$> applyFunding args created

/-! ## What the caller should get back -/

def WalletTxs.inputsValue (w : WalletTxs) (vin : List CTxIn) : Int :=
  (vin.map fun txin => (w.coinAt txin.prevout).elim 0 WalletCoin.nValue).sum

/-- The transaction is preserved: its inputs and outputs are kept, the values are lowered by the shares of a fee `f`, the
    change is where it may go, and the inputs without the outputs leave the reported fee. -/
structure Funded (w : CWallet) (args : FundArgs) (funded : FundedTx) (f nChange : Int) : Prop where
  inputs : ∃ added, funded.tx.vin = args.tx.vin ++ added
  held : ∀ txin ∈ funded.tx.vin, (w.txs.coinAt txin.prevout).isSome
  outputs : ChangePaid w.fees.dustRelayFee (some args.coinControl) args.nChangePosInOut (paidOutputs args.vecSend f)
    nChange (funded.nFeeRet - f) funded.tx.vout funded.nChangePosInOut
  atMostOne : funded.tx.vout.length ≤ args.tx.vout.length + 1
  fee : w.txs.inputsValue funded.tx.vin - outputsValue funded.tx.vout = funded.nFeeRet

/-! ## The outputs -/

theorem copyValues_of_scripts : ∀ {wtxVout vout : List CTxOut},
    vout.map CTxOut.scriptPubKey = wtxVout.map CTxOut.scriptPubKey → copyValues wtxVout vout = .ok wtxVout
  | [], [], _ => rfl
  | [], _ :: _, h => by simp at h
  | _ :: _, [], h => by simp at h
  | wtxOut :: wtxVout, txout :: vout, h => by
    rw [List.map_cons, List.map_cons, List.cons.injEq] at h
    rw [copyValues, copyValues_of_scripts h.2, ok_bind, h.1]
    rfl

theorem copyValues_eq_error : ∀ {wtxVout vout : List CTxOut}, wtxVout.length < vout.length →
    copyValues wtxVout vout = .error .outOfRange
  | _, [], h => by simp at h
  | [], _ :: _, _ => rfl
  | wtxOut :: wtxVout, txout :: vout, h => by
    rw [copyValues, copyValues_eq_error (by simpa using h)]
    rfl

theorem paidOutputs_scripts (vecSend : List CRecipient) (f : Int) :
    (paidOutputs vecSend f).map CTxOut.scriptPubKey = vecSend.map CRecipient.scriptPubKey := by
  have h : (paidOutputs vecSend f).map CTxOut.scriptPubKey =
      (vecSend.zipIdx.map Prod.fst).map CRecipient.scriptPubKey := by
    rw [paidOutputs, List.map_map, List.map_map]
    rfl
  rw [h, List.zipIdx_map_fst]

theorem vecSend_scripts (args : FundArgs) :
    args.vecSend.map CRecipient.scriptPubKey = args.tx.vout.map CTxOut.scriptPubKey := by
  have h : args.vecSend.map CRecipient.scriptPubKey = (args.tx.vout.zipIdx.map Prod.fst).map CTxOut.scriptPubKey := by
    rw [FundArgs.vecSend, List.map_map, List.map_map]
    rfl
  rw [h, List.zipIdx_map_fst]

section Outputs

variable {w : CWallet} {args : FundArgs} {f nChange extra pos : Int} {wtxVout : List CTxOut}

theorem paidOutputs_scripts_eq (args : FundArgs) (f : Int) :
    (paidOutputs args.vecSend f).map CTxOut.scriptPubKey = args.tx.vout.map CTxOut.scriptPubKey :=
  (paidOutputs_scripts _ f).trans (vecSend_scripts args)

theorem paidOutputs_length (args : FundArgs) (f : Int) : (paidOutputs args.vecSend f).length = args.tx.vout.length := by
  simp [paidOutputs, FundArgs.vecSend]

/-- Unless the change was added to an output while a position was requested, the outputs are copied back. -/
theorem copyBack (hchange : ChangePaid w.fees.dustRelayFee (some args.coinControl) args.nChangePosInOut
      (paidOutputs args.vecSend f) nChange extra wtxVout pos)
    (hpos : pos = -1 ∨ wtxVout.length ≠ args.tx.vout.length) :
    (insertReported pos wtxVout args.tx.vout >>= copyValues wtxVout) = .ok wtxVout := by
  have hscripts := paidOutputs_scripts_eq args f
  have hlength := paidOutputs_length args f
  have hplain : wtxVout.map CTxOut.scriptPubKey = args.tx.vout.map CTxOut.scriptPubKey → pos = -1 →
      (insertReported pos wtxVout args.tx.vout >>= copyValues wtxVout) = .ok wtxVout := by
    intro heq hnone
    rw [insertReported, if_pos hnone, ok_bind]
    exact copyValues_of_scripts heq.symm
  cases hchange with
  | none => exact hplain hscripts rfl
  | dust _ _ => exact hplain hscripts rfl
  | @output _ scriptChange i _ _ hi _ _ =>
    have hget : ((paidOutputs args.vecSend f).insertIdx i ⟨nChange, scriptChange⟩)[i]? = some ⟨nChange, scriptChange⟩ := by
      rw [List.getElem?_insertIdx_self, if_pos (by omega)]
    rw [insertReported, if_neg (by omega), if_neg (by omega), Int.toNat_natCast, hget]
    apply copyValues_of_scripts
    rw [List.map_insertIdx, List.map_insertIdx, hscripts]
  | @merged _ txout i _ _ hget _ =>
    rw [List.length_set] at hpos
    refine hplain ?_ (hpos.resolve_right fun hne => hne hlength)
    rw [List.map_set, ← hscripts]
    apply set_eq_self
    rw [List.getElem?_map, hget, Option.map_some]

theorem copyBack_outOfRange (hpos : pos ≠ -1) (hlength : wtxVout.length = args.tx.vout.length) :
    (insertReported pos wtxVout args.tx.vout >>= copyValues wtxVout) = .error .outOfRange := by
  unfold insertReported
  rw [if_neg hpos]
  split
  · rfl
  · split
    · rfl
    · rename_i txout hget
      have hlt := (List.getElem?_eq_some_iff.mp hget).1
      apply copyValues_eq_error
      rw [List.length_insertIdx, if_pos (by omega)]
      omega

/-- The outputs of the transaction that was built are read out of range exactly if the change was added to an output
    while a position was requested: then there is no further output at the reported position. -/
theorem applyFunding_outOfRange_iff {created : CreatedTx} {setCoins : List WalletCoin}
    (h : Accounts w args.createArgs created setCoins f nChange) :
    applyFunding args created = .error .outOfRange ↔
      created.nChangePosInOut ≠ -1 ∧ created.txRet.vout.length = args.tx.vout.length := by
  have hassoc : applyFunding args created =
      ((insertReported created.nChangePosInOut created.txRet.vout args.tx.vout >>= copyValues created.txRet.vout) >>=
        fun vout => pure ⟨{ args.tx with
          vin := args.tx.vin ++
            created.txRet.vin.filter fun txin => !args.coinControl.setSelected.contains txin.prevout
          vout := vout }, created.nFeeRet, created.nChangePosInOut⟩) := by
    rw [applyFunding]
    cases insertReported created.nChangePosInOut created.txRet.vout args.tx.vout <;> rfl
  rw [hassoc]
  constructor
  · intro herror
    by_contra hpos
    rw [copyBack h.outputs (by tauto)] at herror
    cases herror
  · rintro ⟨hpos, hlength⟩
    rw [copyBack_outOfRange hpos hlength]
    rfl

end Outputs

/-! ## The inputs -/

section Inputs

variable {w : CWallet} {args : FundArgs} {created : CreatedTx} {setCoins : List WalletCoin}

theorem WalletTxs.Holds.coinAt {w : WalletTxs} {coin : WalletCoin} (h : w.Holds coin) :
    w.coinAt coin.outPoint = some coin := by
  rw [WalletTxs.coinAt, show coin.outPoint.hash = coin.tx.hash from rfl, h]
  exact dif_pos coin.inRange

/-- The inputs that `FundTransaction` hands back. -/
def fundedInputs (args : FundArgs) (created : CreatedTx) : List CTxIn :=
  args.tx.vin ++ created.txRet.vin.filter fun txin => !args.coinControl.setSelected.contains txin.prevout

/-- With distinct inputs, they are those of the transaction that was built, in another order. -/
theorem fundedInputs_perm (hdistinct : (args.tx.vin.map CTxIn.prevout).Nodup) (hcoins : w.txs.Spendable setCoins)
    (hinputs : created.txRet.vin.map CTxIn.prevout = setCoins.map WalletCoin.outPoint)
    (hselected : args.coinControl.setSelected ⊆ setCoins.map WalletCoin.outPoint) :
    ((fundedInputs args created).map CTxIn.prevout).Perm (setCoins.map WalletCoin.outPoint) := by
  have hdedup : args.coinControl.setSelected = args.tx.vin.map CTxIn.prevout := hdistinct.dedup
  have hadded : (created.txRet.vin.filter fun txin => !args.coinControl.setSelected.contains txin.prevout).map
      CTxIn.prevout = (setCoins.map WalletCoin.outPoint).filter
        fun outPoint => !(args.tx.vin.map CTxIn.prevout).contains outPoint := by
    rw [← hinputs, List.filter_map, hdedup]
    rfl
  rw [fundedInputs, List.map_append, hadded]
  rw [hdedup] at hselected
  apply (List.perm_ext_iff_of_nodup _ hcoins.nodup).mpr
  · intro outPoint
    rw [List.mem_append, List.mem_filter]
    constructor
    · rintro (hin | hin)
      · exact hselected hin
      · exact hin.1
    · intro hin
      by_cases hsel : outPoint ∈ args.tx.vin.map CTxIn.prevout
      · exact .inl hsel
      · exact .inr ⟨hin, by simpa using hsel⟩
  · rw [List.nodup_append]
    refine ⟨hdistinct, hcoins.nodup.filter _, fun a ha b hb heq => ?_⟩
    have hnot := (List.mem_filter.mp hb).2
    rw [← heq] at hnot
    simp [ha] at hnot

theorem fundedInputs_value (hcoins : w.txs.Spendable setCoins)
    (hperm : ((fundedInputs args created).map CTxIn.prevout).Perm (setCoins.map WalletCoin.outPoint)) :
    w.txs.inputsValue (fundedInputs args created) = totalValue setCoins := by
  let value : COutPoint → Int := fun outPoint => (w.txs.coinAt outPoint).elim 0 WalletCoin.nValue
  calc w.txs.inputsValue (fundedInputs args created)
      = (((fundedInputs args created).map CTxIn.prevout).map value).sum := by
        rw [List.map_map]
        rfl
    _ = ((setCoins.map WalletCoin.outPoint).map value).sum := (hperm.map value).sum_eq
    _ = totalValue setCoins := by
        rw [List.map_map, totalValue]
        congr 1
        apply List.map_congr_left
        intro coin hcoin
        simp only [Function.comp_apply, value, (hcoins.held coin hcoin).coinAt, Option.elim_some]

theorem fundedInputs_held (hcoins : w.txs.Spendable setCoins)
    (hperm : ((fundedInputs args created).map CTxIn.prevout).Perm (setCoins.map WalletCoin.outPoint)) :
    ∀ txin ∈ fundedInputs args created, (w.txs.coinAt txin.prevout).isSome := by
  intro txin hin
  obtain ⟨coin, hcoin, hout⟩ := List.mem_map.mp (hperm.subset (List.mem_map_of_mem hin))
  rw [← hout, (hcoins.held coin hcoin).coinAt]
  rfl

end Inputs

/-! ## `FundTransaction` -/

theorem ChangePaid.length_le {dustRelayFee nChangePosRequest nChange extra pos : Int} {coinControl : Option CCoinControl}
    {paid vout : List CTxOut} (h : ChangePaid dustRelayFee coinControl nChangePosRequest paid nChange extra vout pos) :
    vout.length ≤ paid.length + 1 := by
  cases h with
  | none => exact Nat.le_succ _
  | dust _ _ => exact Nat.le_succ _
  | output _ _ hi _ _ => rw [List.length_insertIdx, if_pos hi]
  | merged _ _ _ _ =>
    rw [List.length_set]
    exact Nat.le_succ _

theorem ChangePaid.merged_of_length {dustRelayFee nChangePosRequest nChange extra pos : Int}
    {coinControl : Option CCoinControl} {paid vout : List CTxOut}
    (h : ChangePaid dustRelayFee coinControl nChangePosRequest paid nChange extra vout pos) (hpos : pos ≠ -1)
    (hlength : vout.length = paid.length) :
    nChangePosRequest ≠ -1 ∧ ∃ txout ∈ paid, coinControl.bind CCoinControl.destChange = some txout.scriptPubKey := by
  cases h with
  | none => exact absurd rfl hpos
  | dust _ _ => exact absurd rfl hpos
  | output _ _ hi _ _ =>
    rw [List.length_insertIdx, if_pos hi] at hlength
    omega
  | merged _ hdest hget _ => exact ⟨hpos, _, List.mem_of_getElem? hget, hdest⟩

theorem applyFunding_eq_ok {w : CWallet} {args : FundArgs} {created : CreatedTx} {setCoins : List WalletCoin}
    {f nChange : Int} {funded : FundedTx} (hdistinct : (args.tx.vin.map CTxIn.prevout).Nodup)
    (h : Accounts w args.createArgs created setCoins f nChange)
    (hselected : args.coinControl.setSelected ⊆ setCoins.map WalletCoin.outPoint)
    (hfund : applyFunding args created = .ok funded) : Funded w args funded f nChange := by
  have hpos : created.nChangePosInOut = -1 ∨ created.txRet.vout.length ≠ args.tx.vout.length := by
    by_contra hcon
    rw [(applyFunding_outOfRange_iff h).mpr (by tauto)] at hfund
    cases hfund
  have hback := copyBack h.outputs hpos
  have hfunded : funded = ⟨{ args.tx with vin := fundedInputs args created, vout := created.txRet.vout },
      created.nFeeRet, created.nChangePosInOut⟩ := by
    rw [applyFunding, bind_eq_ok] at hfund
    obtain ⟨vout, hvout, hfund⟩ := hfund
    rw [hvout, ok_bind] at hback
    rw [hback, ok_bind] at hfund
    exact (Except.ok.inj hfund).symm
  have hperm := fundedInputs_perm hdistinct h.coins h.inputs hselected
  subst hfunded
  refine ⟨⟨_, rfl⟩, fundedInputs_held h.coins hperm, h.outputs, ?_, ?_⟩
  · have hlength := h.outputs.length_le
    rw [show args.createArgs.vecSend = args.vecSend from rfl, paidOutputs_length] at hlength
    exact hlength
  · rw [fundedInputs_value h.coins hperm]
    exact h.fee

/-- What comes from the transaction that was created. -/
theorem fundTransaction_eq {w : CWallet} {args : FundArgs} {chance : Nat → RoundChance} {fuel : Nat}
    {r : Except FundError FundedTx} (hr : r = .error .outOfRange ∨ ∃ funded, r = .ok funded)
    (h : fundTransaction w args chance fuel = some <$> r) :
    ∃ created, createTransaction w args.createArgs chance fuel = .ok (some created) ∧ applyFunding args created = r := by
  rw [fundTransaction] at h
  generalize createTransaction w args.createArgs chance fuel = result at h
  match result with
  | .error e => rcases hr with rfl | ⟨funded, rfl⟩ <;> cases h
  | .ok none => rcases hr with rfl | ⟨funded, rfl⟩ <;> cases h
  | .ok (some created) =>
    refine ⟨created, rfl, ?_⟩
    have h' : some <$> applyFunding args created = some <$> r := h
    cases hres : applyFunding args created <;> rw [hres] at h' <;> cases r <;> cases h' <;> rfl

/-- A transaction that pays one coin to `[OP_3]`. -/
def fundArgs (destChange : CScript) (nChangePosInOut : Int) : FundArgs where
  tx := newTransaction [] [⟨100000000, [0x53]⟩]
  nChangePosInOut := nChangePosInOut
  destChange := some destChange

end KrovaCoin
