import KrovaCoin.Wallet.SaplingOperation

/-!
# The accounts of a shielded operation (`sapling/sapling_operation.cpp`)

* `SaplingOperation.sent` — each recipient with its amount less its share of the fee.

Principal result: `buildOperation_accounts`.
-/

namespace KrovaCoin

open Lib

/-! ## What the recipients should be sent -/

namespace SaplingOperation

def feePayers (op : SaplingOperation) : List Bool := op.recipients.map SendManyRecipient.fSubtractFeeFromAmount

/-- Each recipient with its amount less its share of the fee. -/
def sent (op : SaplingOperation) (f : Int) : List (SendManyRecipient × Int) :=
  op.recipients.zipIdx.map fun e => (e.1, e.1.nAmount - share op.feePayers f e.2)

end SaplingOperation

def transparentOut (e : SendManyRecipient × Int) : Option CTxOut :=
  match e.1.dest with
  | .transparent scriptPubKey => some ⟨e.2, scriptPubKey⟩
  | .shielded _ _ => none

def shieldedOut (e : SendManyRecipient × Int) : Option (SaplingPaymentAddress × Int) :=
  match e.1.dest with
  | .transparent _ => none
  | .shielded address _ => some (address, e.2)

section Sent

variable {op : SaplingOperation} {f : Int}

theorem sum_sent_split (es : List (SendManyRecipient × Int)) :
    ((es.filterMap transparentOut).map CTxOut.nValue).sum + ((es.filterMap shieldedOut).map Prod.snd).sum =
      (es.map Prod.snd).sum := by
  induction es with
  | nil => rfl
  | cons e es ih =>
    obtain ⟨⟨dest, amount, flag⟩, value⟩ := e
    cases dest with
    | transparent script =>
      simp only [List.filterMap_cons, transparentOut, shieldedOut, List.map_cons, List.sum_cons]
      omega
    | shielded address memo =>
      simp only [List.filterMap_cons, transparentOut, shieldedOut, List.map_cons, List.sum_cons]
      omega

theorem sent_le (hf : 0 ≤ f) {e : SendManyRecipient × Int} (he : e ∈ op.sent f) :
    e.1 ∈ op.recipients ∧ e.2 ≤ e.1.nAmount := by
  obtain ⟨⟨t, i⟩, hmem, rfl⟩ := List.mem_map.mp he
  have hnonneg := share_nonneg op.feePayers hf i
  have ht := List.mem_of_getElem? (List.mk_mem_zipIdx_iff_getElem?.mp hmem)
  exact ⟨ht, by dsimp only; omega⟩

end Sent

/-! ## The outputs of the builder -/

structure OutputsAdded (b b' : TransactionBuilder) (es : List (SendManyRecipient × Int)) : Prop where
  vout : b'.vout = b.vout ++ es.filterMap transparentOut
  outputs : b'.outputs.map OutputDescriptionInfo.note = b.outputs.map OutputDescriptionInfo.note ++
    (es.filterMap shieldedOut).map fun e => ⟨e.1, noteValue e.2⟩
  valueBalance : b'.valueBalance = b.valueBalance - ((es.filterMap shieldedOut).map Prod.snd).sum
  spends : b'.spends = b.spends
  tIns : b'.tIns = b.tIns

section Outputs

variable {env : OperationEnv} {ovk : Uint256} {f : Int} {k : Nat} {b b' : TransactionBuilder}

variable {fFirst : Bool} {t : SendManyRecipient}

theorem sentAmount_eq_ok {amount : Int} (h : sentAmount f k fFirst t = .ok amount) :
    amount = t.nAmount - if t.fSubtractFeeFromAmount then f / k + if fFirst then f % k else 0 else 0 := by
  unfold sentAmount at h
  split at h
  · rename_i hpays
    rw [if_pos hpays, subtractFee_eq_ok h]
  · rename_i hfree
    cases h
    rw [if_neg hfree]
    omega

variable {recipients : List SendManyRecipient}

theorem addOutputs_cons_eq_ok (h : addOutputs env ovk f k fFirst (t :: recipients) b = .ok b') :
    ∃ b1, addOutputs env ovk f k (fFirst && !t.fSubtractFeeFromAmount) recipients b1 = .ok b' ∧
      OutputsAdded b b1 [(t, t.nAmount - if t.fSubtractFeeFromAmount then f / k + if fFirst then f % k else 0 else 0)] := by
  rw [addOutputs, bind_eq_ok] at h
  obtain ⟨amount, hamount, h⟩ := h
  rw [← sentAmount_eq_ok (operating_eq_ok.mp hamount)]
  obtain ⟨dest, nAmount, flag⟩ := t
  cases dest with
  | transparent script =>
    obtain ⟨b1, hadd, h⟩ := bind_eq_ok.mp h
    refine ⟨b1, h, ?_⟩
    rw [TransactionBuilder.addTransparentOutput_eq_ok hadd]
    exact ⟨rfl, (List.append_nil _).symm, (Int.sub_zero _).symm, rfl, rfl⟩
  | shielded address memo =>
    simp only [bind_eq_ok] at h
    obtain ⟨-, -, vMemo, -, b1, hadd, h⟩ := h
    refine ⟨b1, h, ?_⟩
    rw [TransactionBuilder.addSaplingOutput_eq_ok hadd]
    exact ⟨(List.append_nil _).symm, by simp [shieldedOut], by simp [shieldedOut], rfl, rfl⟩

theorem OutputsAdded.trans {b1 : TransactionBuilder} {es es' : List (SendManyRecipient × Int)}
    (h : OutputsAdded b b1 es) (h' : OutputsAdded b1 b' es') : OutputsAdded b b' (es ++ es') where
  vout := by rw [h'.vout, h.vout, List.filterMap_append, List.append_assoc]
  outputs := by rw [h'.outputs, h.outputs, List.filterMap_append, List.map_append, List.append_assoc]
  valueBalance := by
    rw [h'.valueBalance, h.valueBalance, List.filterMap_append, List.map_append, List.sum_append]
    omega
  spends := h'.spends.trans h.spends
  tIns := h'.tIns.trans h.tIns

theorem addOutputs_added (h : addOutputs env ovk f k fFirst recipients b = .ok b') :
    OutputsAdded b b' (List.zipWith Prod.mk recipients
      (afterShares SendManyRecipient.fSubtractFeeFromAmount SendManyRecipient.nAmount f k fFirst recipients)) := by
  induction recipients generalizing fFirst b with
  | nil =>
    cases h
    exact ⟨(List.append_nil _).symm, (List.append_nil _).symm, (Int.sub_zero _).symm, rfl, rfl⟩
  | cons t recipients ih =>
    obtain ⟨b1, hrest, hadded⟩ := addOutputs_cons_eq_ok h
    exact hadded.trans (ih hrest)

/-- **The outputs are what the recipients should be sent.** -/
theorem addOutputs_eq_sent {op : SaplingOperation}
    (h : addOutputs env ovk f op.nSubtractFeeFromAmount true op.recipients b = .ok b') :
    OutputsAdded b b' (op.sent f) := by
  have hadded := addOutputs_added h
  rw [SaplingOperation.nSubtractFeeFromAmount, zipWith_afterShares] at hadded
  exact hadded

end Outputs

/-! ## The inputs of the builder -/

def coinsAt (mapWallet : Uint256 → Option CTransaction) (vCoins : List COutPoint) : List WalletCoin :=
  vCoins.filterMap fun outPoint =>
    match mapWallet outPoint.hash with
    | none => none
    | some tx => if h : outPoint.n.toNat < tx.vout.length then some ⟨tx, outPoint.n, h⟩ else none

def OperationWallet.spendableCoins (w : OperationWallet) (op : SaplingOperation) : List WalletCoin :=
  if op.hasSelected then coinsAt w.mapWallet (op.vCoins.map Prod.fst) else w.availableCoins

def OperationWallet.spendableNotes (w : OperationWallet) (op : SaplingOperation) : List SaplingNoteEntry :=
  if op.hasSelected then w.getNotes (op.vCoins.map Prod.fst) else w.getFilteredNotes op.mindepth

def notesValue (notes : List SaplingNoteEntry) : Int := (notes.map fun t => (t.note.value.toNat : Int)).sum

@[simp] theorem notesValue_nil : notesValue [] = 0 := rfl

@[simp] theorem notesValue_cons (t : SaplingNoteEntry) (notes : List SaplingNoteEntry) :
    notesValue (t :: notes) = t.note.value.toNat + notesValue notes := by
  simp [notesValue]

theorem notesValue_nonneg (notes : List SaplingNoteEntry) : 0 ≤ notesValue notes := by
  refine List.sum_nonneg fun v hv => ?_
  obtain ⟨t, -, rfl⟩ := List.mem_map.mp hv
  exact Int.natCast_nonneg _

/-- What the wallet can spend is worth a valid amount. -/
structure InputsInRange (p : Params) (w : OperationWallet) (op : SaplingOperation) : Prop where
  coins : ∀ coin ∈ w.spendableCoins op, 0 ≤ coin.nValue
  coinsTotal : totalValue (w.spendableCoins op) ≤ p.nMaxMoneyOut
  notesTotal : notesValue (w.spendableNotes op) ≤ p.nMaxMoneyOut

section Inputs

variable {env : OperationEnv} {w : OperationWallet} {op : SaplingOperation} {target dustThreshold : Int}

variable {coins selected : List WalletCoin} {amount : Int}

theorem selectUtxos_eq_ok {amount' dustChange dustChange' : Int}
    (h : selectUtxos target dustThreshold coins amount dustChange = .ok (selected, amount', dustChange')) :
    selected.Sublist coins ∧ amount' = amount + totalValue selected := by
  induction coins generalizing amount dustChange selected with
  | nil =>
    cases h
    exact ⟨List.Sublist.refl _, by simp⟩
  | cons t ts ih =>
    have hrest : ∀ {amount1 dustChange1 selected1}, amount1 = amount + t.nValue →
        selectUtxos target dustThreshold ts amount1 dustChange1 = .ok (selected1, amount', dustChange') →
        (t :: selected1).Sublist (t :: ts) ∧ amount' = amount + totalValue (t :: selected1) := by
      intro amount1 dustChange1 selected1 hamount hsel
      obtain ⟨hsub, hsum⟩ := ih hsel
      refine ⟨hsub.cons_cons t, ?_⟩
      rw [hsum, hamount, totalValue_cons]
      omega
    rw [selectUtxos, bind_eq_ok] at h
    obtain ⟨amount1, hamount, h⟩ := h
    have hamount := checkInt64_eq_ok hamount
    split at h
    · obtain ⟨dustChange1, -, h⟩ := bind_eq_ok.mp h
      split at h
      · cases h
        exact ⟨(List.nil_sublist ts).cons_cons t, by simpa using hamount⟩
      · obtain ⟨⟨selected1, rest⟩, hsel, h⟩ := bind_eq_ok.mp h
        cases h
        exact hrest hamount hsel
    · obtain ⟨⟨selected1, rest⟩, hsel, h⟩ := bind_eq_ok.mp h
      cases h
      exact hrest hamount hsel

theorem selectedUtxos_eq_ok {mapWallet : Uint256 → Option CTransaction} {vCoins : List COutPoint} {amount' : Int}
    (h : selectedUtxos mapWallet vCoins amount = .ok (selected, amount')) :
    selected = coinsAt mapWallet vCoins ∧ amount' = amount + totalValue selected := by
  induction vCoins generalizing amount selected with
  | nil =>
    cases h
    exact ⟨rfl, by simp⟩
  | cons outPoint vCoins ih =>
    unfold selectedUtxos at h
    split at h
    · rename_i hnone
      obtain ⟨hsel, hsum⟩ := ih h
      refine ⟨?_, hsum⟩
      rw [hsel, coinsAt, coinsAt, List.filterMap_cons, hnone]
    · rename_i tx hsome
      split at h
      · rename_i hrange
        simp only [bind_eq_ok] at h
        obtain ⟨amount1, hamount, ⟨selected1, amount2⟩, hsel, h⟩ := h
        cases h
        obtain ⟨hsel, hsum⟩ := ih hsel
        constructor
        · rw [hsel, coinsAt, coinsAt, List.filterMap_cons, hsome]
          simp only [dif_pos hrange]
        · rw [hsum, checkInt64_eq_ok hamount, totalValue_cons]
          dsimp only
          omega
      · cases h

/-- The value of the coins that are loaded is a valid amount that reaches the target. -/
theorem loadUtxos_eq_ok (h : loadUtxos env w op target = .ok (coins, amount)) (hrange : InputsInRange env.params w op) :
    amount = totalValue coins ∧ 0 ≤ totalValue coins ∧ totalValue coins ≤ env.params.nMaxMoneyOut := by
  have hspendable := hrange.coins
  have htotal := hrange.coinsTotal
  -- a part of what can be spent
  have hpart : ∀ {coins : List WalletCoin}, coins.Subperm (w.spendableCoins op) →
      0 ≤ totalValue coins ∧ totalValue coins ≤ env.params.nMaxMoneyOut := by
    intro coins hsub
    obtain ⟨l, hperm, hl⟩ := hsub
    have hnonneg : ∀ v ∈ (w.spendableCoins op).map WalletCoin.nValue, 0 ≤ v := List.forall_mem_map.mpr hspendable
    have hle := (hl.map WalletCoin.nValue).sum_le_sum hnonneg
    rw [← totalValue_perm hperm]
    exact ⟨List.sum_nonneg fun v hv => hnonneg v ((hl.map _).subset hv), hle.trans htotal⟩
  unfold loadUtxos at h
  split at h
  · rename_i hselected
    obtain ⟨hsel, hsum⟩ := selectedUtxos_eq_ok (operating_eq_ok.mp h)
    have hcoins : coins = w.spendableCoins op := by rw [hsel, OperationWallet.spendableCoins, if_pos hselected]
    exact ⟨by omega, hpart (hcoins ▸ List.Subperm.refl _)⟩
  · rename_i hselected
    simp only [bind_eq_ok, rejectIf_eq_ok, exists_and_left, exists_const, operating_eq_ok] at h
    obtain ⟨-, ⟨selected, amount', dustChange⟩, hsel, -, -, h⟩ := h
    cases h
    obtain ⟨hsub, hsum⟩ := selectUtxos_eq_ok hsel
    refine ⟨by dsimp only; omega, hpart ?_⟩
    rw [OperationWallet.spendableCoins, if_neg hselected]
    exact hsub.subperm.trans (List.perm_insertionSort _ _).subperm

theorem addUtxos_eq (b : TransactionBuilder) (coins : List WalletCoin) :
    (addUtxos b coins).tIns.map TransparentInputInfo.value =
        b.tIns.map TransparentInputInfo.value ++ coins.map WalletCoin.nValue ∧
      (addUtxos b coins).vout = b.vout ∧ (addUtxos b coins).outputs = b.outputs ∧
      (addUtxos b coins).spends = b.spends ∧ (addUtxos b coins).valueBalance = b.valueBalance := by
  induction coins generalizing b with
  | nil => exact ⟨(List.append_nil _).symm, rfl, rfl, rfl, rfl⟩
  | cons t coins ih =>
    obtain ⟨htIns, hrest⟩ := ih (b.addTransparentInput t.outPoint t.txOut.scriptPubKey t.nValue)
    refine ⟨?_, hrest⟩
    show (addUtxos (b.addTransparentInput _ _ _) coins).tIns.map _ = _
    rw [htIns, TransactionBuilder.addTransparentInput, List.map_append, List.append_assoc]
    rfl

theorem selectNotes_eq_ok {hasCoinControl : Bool} {notes : List SaplingNoteEntry}
    {selected : List (SaplingNoteEntry × Uint256)} {ovk ovk' : Uint256} {total total' : Int}
    (h : selectNotes w hasCoinControl target dustThreshold notes ovk total = .ok (selected, ovk', total'))
    (hpos : 0 ≤ total) (hmax : total + notesValue notes ≤ 9223372036854775807) :
    (selected.map Prod.fst).Sublist notes ∧ total' = total + notesValue (selected.map Prod.fst) := by
  induction notes generalizing ovk total selected with
  | nil =>
    cases h
    exact ⟨List.Sublist.refl _, by simp⟩
  | cons t ts ih =>
    have hts := notesValue_nonneg ts
    rw [notesValue_cons] at hmax
    unfold selectNotes at h
    split at h
    · cases h
    · split at h
      · cases h
      · obtain ⟨hsub, hsum⟩ := ih h hpos (by omega)
        exact ⟨hsub.cons t, hsum⟩
      · have htotal : toInt64 (total + t.note.value.toNat) = total + t.note.value.toNat :=
          toInt64_of_inInt64 ⟨by omega, by omega⟩
        simp only [htotal, bind_eq_ok] at h
        obtain ⟨dustChange, -, h⟩ := h
        split at h
        · cases h
          exact ⟨(List.nil_sublist ts).cons_cons t, by simp⟩
        · obtain ⟨⟨selected1, rest⟩, hsel, h⟩ := bind_eq_ok.mp h
          cases h
          obtain ⟨hsub, hsum⟩ := ih hsel (by omega) (by omega)
          refine ⟨hsub.cons_cons t, ?_⟩
          rw [hsum, List.map_cons, notesValue_cons]
          dsimp only
          omega

variable {b : TransactionBuilder}

theorem addSpends_eq_ok {anchor : Uint256} {selected : List (SaplingNoteEntry × Uint256)} {b' : TransactionBuilder}
    (h : addSpends w anchor selected b = .ok b') (hpos : 0 ≤ b.valueBalance)
    (hmax : b.valueBalance + notesValue (selected.map Prod.fst) ≤ 9223372036854775807) : b' = { b with
      spends := b.spends ++ selected.map fun s => ⟨s.2, s.1.note, anchor⟩
      valueBalance := b.valueBalance + notesValue (selected.map Prod.fst) } := by
  induction selected generalizing b with
  | nil =>
    cases h
    simp
  | cons s selected ih =>
    have hrest := notesValue_nonneg (selected.map Prod.fst)
    rw [List.map_cons, notesValue_cons] at hmax ⊢
    simp only [addSpends, bind_eq_ok, rejectIf_eq_ok, exists_and_left, exists_const] at h
    obtain ⟨-, b1, hadd, h⟩ := h
    have htotal : toInt64 (b.valueBalance + s.1.note.value.toNat) = b.valueBalance + s.1.note.value.toNat :=
      toInt64_of_inInt64 ⟨by omega, by omega⟩
    have hb1 := TransactionBuilder.addSaplingSpend_eq_ok hadd
    rw [htotal] at hb1
    subst hb1
    rw [ih h (by dsimp only; omega) (by dsimp only; omega), List.map_cons, List.append_assoc]
    simp only [List.singleton_append, Int.add_assoc]

theorem loadUnspentNotes_eq_ok {ovk : Uint256} {total : Int}
    (h : loadUnspentNotes env w op target .clear = .ok (b, ovk, total)) (hrange : InputsInRange env.params w op)
    (hmax : env.params.nMaxMoneyOut ≤ 9223372036854775807) :
    ∃ spends : List SpendDescriptionInfo, b = { TransactionBuilder.clear with spends := spends, valueBalance := total } ∧
      total = (spends.map fun spend => (spend.note.value.toNat : Int)).sum ∧ target ≤ total ∧ 0 ≤ total ∧
      total ≤ env.params.nMaxMoneyOut := by
  have hnotes : ∀ {notes}, shieldedInputs w op = .ok notes → notes = w.spendableNotes op := by
    intro notes hnotes
    unfold shieldedInputs at hnotes
    unfold OperationWallet.spendableNotes
    split at hnotes <;> rename_i hselected <;>
      simp only [bind_eq_ok, rejectIf_eq_ok, exists_and_left, exists_const, pure_eq_ok] at hnotes
    · rw [if_pos hselected]
      exact hnotes.2.symm
    · rw [if_neg hselected]
      exact hnotes.2.symm
  simp only [loadUnspentNotes, bind_eq_ok, rejectIf_eq_ok, exists_and_left, exists_const, decide_eq_false_iff_not,
    not_lt] at h
  obtain ⟨notes, hinputs, ⟨selected, ovk', total'⟩, hselect, hreach, b', hspends, h⟩ := h
  cases h
  have hperm := List.perm_insertionSort (fun i j : SaplingNoteEntry => j.note.value ≤ i.note.value) notes
  have hsorted : notesValue (notes.insertionSort fun i j => j.note.value ≤ i.note.value) ≤ env.params.nMaxMoneyOut := by
    have htotal := hrange.notesTotal
    rw [← hnotes hinputs] at htotal
    exact ((hperm.map _).sum_eq).trans_le htotal
  obtain ⟨hsub, hsum⟩ := selectNotes_eq_ok hselect (Int.le_refl 0) (by omega)
  rw [Int.zero_add] at hsum
  have hle : notesValue (selected.map Prod.fst) ≤ env.params.nMaxMoneyOut := by
    refine le_trans ((hsub.map _).sum_le_sum fun v hv => ?_) hsorted
    obtain ⟨t, -, rfl⟩ := List.mem_map.mp hv
    exact Int.natCast_nonneg _
  have hnonneg := notesValue_nonneg (selected.map Prod.fst)
  have hadded := addSpends_eq_ok hspends (Int.le_refl 0) (by rw [TransactionBuilder.clear]; dsimp only; omega)
  refine ⟨selected.map fun s => ⟨s.2, s.1.note, w.anchor (selected.map fun s => s.1.op)⟩, ?_, ?_, hreach,
    hsum ▸ hnonneg, hsum ▸ hle⟩
  · rw [hadded, hsum]
    simp [TransactionBuilder.clear]
  · rw [hsum, notesValue, List.map_map, List.map_map]
    rfl

theorem calculateTarget_eq_ok {recipients : List SendManyRecipient} {fee : Int} {txValues : TxValues}
    (h : calculateTarget recipients fee = .ok txValues) :
    txValues.target = (recipients.map SendManyRecipient.nAmount).sum + fee := by
  have hloop : ∀ {l : List SendManyRecipient} {tv tv' : TxValues}, l.foldlM (fun (txValues : TxValues) t =>
      if t.isTransparent then do
        let transOutTotal ← checkInt64 (txValues.transOutTotal + t.nAmount)
        return { txValues with transOutTotal := transOutTotal }
      else do
        let shieldedOutTotal ← checkInt64 (txValues.shieldedOutTotal + t.nAmount)
        return { txValues with shieldedOutTotal := shieldedOutTotal }) tv = .ok tv' →
      tv'.shieldedOutTotal + tv'.transOutTotal =
        tv.shieldedOutTotal + tv.transOutTotal + (l.map SendManyRecipient.nAmount).sum := by
    intro l
    induction l with
    | nil =>
      intro tv tv' hl
      cases hl
      simp
    | cons t l ih =>
      intro tv tv' hl
      rw [List.foldlM_cons, bind_eq_ok] at hl
      obtain ⟨tv1, hstep, hl⟩ := hl
      rw [ih hl, List.map_cons, List.sum_cons]
      split at hstep <;> obtain ⟨n, hn, hstep⟩ := bind_eq_ok.mp hstep <;> cases hstep <;>
        rw [checkInt64_eq_ok hn] <;> dsimp only <;> omega
  simp only [calculateTarget, bind_eq_ok] at h
  obtain ⟨tv, htv, outTotal, hout, target, htarget, h⟩ := h
  cases h
  have hsum := hloop htv
  dsimp only at hsum ⊢
  rw [checkInt64_eq_ok htarget, checkInt64_eq_ok hout, hsum]
  omega

end Inputs

/-! ## A round -/

/-- A builder with the inputs and outputs of a round. -/
structure Filled (env : OperationEnv) (op : SaplingOperation) (f : Int) (b : TransactionBuilder) : Prop where
  vout : b.vout = (op.sent f).filterMap transparentOut
  outputs : b.outputs.map OutputDescriptionInfo.note =
    ((op.sent f).filterMap shieldedOut).map fun e => ⟨e.1, noteValue e.2⟩
  valueBalance : b.valueBalance = (b.spends.map fun spend => (spend.note.value.toNat : Int)).sum -
    (((op.sent f).filterMap shieldedOut).map Prod.snd).sum
  inputs_le : b.inputsValue ≤ env.params.nMaxMoneyOut
  /-- The inputs reach the amounts, with the fee if no recipient pays it. -/
  reaches : (op.recipients.map SendManyRecipient.nAmount).sum + (if op.nSubtractFeeFromAmount = 0 then f else 0) ≤
    b.inputsValue
  kinds : if op.inputTypes.2 then b.tIns = [] else b.spends = []

section Round

variable {env : OperationEnv} {w : OperationWallet} {op : SaplingOperation} {f : Int} {b : TransactionBuilder}

theorem fillBuilder_filled {ovk : Uint256} (h : fillBuilder env w op f = .ok (b, ovk))
    (hrange : InputsInRange env.params w op) (hmax : env.params.nMaxMoneyOut ≤ 9223372036854775807) :
    Filled env op f b := by
  rw [fillBuilder, bind_eq_ok] at h
  obtain ⟨txValues, htarget, h⟩ := h
  have htarget := calculateTarget_eq_ok (operating_eq_ok.mp htarget)
  split at h
  · rename_i hshielded
    simp only [bind_eq_ok, rejectIf_eq_ok, exists_and_left, exists_const, decide_eq_false_iff_not, not_lt] at h
    obtain ⟨⟨b1, ovk', total⟩, hload, b2, houtputs, hreach, h⟩ := h
    cases h
    obtain ⟨spends, hb1, htotal, -, -, hle⟩ := loadUnspentNotes_eq_ok hload hrange hmax
    have hadded := addOutputs_eq_sent houtputs
    subst hb1
    have hin : b.inputsValue = total := by
      rw [TransactionBuilder.inputsValue, hadded.tIns, hadded.spends, htotal]
      exact Int.zero_add _
    refine ⟨hadded.vout, hadded.outputs, ?_, hin ▸ hle, ?_, ?_⟩
    · rw [hadded.valueBalance, hadded.spends, htotal]
    · rw [hin, ← htarget]
      exact hreach
    · rw [if_pos hshielded]
      exact hadded.tIns
  · rename_i hshielded
    simp only [bind_eq_ok, rejectIf_eq_ok, exists_and_left, exists_const, decide_eq_false_iff_not, not_lt] at h
    obtain ⟨b1, houtputs, ⟨coins, total⟩, hload, hreach, h⟩ := h
    cases h
    obtain ⟨htotal, -, hle⟩ := loadUtxos_eq_ok hload hrange
    have hadded := addOutputs_eq_sent houtputs
    obtain ⟨htIns, hvout, houts, hspends, hbalance⟩ := addUtxos_eq b1 coins
    have hspends' : (addUtxos b1 coins).spends = [] := hspends.trans hadded.spends
    have hin : (addUtxos b1 coins).inputsValue = total := by
      rw [TransactionBuilder.inputsValue, htIns, hspends', hadded.tIns, htotal]
      exact Int.add_zero _
    refine ⟨?_, ?_, ?_, ?_, ?_, ?_⟩
    · exact hvout.trans hadded.vout
    · exact (congrArg _ houts).trans hadded.outputs
    · rw [hbalance, hadded.valueBalance, hspends']
      rfl
    · rw [hin, htotal]
      exact hle
    · rw [hin, ← htarget]
      exact hreach
    · rw [if_neg hshielded]
      exact hspends'

variable {b' : TransactionBuilder}

theorem sendChangeTo_eq_ok {ovk : Uint256} (h : sendChangeTo w op ovk b = .ok b') :
    ∃ x y, b' = { b with saplingChangeAddr := x, tChangeAddr := y } := by
  unfold sendChangeTo at h
  split at h
  · cases h
    exact ⟨_, _, rfl⟩
  · split at h
    · split at h
      · cases h
        exact ⟨_, _, rfl⟩
      · cases h
        exact ⟨_, _, rfl⟩
      · cases h
    · cases h
      exact ⟨_, _, rfl⟩

theorem building_eq_ok {α : Type} {x : Except OperationError α} {a : α} : building x = .ok a ↔ x = .ok a := by
  cases x with
  | error e => simp [building, Except.mapError]
  | ok a => simp [building, Except.mapError]

variable {wallet : Nat → OperationWallet}

theorem operationRound_done {s : FeeRound} {fee : Int} (h : operationRound env wallet op s = .ok (.done (b', fee)))
    (hrange : InputsInRange env.params (wallet s.tries) op) (hmax : env.params.nMaxMoneyOut ≤ 9223372036854775807) :
    fee = s.nFeeRet ∧ ∃ b tx, Filled env op fee b ∧ b.fee = fee ∧ b.build env.builder true = .ok (b', tx) := by
  simp only [operationRound, bind_eq_ok] at h
  obtain ⟨⟨b1, ovk⟩, hfill, b2, hchange, ⟨b3, tx⟩, hbuild, h⟩ := h
  obtain ⟨x, y, hb2⟩ := sendChangeTo_eq_ok hchange
  have hfilled := fillBuilder_filled hfill hrange hmax
  have hdone : b3 = b' ∧ s.nFeeRet = fee := by
    unfold checkOperationFee at h
    dsimp only at h
    split at h
    · simp only [bind_eq_ok, rejectIf_eq_ok, exists_and_left, exists_const] at h
      obtain ⟨nMaxFee, -, -, h⟩ := h
      cases h
      exact ⟨rfl, rfl⟩
    · simp only [bind_eq_ok, rejectIf_eq_ok, exists_and_left, exists_const] at h
      cases h.2.2
  obtain ⟨rfl, rfl⟩ := hdone
  subst hb2
  exact ⟨rfl, { b1 with fee := s.nFeeRet, saplingChangeAddr := x, tChangeAddr := y }, tx,
    ⟨hfilled.vout, hfilled.outputs, hfilled.valueBalance, hfilled.inputs_le, hfilled.reaches, hfilled.kinds⟩, rfl,
    building_eq_ok.mp hbuild⟩

/-- A round after which the loop goes on has found the fee too low, and the fee was not set. -/
theorem operationRound_next {s s' : FeeRound} (h : operationRound env wallet op s = .ok (.next s')) :
    s.nFeeRet < s'.nFeeRet ∧ (op.fee > 0 → s'.nFeeRet ≤ op.fee) ∧ s'.tries = s.tries + 1 ∧ s'.tries ≤ 100 := by
  simp only [operationRound, bind_eq_ok] at h
  obtain ⟨⟨b1, ovk⟩, -, b2, -, ⟨b3, tx⟩, -, h⟩ := h
  unfold checkOperationFee at h
  dsimp only at h
  split at h
  · simp only [bind_eq_ok, rejectIf_eq_ok, exists_and_left, exists_const] at h
    obtain ⟨nMaxFee, -, -, h⟩ := h
    cases h
  · simp only [bind_eq_ok, rejectIf_eq_ok, exists_and_left, exists_const, decide_eq_false_iff_not] at h
    obtain ⟨hset, htries, h⟩ := h
    cases h
    dsimp only
    exact ⟨by omega, fun hfee => by omega, rfl, by omega⟩

end Round

/-! ## The accounts -/

/-- The dust threshold for an operation: that of shielded transactions if anything in it is shielded. -/
def SaplingOperation.dustThreshold (env : OperationEnv) (op : SaplingOperation) : Int :=
  if op.inputTypes.2 || op.recipients.any (fun t => !t.isTransparent) then
    getShieldedDustThreshold env.builder.dustRelayFee
  else getTypicalDustThreshold env.builder.dustRelayFee

def TransactionBuilder.shieldedOutputs (b : TransactionBuilder) : List (SaplingPaymentAddress × Int) :=
  b.outputs.map fun output => (output.note.address, (output.note.value.toNat : Int))

/-- Every base unit is accounted for: what the inputs are worth more than the outputs is the fee, or the fee with dust;
    the outputs are those of the recipients, each of its amount less its share of the fee, and at most one for the change;
    and all values are positive and in the money range. -/
structure OperationAccounts (env : OperationEnv) (op : SaplingOperation) (r : BuiltOperation) : Prop where
  fee_le : r.fee ≤ r.txBuilder.inputsValue - r.txBuilder.outputsValue
  le_dust : r.txBuilder.inputsValue - r.txBuilder.outputsValue ≤ r.fee + op.dustThreshold env
  recipients : ∃ tChange sChange, r.txBuilder.vout = (op.sent r.fee).filterMap transparentOut ++ tChange ∧
    r.txBuilder.shieldedOutputs = (op.sent r.fee).filterMap shieldedOut ++ sChange ∧
    tChange.length + sChange.length ≤ 1
  transparent : ∀ out ∈ r.txBuilder.vout, 0 < out.nValue ∧ env.params.moneyRange out.nValue = true
  shielded : ∀ out ∈ r.txBuilder.shieldedOutputs, 0 < out.2 ∧ env.params.moneyRange out.2 = true

section Accounts

variable {env : OperationEnv} {op : SaplingOperation} {f : Int} {b b' : TransactionBuilder}

variable {e : SendManyRecipient × Int}

theorem shieldedOut_eq_some {out : SaplingPaymentAddress × Int} (h : shieldedOut e = some out) : out.2 = e.2 := by
  unfold shieldedOut at h
  split at h <;> cases h
  rfl

theorem transparentOut_eq_some {out : CTxOut} (h : transparentOut e = some out) : out.nValue = e.2 := by
  unfold transparentOut at h
  split at h <;> cases h
  rfl

theorem filterMap_shieldedOut_isEmpty (op : SaplingOperation) (f : Int) :
    ((op.sent f).filterMap shieldedOut).isEmpty = !op.recipients.any fun t => !t.isTransparent := by
  have hrecipients : (op.sent f).map Prod.fst = op.recipients := by
    rw [SaplingOperation.sent, List.map_map]
    exact List.zipIdx_map_fst 0 op.recipients
  rw [← hrecipients]
  induction op.sent f with
  | nil => rfl
  | cons e es ih =>
    obtain ⟨⟨dest, amount, flag⟩, value⟩ := e
    cases dest with
    | transparent script =>
      rw [List.filterMap_cons]
      simpa [shieldedOut, SendManyRecipient.isTransparent] using ih
    | shielded address memo => simp [shieldedOut, SendManyRecipient.isTransparent]

theorem Filled.dustThreshold (h : Filled env op f b) (hamounts : 0 < (op.recipients.map SendManyRecipient.nAmount).sum)
    (hf : 0 ≤ f) : b.dustThreshold env.builder = op.dustThreshold env := by
  have houtputs : b.outputs.isEmpty = !op.recipients.any fun t => !t.isTransparent := by
    rw [← filterMap_shieldedOut_isEmpty op f, ← List.isEmpty_map (f := OutputDescriptionInfo.note), h.outputs,
      List.isEmpty_map]
  have hshielded : b.hasShielded = (op.inputTypes.2 || op.recipients.any fun t => !t.isTransparent) := by
    have hkinds := h.kinds
    rw [TransactionBuilder.hasShielded, houtputs, Bool.not_not]
    cases hinputs : op.inputTypes.2 with
    | true =>
      -- the notes are worth something, so that there are some
      rw [hinputs, if_pos rfl] at hkinds
      have hreaches := h.reaches
      have hspends : b.spends.isEmpty = false := by
        cases hnil : b.spends with
        | nil =>
          rw [TransactionBuilder.inputsValue, hkinds, hnil, List.map_nil, List.map_nil, List.sum_nil] at hreaches
          split at hreaches <;> omega
        | cons spend spends => rfl
      rw [hspends, Bool.not_false, Bool.true_or]
    | false =>
      rw [hinputs, if_neg Bool.false_ne_true] at hkinds
      rw [hkinds, List.isEmpty_nil, Bool.not_true]
  rw [TransactionBuilder.dustThreshold, SaplingOperation.dustThreshold, hshielded]

theorem Filled.change_eq (h : Filled env op f b) :
    b.valueBalance - f + (b.tIns.map TransparentInputInfo.value).sum - (b.vout.map CTxOut.nValue).sum =
      b.inputsValue - ((op.sent f).map Prod.snd).sum - f := by
  rw [h.valueBalance, h.vout, ← sum_sent_split, TransactionBuilder.inputsValue]
  omega

theorem Filled.shieldedOutputs (h : Filled env op f b) (hpos : ∀ e ∈ op.sent f, 0 < e.2)
    (hle : ∀ e ∈ op.sent f, e.2 ≤ 9223372036854775807) : b.shieldedOutputs = (op.sent f).filterMap shieldedOut := by
  have hnotes : b.shieldedOutputs = (b.outputs.map OutputDescriptionInfo.note).map
      fun note => (note.address, (note.value.toNat : Int)) := by
    rw [TransactionBuilder.shieldedOutputs, List.map_map]
    rfl
  rw [hnotes, h.outputs, List.map_map]
  refine (List.map_congr_left fun out hout => ?_).trans (List.map_id _)
  obtain ⟨e, he, heq⟩ := List.mem_filterMap.mp hout
  have hvalue := shieldedOut_eq_some heq
  have hpos' := hpos e he
  have hle' := hle e he
  exact Prod.ext rfl (noteValue_toNat (by omega) (by omega))

theorem outputsValue_eq (b : TransactionBuilder) :
    b.outputsValue = (b.vout.map CTxOut.nValue).sum + (b.shieldedOutputs.map Prod.snd).sum := by
  rw [TransactionBuilder.outputsValue, TransactionBuilder.shieldedOutputs, List.map_map]
  rfl

theorem changeAdded (env : BuilderEnv) {value : Int}
    (h : (∃ fee, b' = { b with fee := fee }) ∧ (value = 0 ∨ value ≤ b.dustThreshold env) ∨
      0 < value ∧ TransactionBuilder.Sent b value b') (hmax : value < 18446744073709551616) :
    ∃ tChange sChange, b'.vout = b.vout ++ tChange ∧ b'.shieldedOutputs = b.shieldedOutputs ++ sChange ∧
      tChange.length + sChange.length ≤ 1 ∧ b'.inputsValue = b.inputsValue ∧
      ((∀ out ∈ tChange, out.nValue = value ∧ 0 < value) ∧ ∀ out ∈ sChange, out.2 = value ∧ 0 < value) ∧
      (tChange = [] ∧ sChange = [] ∧ (value = 0 ∨ value ≤ b.dustThreshold env) ∨
        (tChange.map CTxOut.nValue).sum + (sChange.map Prod.snd).sum = value) := by
  rcases h with ⟨⟨fee, rfl⟩, hsmall⟩ | ⟨hvalue, hsent⟩
  · exact ⟨[], [], (List.append_nil _).symm, (List.append_nil _).symm, Nat.zero_le _, rfl, by simp,
      .inl ⟨rfl, rfl, hsmall⟩⟩
  · cases hsent with
    | shielded ovk address memo valueBalance =>
      refine ⟨[], [(address, value)], (List.append_nil _).symm, ?_, Nat.le_refl _, rfl, by simpa using hvalue,
        .inr (by simp)⟩
      rw [TransactionBuilder.shieldedOutputs, List.map_append, List.map_singleton, noteValue_toNat hvalue.le hmax]
      rfl
    | transparent script =>
      exact ⟨[⟨value, script⟩], [], rfl, (List.append_nil _).symm, Nat.le_refl _, rfl, by simpa using hvalue,
        .inr (by simp)⟩

theorem sent_le_total (hamounts : ∀ t ∈ op.recipients, 0 < t.nAmount) (hf : 0 ≤ f) (he : e ∈ op.sent f) :
    e.2 ≤ (op.recipients.map SendManyRecipient.nAmount).sum := by
  obtain ⟨hmem, hle⟩ := sent_le hf he
  have hsum := List.single_le_sum (l := op.recipients.map SendManyRecipient.nAmount)
    (fun v hv => by obtain ⟨t, ht, rfl⟩ := List.mem_map.mp hv; exact (hamounts t ht).le) _ (List.mem_map_of_mem hmem)
  omega

/-- **Accounts that are in order**, if every recipient is sent something. -/
theorem accounts_of_positive {finalTx tx : CTransaction} (h : Filled env op f b) (hfee : b.fee = f)
    (hbuild : b.build env.builder true = .ok (b', tx)) (hamounts : ∀ t ∈ op.recipients, 0 < t.nAmount)
    (htotal : 0 < (op.recipients.map SendManyRecipient.nAmount).sum ∧
      (op.recipients.map SendManyRecipient.nAmount).sum ≤ env.params.nMaxMoneyOut)
    (hmax : env.params.nMaxMoneyOut ≤ 9223372036854775807)
    (hdust : 0 ≤ getShieldedDustThreshold env.builder.dustRelayFee) (hpos : ∀ e ∈ op.sent f, 0 < e.2) :
    OperationAccounts env op ⟨b', f, finalTx⟩ := by
  obtain ⟨hf, value, hvalue, hchange, hcases⟩ := TransactionBuilder.build_eq_ok hbuild
  rw [hfee] at hf hchange
  rw [h.change_eq] at hchange
  have hsent : 0 ≤ ((op.sent f).map Prod.snd).sum := List.sum_nonneg fun v hv => by
    obtain ⟨e, he, rfl⟩ := List.mem_map.mp hv
    exact (hpos e he).le
  have hinputs := h.inputs_le
  have hle : ∀ e ∈ op.sent f, 0 < e.2 ∧ e.2 ≤ env.params.nMaxMoneyOut := fun e he =>
    ⟨hpos e he, (sent_le_total hamounts hf he).trans htotal.2⟩
  have hshielded := h.shieldedOutputs hpos fun e he => (hle e he).2.trans hmax
  have hthreshold := h.dustThreshold htotal.1 hf
  have hnonneg : 0 ≤ op.dustThreshold env := by
    unfold SaplingOperation.dustThreshold
    split
    · exact hdust
    · exact getFee_nonneg _ _
  have hsplit := sum_sent_split (op.sent f)
  -- the values of the recipients' outputs and of the change
  have hvout : ∀ out ∈ (op.sent f).filterMap transparentOut, 0 < out.nValue ∧ env.params.moneyRange out.nValue = true := by
    intro out hout
    obtain ⟨e, he, heq⟩ := List.mem_filterMap.mp hout
    obtain ⟨hpos', hle'⟩ := hle e he
    rw [transparentOut_eq_some heq]
    exact ⟨hpos', decide_eq_true ⟨hpos'.le, hle'⟩⟩
  have houts : ∀ out ∈ (op.sent f).filterMap shieldedOut, 0 < out.2 ∧ env.params.moneyRange out.2 = true := by
    intro out hout
    obtain ⟨e, he, heq⟩ := List.mem_filterMap.mp hout
    obtain ⟨hpos', hle'⟩ := hle e he
    rw [shieldedOut_eq_some heq]
    exact ⟨hpos', decide_eq_true ⟨hpos'.le, hle'⟩⟩
  have hmoney : 0 < value → env.params.moneyRange value = true := fun hvalue' =>
    decide_eq_true ⟨hvalue'.le, by omega⟩
  obtain ⟨tChange, sChange, hvout', hshielded', hlength, hin, hvalues, hkept⟩ :=
    changeAdded env.builder hcases (show value < 18446744073709551616 by omega)
  have hout : b'.outputsValue = ((op.sent f).map Prod.snd).sum + (tChange.map CTxOut.nValue).sum +
      (sChange.map Prod.snd).sum := by
    rw [outputsValue_eq, hvout', hshielded', hshielded, h.vout, ← hsplit, List.map_append, List.sum_append,
      List.map_append, List.sum_append]
    omega
  refine ⟨?_, ?_, ⟨tChange, sChange, h.vout ▸ hvout', hshielded ▸ hshielded', hlength⟩, ?_, ?_⟩
  · dsimp only
    rcases hkept with ⟨rfl, rfl, -⟩ | hsum
    · simp only [List.map_nil, List.sum_nil] at hout
      omega
    · omega
  · dsimp only
    rcases hkept with ⟨rfl, rfl, hsmall⟩ | hsum
    · simp only [List.map_nil, List.sum_nil] at hout
      omega
    · omega
  · intro out hmem
    rw [hvout', h.vout] at hmem
    rcases List.mem_append.mp hmem with hmem | hmem
    · exact hvout out hmem
    · obtain ⟨heq, hvalue'⟩ := hvalues.1 out hmem
      rw [heq]
      exact ⟨hvalue', hmoney hvalue'⟩
  · intro out hmem
    rw [hshielded', hshielded] at hmem
    rcases List.mem_append.mp hmem with hmem | hmem
    · exact houts out hmem
    · obtain ⟨heq, hvalue'⟩ := hvalues.2 out hmem
      rw [heq]
      exact ⟨hvalue', hmoney hvalue'⟩

/-- **Accounts that are in order** show that every recipient is sent something. -/
theorem positive_of_accounts {r : BuiltOperation} (h : OperationAccounts env op r) : ∀ e ∈ op.sent r.fee, 0 < e.2 := by
  obtain ⟨tChange, sChange, hvout, houts, -⟩ := h.recipients
  intro e he
  cases hdest : e.1.dest with
  | transparent script =>
    have hmem : (⟨e.2, script⟩ : CTxOut) ∈ (op.sent r.fee).filterMap transparentOut :=
      List.mem_filterMap.mpr ⟨e, he, by rw [transparentOut, hdest]⟩
    exact (h.transparent _ (hvout ▸ List.mem_append_left _ hmem)).1
  | shielded address memo =>
    have hmem : (address, e.2) ∈ (op.sent r.fee).filterMap shieldedOut :=
      List.mem_filterMap.mpr ⟨e, he, by rw [shieldedOut, hdest]⟩
    exact (h.shielded _ (houts ▸ List.mem_append_left _ hmem)).1

theorem sent_pos_iff (hamounts : ∀ t ∈ op.recipients, 0 < t.nAmount) :
    (∀ e ∈ op.sent f, 0 < e.2) ↔ ∀ i t, op.recipients[i]? = some t → t.fSubtractFeeFromAmount = true →
      share op.feePayers f i < t.nAmount := by
  constructor
  · intro h i t ht _
    have hmem : (t, t.nAmount - share op.feePayers f i) ∈ op.sent f :=
      List.mem_map.mpr ⟨(t, i), List.mk_mem_zipIdx_iff_getElem?.mpr ht, rfl⟩
    have hpos := h _ hmem
    omega
  · intro h e he
    obtain ⟨⟨t, i⟩, hmem, rfl⟩ := List.mem_map.mp he
    have ht := List.mk_mem_zipIdx_iff_getElem?.mp hmem
    dsimp only
    cases hflag : t.fSubtractFeeFromAmount with
    | true =>
      have hlt := h i t ht hflag
      omega
    | false =>
      have hshare : share op.feePayers f i = 0 := by
        apply share_eq_zero
        rw [SaplingOperation.feePayers, List.getElem?_map, ht, Option.map_some, hflag]
        simp
      have hpos := hamounts t (List.mem_of_getElem? ht)
      omega

end Accounts

section Operation

variable {env : OperationEnv} {wallet : Nat → OperationWallet} {op : SaplingOperation}

/-- A build that succeeds has filled a builder with its final fee, which is the one that was set. -/
theorem buildOperation_eq_ok {r : BuiltOperation} (h : buildOperation env wallet op = .ok (some r))
    (hrange : ∀ n, InputsInRange env.params (wallet n) op) (hmax : env.params.nMaxMoneyOut ≤ 9223372036854775807) :
    op.recipients ≠ [] ∧ (0 < op.fee → r.fee = op.fee) ∧
      ∃ b tx, Filled env op r.fee b ∧ b.fee = r.fee ∧ b.build env.builder true = .ok (r.txBuilder, tx) := by
  simp only [buildOperation, bind_eq_ok, rejectIf_eq_ok, exists_and_left, exists_const] at h
  obtain ⟨-, -, hrecipients, -, o, hloop, h⟩ := h
  cases o with
  | none => cases h
  | some built =>
    obtain ⟨finalTx, -, h⟩ := bind_eq_ok.mp h
    cases h
    obtain ⟨s, hs, hdone⟩ := whileLoop_done (fun s => 0 < op.fee → s.nFeeRet = op.fee) (fun s s' hs hnext hfee => by
      obtain ⟨hlt, hle, -⟩ := operationRound_next hnext
      omega) (fun hfee => if_pos hfee) hloop
    obtain ⟨hfee, hbuilt⟩ := operationRound_done hdone (hrange _) hmax
    have hne : op.recipients ≠ [] := by
      intro hnil
      rw [hnil] at hrecipients
      cases hrecipients
    exact ⟨hne, fun hset => hfee.trans (hs hset), hbuilt⟩

end Operation

/-! ## A fee that is more than the amount -/

def operationEnv : OperationEnv where
  params := mainParams
  minRelayTxFee := DEFAULT_MIN_RELAY_TX_FEE
  builder :=
    { dustRelayFee := DUST_RELAY_TX_FEE
      dummySignature := fun _ => some (List.replicate 107 0)
      produceSignature := fun _ _ _ => some (List.replicate 107 0)
      hasCommitment := fun _ => true
      outputDescription := fun _ => none
      spendValid := fun _ => true
      spendProof := fun _ => none
      signatureHash := fun _ => .ok 0
      spendSig := fun _ _ => .replicate 64 0
      bindingSig := fun _ _ => .replicate 64 0 }
  isValidPaymentAddress := fun _ => true

def operationWallet (_ : Nat) : OperationWallet where
  mapWallet := fun _ => none
  availableCoins := [⟨{ newTransaction [] [⟨500000000, [0x51]⟩] with hash := 1 }, 0, by decide⟩]
  getNotes := fun _ => []
  getFilteredNotes := fun _ => []
  spendingKeyOvk := fun _ => none
  checkCachedNote := fun _ => .OK
  hasWitness := fun _ => true
  anchor := fun _ => 0
  getCommonOVK := 0
  getReservedKey := some (payToPubKeyHash (List.replicate 20 2))

/-- A transparent payment of which the recipient pays the fee of 10000. -/
def feeFromRecipient (nAmount : Int) : SaplingOperation where
  selectFromtaddrs := true
  recipients := [⟨.transparent (payToPubKeyHash (List.replicate 20 1)), nAmount, true⟩]
  fee := 10000

theorem feeFromRecipient_inRange (nAmount : Int) (n : Nat) :
    InputsInRange operationEnv.params (operationWallet n) (feeFromRecipient nAmount) where
  coins := by
    intro coin hcoin
    obtain rfl := List.mem_singleton.mp hcoin
    decide
  coinsTotal := by
    show totalValue ((operationWallet 0).spendableCoins (feeFromRecipient 0)) ≤ operationEnv.params.nMaxMoneyOut
    decide +kernel
  notesTotal := by
    show notesValue ((operationWallet 0).spendableNotes (feeFromRecipient 0)) ≤ operationEnv.params.nMaxMoneyOut
    decide +kernel

theorem exists_buildOperation {nAmount : Int} {values : List Int}
    (hrun : ((buildOperation operationEnv operationWallet (feeFromRecipient nAmount)).toOption.bind fun built =>
      built.map fun r => r.txBuilder.vout.map CTxOut.nValue) = some values) :
    ∃ r, buildOperation operationEnv operationWallet (feeFromRecipient nAmount) = .ok (some r) ∧
      r.txBuilder.vout.map CTxOut.nValue = values := by
  obtain ⟨built, hbuilt, hvalues⟩ := Option.bind_eq_some_iff.mp hrun
  obtain ⟨r, rfl, hr⟩ := Option.map_eq_some_iff.mp hvalues
  refine ⟨r, ?_, hr⟩
  revert hbuilt
  cases buildOperation operationEnv operationWallet (feeFromRecipient nAmount) with
  | error e => intro h; cases h
  | ok x => intro h; cases h; rfl

end KrovaCoin
