import KrovaCoin.Validation.ConnectBlock

/-!
# The coins of a block as a run of operations

What `UpdateCoins` does with the coins is a run of operations in the sense of `Lib.Overlay`: the coins of the inputs are
taken, those of the outputs are added. A zerocoin mint is dropped by `AddCoin`, and an unspendable output is not looked
at.

* `outputOps`, `txOps`, `blockOps` — the operations.

Principal results: `updateCoins_runs`, `ConnectRun.coins`.
-/

namespace KrovaCoin

open Lib

/-! ## The operations -/

def CTransaction.coinOf (tx : CTransaction) (nHeight : Nat) (out : CTxOut) : Coin :=
  ⟨tx.isCoinBase, tx.isCoinStake, out, nHeight⟩

def outputOps (tx : CTransaction) (nHeight : Nat) (out : COutPoint × CTxOut) : List (Op COutPoint Coin) :=
  if out.2.scriptPubKey.isUnspendable then []
  else if (tx.coinOf nHeight out.2).storable then [.add out.1 (tx.coinOf nHeight out.2)]
  else [.drop out.1 (tx.coinOf nHeight out.2)]

/-- What is done with the inputs, whose coins are recorded. -/
def inputOps (spends : List COutPoint) (vprevout : List Coin) : List (Op COutPoint Coin) :=
  (spends.zip vprevout).map fun input => .take input.1 input.2

/-- The operations of a transaction. -/
def txOps (nHeight : Nat) (tx : CTransaction) (txundo : CTxUndo) : List (Op COutPoint Coin) :=
  inputOps tx.spends txundo.vprevout ++ tx.outputs.flatMap (outputOps tx nHeight)

/-- The operations of the transactions of a block. -/
def blockOps (nHeight : Nat) (entries : List (CTransaction × CTxUndo)) : List (Op COutPoint Coin) :=
  entries.flatMap fun entry => txOps nHeight entry.1 entry.2

/-! ## Transactions -/

variable {v v' : View} {own : Set COutPoint} {s : Slots COutPoint Coin} {tx : CTransaction} {env : Env}
  {node : NodeState} {ctx : ConnectContext}

theorem View.Sim.spent {o : COutPoint} {c : Coin} (hsim : v.Sim own s) (hc : (s o).1 = some c) :
    (v.spendCoin o).1.getD coinEmpty = c := by
  have hlive := (View.spendCoin_slots hsim.tidy o).1
  rw [hsim.coin, hc, Option.bind_eq_some_iff] at hlive
  obtain ⟨c', hc', hlive⟩ := hlive
  rw [hc', Option.getD_some]
  exact (Coin.live_eq_some.mp hlive).1

theorem spendCoins_runs : ∀ {os : List COutPoint} {v : View} {own : Set COutPoint}
    {s : Slots COutPoint Coin}, v.Sim own s → os.Nodup → (∀ o ∈ os, (s o).1 ≠ none) →
    (v.spendCoins os).2 = os.map v.accessCoin ∧
    ∃ own' s', Runs own s (inputOps os (v.spendCoins os).2) own' s' ∧ (v.spendCoins os).1.Sim own' s' := by
  intro os
  induction os with
  | nil =>
    intro v own s hsim _ _
    exact ⟨rfl, own, s, .nil own s, hsim⟩
  | cons o os ih =>
    intro v own s hsim hnodup hthere
    obtain ⟨c, hc⟩ := Option.ne_none_iff_exists'.mp (hthere o List.mem_cons_self)
    obtain ⟨ho, hnodup⟩ := List.nodup_cons.mp hnodup
    have hne : ∀ o' ∈ os, o' ≠ o := by
      rintro o' ho' rfl
      exact ho ho'
    have hspent := hsim.spent hc
    have haccess : v.accessCoin o = c := View.accessCoin_of_coin (by rw [hsim.coin, hc])
    have hlater : ∀ o' ∈ os, (s.pop o o').1 ≠ none := by
      intro o' ho'
      rw [Slots.pop_ne _ (hne o' ho')]
      exact hthere o' (List.mem_cons_of_mem _ ho')
    obtain ⟨hcoins, own', s', hruns, hsim'⟩ := ih (hsim.spend o) hnodup hlater
    have hothers : os.map (v.spendCoin o).2.accessCoin = os.map v.accessCoin := by
      apply List.map_congr_left
      intro o' ho'
      obtain ⟨c', hc'⟩ := Option.ne_none_iff_exists'.mp (hthere o' (List.mem_cons_of_mem _ ho'))
      have hafter : (v.spendCoin o).2.coin o' = some c' := by
        rw [(hsim.spend o).coin, Slots.pop_ne _ (hne o' ho'), hc']
      rw [View.accessCoin_of_coin hafter, View.accessCoin_of_coin (by rw [hsim.coin, hc'])]
    constructor
    · rw [View.spendCoins, hspent, hcoins, hothers, List.map_cons, haccess]
    · refine ⟨own', s', ?_, hsim'⟩
      have hops : inputOps (o :: os) (v.spendCoins (o :: os)).2 =
          .take o c :: inputOps os ((v.spendCoin o).2.spendCoins os).2 := by
        simp [inputOps, View.spendCoins, hspent]
      rw [hops]
      exact .take hc hruns

variable {nHeight : Nat} {invalidOut : COutPoint → Bool}

theorem addOutput_runs {out : COutPoint × CTxOut} (hvalid : ∀ o, invalidOut o = false) (hsim : v.Sim own s)
    (h : v.addOutput tx.isCoinBase tx.isCoinStake nHeight false invalidOut out = .ok v') :
    ∃ own' s', Runs own s (outputOps tx nHeight out) own' s' ∧ v'.Sim own' s' := by
  rw [View.addOutput, hvalid, if_neg Bool.false_ne_true] at h
  cases hstorable : (tx.coinOf nHeight out.2).storable with
  | false =>
    refine ⟨own, s, ?_, hsim.add_unstorable hstorable h⟩
    unfold outputOps
    rw [hstorable]
    split
    · exact .nil own s
    · exact .drop (.nil own s)
  | true =>
    obtain ⟨hown, hcover, hsim'⟩ := hsim.add hstorable h
    refine ⟨_, _, ?_, hsim'⟩
    have hspendable : ¬ out.2.scriptPubKey.isUnspendable = true := by
      simp only [Coin.storable, CTransaction.coinOf, Bool.and_eq_true, Bool.not_eq_true'] at hstorable
      simp [hstorable.1.2]
    rw [outputOps, if_neg hspendable, if_pos hstorable]
    exact .add hown hcover (.nil _ _)

theorem addOutputs_runs (hvalid : ∀ o, invalidOut o = false) : ∀ {outs : List (COutPoint × CTxOut)} {v v' : View}
    {own : Set COutPoint} {s : Slots COutPoint Coin}, v.Sim own s →
      outs.foldlM (View.addOutput tx.isCoinBase tx.isCoinStake nHeight false invalidOut) v = .ok v' →
      ∃ own' s', Runs own s (outs.flatMap (outputOps tx nHeight)) own' s' ∧ v'.Sim own' s' := by
  intro outs
  induction outs with
  | nil =>
    intro v v' own s hsim h
    cases h
    exact ⟨own, s, .nil own s, hsim⟩
  | cons out outs ih =>
    intro v v' own s hsim h
    obtain ⟨v1, h1, hrest⟩ := bind_eq_ok.mp h
    obtain ⟨own1, s1, hruns1, hsim1⟩ := addOutput_runs hvalid hsim h1
    obtain ⟨own', s', hruns', hsim'⟩ := ih hsim1 hrest
    exact ⟨own', s', by simpa using hruns1.append hruns', hsim'⟩

variable {txundo : CTxUndo}

/-- **A transaction whose inputs are there runs its operations.** -/
theorem updateCoins_runs (hvalid : ∀ o, invalidOut o = false) (hsim : v.Sim own s) (hnodup : tx.spends.Nodup)
    (hthere : ∀ o ∈ tx.spends, (s o).1 ≠ none) (h : updateCoins tx v nHeight invalidOut = .ok (v', txundo)) :
    txundo.vprevout = tx.spends.map v.accessCoin ∧
      ∃ own' s', Runs own s (txOps nHeight tx txundo) own' s' ∧ v'.Sim own' s' := by
  simp only [updateCoins, bind_eq_ok, pure_eq_ok, Prod.mk.injEq] at h
  obtain ⟨v2, hadd, rfl, rfl⟩ := h
  obtain ⟨hcoins, own1, s1, hruns1, hsim1⟩ := spendCoins_runs hsim hnodup hthere
  have hsim2 := (View.SameCoins.setNullifiers (v.spendCoins tx.spends).1 tx true).sim hsim1
  obtain ⟨own', s', hruns', hsim'⟩ := addOutputs_runs hvalid hsim2 hadd
  exact ⟨hcoins, own', s', hruns1.append hruns', hsim'⟩

/-! ## Blocks -/

/-- The loop of `ConnectBlock` over checked transactions, with the undo data of each. -/
inductive ConnectRun (env : Env) (node : NodeState) (ctx : ConnectContext) :
    ConnectState → List (CTransaction × CTxUndo) → ConnectState → Prop where
  | nil (s : ConnectState) : ConnectRun env node ctx s [] s
  | cons {s s1 s' : ConnectState} {tx : CTransaction} {txundo : CTxUndo}
      {entries : List (CTransaction × CTxUndo)} (htx : TxChecked env.params tx)
      (hstep : TxConnected env node ctx s s1 tx txundo) (hrest : ConnectRun env node ctx s1 entries s') :
      ConnectRun env node ctx s ((tx, txundo) :: entries) s'

theorem connectRun_of_foldlM (hmax : 0 ≤ env.params.nMaxMoneyOut ∧ env.params.nMaxMoneyOut < 9223372036854775808) :
    ∀ {vtx : List CTransaction} {s s' : ConnectState}, (∀ tx ∈ vtx, TxChecked env.params tx) →
      vtx.foldlM (connectTx env node ctx) s = .ok s' →
      ∃ entries, entries.map Prod.fst = vtx ∧ ConnectRun env node ctx s entries s' := by
  intro vtx
  induction vtx with
  | nil =>
    intro s s' _ h
    cases h
    exact ⟨[], rfl, .nil s⟩
  | cons tx vtx ih =>
    intro s s' htxs h
    obtain ⟨s1, h1, hrest⟩ := bind_eq_ok.mp h
    obtain ⟨txundo, hstep⟩ := connectTx_ok hmax (htxs tx List.mem_cons_self) h1
    obtain ⟨entries, hfst, hrun⟩ := ih (fun t ht => htxs t (List.mem_cons_of_mem _ ht)) hrest
    exact ⟨(tx, txundo) :: entries, by rw [List.map_cons, hfst], .cons (htxs tx List.mem_cons_self) hstep hrun⟩

variable {s s' : ConnectState} {entries : List (CTransaction × CTxUndo)}

theorem ConnectRun.vtxundo (h : ConnectRun env node ctx s entries s') :
    s'.vtxundo = s.vtxundo ++ entries.map Prod.snd := by
  induction h with
  | nil => simp
  | cons _ hstep _ ih => rw [ih, hstep.vtxundo, List.append_assoc, List.map_cons, List.singleton_append]

theorem TxConnected.spends (htx : TxChecked env.params tx) (h : TxConnected env node ctx s s' tx txundo) :
    tx.spends.Nodup ∧ ∀ o ∈ tx.spends, s.view.coin o ≠ none := by
  unfold CTransaction.spends
  cases hcb : tx.isCoinBase with
  | true => simp
  | false =>
    obtain ⟨pprev, txValueIn, vChecks, hin⟩ := h.inputs hcb
    refine ⟨htx.nodup, fun o ho => ?_⟩
    obtain ⟨txin, htxin, rfl⟩ := List.mem_map.mp ho
    rw [(hin.checked.coins txin htxin).1]
    simp

theorem TxConnected.runs {own : Set COutPoint} {σ : Slots COutPoint Coin} (hvalid : ∀ o, ctx.invalidOut o = false)
    (htx : TxChecked env.params tx) (h : TxConnected env node ctx s s' tx txundo) (hsim : s.view.Sim own σ) :
    txundo.vprevout = tx.spends.map s.view.accessCoin ∧
      ∃ own' σ', Runs own σ (txOps ctx.nHeight tx txundo) own' σ' ∧ s'.view.Sim own' σ' := by
  obtain ⟨hnodup, hthere⟩ := h.spends htx
  refine updateCoins_runs hvalid hsim hnodup (fun o ho => ?_) h.coins
  rw [← hsim.coin]
  exact hthere o ho

/-- **The coins of a block run its operations.** -/
theorem ConnectRun.coins (hvalid : ∀ o, ctx.invalidOut o = false) (h : ConnectRun env node ctx s entries s') :
    ∀ {own : Set COutPoint} {σ : Slots COutPoint Coin}, s.view.Sim own σ →
      ∃ own' σ', Runs own σ (blockOps ctx.nHeight entries) own' σ' ∧ s'.view.Sim own' σ' := by
  induction h with
  | nil s =>
    intro own σ hsim
    exact ⟨own, σ, .nil own σ, hsim⟩
  | cons htx hstep _ ih =>
    intro own σ hsim
    obtain ⟨-, own1, σ1, hruns1, hsim1⟩ := hstep.runs hvalid htx hsim
    obtain ⟨own', σ', hruns', hsim'⟩ := ih hsim1
    exact ⟨own', σ', by simpa [blockOps] using hruns1.append hruns', hsim'⟩

end KrovaCoin
