import KrovaCoin.Validation.ForkInputs

/-!
# What holds of every transaction of a chain (`validation.cpp`: `CheckTxInputs`, `CheckInputs`, `ConnectBlock`)

The transactions of a chain, the newest first, are a ledger. Each of them was connected to a view that the older ones
have left, so what the checks ask of the view is a relation between a transaction and the older ones.

Principal results: `chain_spends_once`, `chain_spends_mature`, `chain_outputs_covered`, `chain_supply_backed`,
`chain_scripts_verified`, `chain_keys_signed`, `chain_nullifiers_once`.
-/

namespace KrovaCoin

open Lib

/-- A transaction and the height of its block. -/
abbrev Entry := CTransaction × Nat

/-- The coins that the entries leave. -/
abbrev replay : List Entry → COutPoint → Option Coin := unspent entrySpends entryCreates

variable {env : Env} {blocks : List CBlock} {pprev : CBlockIndex} {v : View} {genesis : CBlock} {e : Entry}
  {older : List Entry} {o : COutPoint} {C : CScriptCheck → Prop}

/-- A transaction that passes its checks on a view that the older ones have left; `C` is known of its script checks. -/
structure Connecting (env : Env) (C : CScriptCheck → Prop) (e : Entry) (older : List Entry) (v : View) : Prop where
  coin : ∀ o, v.coin o = replay older o
  spent : ∀ e' ∈ older, ∀ o ∈ e'.1.spends, v.coin o = none
  nullified : ∀ e' ∈ older, ∀ spend ∈ e'.1.shieldedSpends, v.getNullifier spend.nullifier = true
  checked : TxChecked env.params e.1
  inputs : e.1.isCoinBase = false → InputsChecked env v e.2 e.1
  scripts : e.1.isCoinBase = false → env.checkpoints.getTotalBlocksEstimate ≤ e.2 → ∀ input ∈ e.1.vin.zipIdx,
    ∃ flags, C ⟨(v.accessCoin input.1.prevout).out, e.1, input.2, flags⟩

def AllConnected (env : Env) (C : CScriptCheck → Prop) : List Entry → Prop :=
  Along fun e older => ∃ v, Connecting env C e older v

theorem AllConnected.along {S : Entry → List Entry → Prop} {es : List Entry} (h : AllConnected env C es)
    (himp : ∀ {e older v}, Connecting env C e older v → S e older) : Along S es :=
  Along.mono (fun ⟨_, hv⟩ => himp hv) h

theorem AllConnected.mono {C' : CScriptCheck → Prop} {es : List Entry} (h : AllConnected env C es)
    (himp : ∀ check, C check → C' check) : AllConnected env C' es := by
  refine h.along fun {e older v} hv => ⟨v, { hv with scripts := fun hcb hheight input hinput => ?_ }⟩
  obtain ⟨flags, hcheck⟩ := hv.scripts hcb hheight input hinput
  exact ⟨flags, himp _ hcheck⟩

/-- The script check has passed, or the script threads have it. -/
def Scheduled (env : Env) (node : NodeState) (s : ConnectState) (check : CScriptCheck) : Prop :=
  check.passes env.crypto = true ∨ node.nScriptCheckThreads ≠ 0 ∧ check ∈ s.checks

variable {node : NodeState} {s s' : ConnectState} {tx : CTransaction} {txundo : CTxUndo} {input : CTxIn × Nat}

theorem TxConnected.scheduled_mono {ctx : ConnectContext} (h : TxConnected env node ctx s s' tx txundo)
    {check : CScriptCheck} : Scheduled env node s check → Scheduled env node s' check := by
  rintro (hpass | ⟨hthreads, hmem⟩)
  · exact .inl hpass
  · refine .inr ⟨hthreads, ?_⟩
    cases hcb : tx.isCoinBase with
    | true => exact (h.coinbase hcb).2.2 ▸ hmem
    | false =>
      obtain ⟨pprev, txValueIn, vChecks, hin⟩ := h.inputs hcb
      exact hin.checks ▸ List.mem_append_left _ hmem

/-- A script check that is made passes; with script threads it is only collected. -/
theorem TxConnected.scheduled {ctx : ConnectContext} (h : TxConnected env node ctx s s' tx txundo)
    (hcb : tx.isCoinBase = false) (hscripts : ctx.fScriptChecks = true) (hinput : input ∈ tx.vin.zipIdx) :
    Scheduled env node s' ⟨(s.view.accessCoin input.1.prevout).out, tx, input.2, ctx.flags⟩ := by
  obtain ⟨pprev, txValueIn, vChecks, hin⟩ := h.inputs hcb
  have hchecks := hin.scripts
  rw [hscripts] at hchecks
  obtain ⟨_, _, hchecks⟩ := bind_eq_ok.mp hchecks
  obtain ⟨check, hmem, hcheck⟩ := exists_of_mapM hchecks input hinput
  obtain ⟨_, _, hcheck⟩ := bind_eq_ok.mp hcheck
  dsimp only at hcheck
  split at hcheck
  · rename_i hthreads
    cases hcheck
    exact .inr ⟨by simpa using hthreads, hin.checks ▸ List.mem_append_right _ hmem⟩
  · split at hcheck
    · rename_i hrun
      exact .inl (beq_iff_eq.mpr hrun)
    · obtain ⟨_, _, hcheck⟩ := bind_eq_ok.mp hcheck
      cases hcheck

theorem mem_of_mem_blockEntries {done : List CTransaction} {nHeight : Nat} (h : e ∈ blockEntries done nHeight) :
    e.1 ∈ done := by
  obtain ⟨tx, htx, rfl⟩ := List.mem_map.mp h
  exact List.mem_reverse.mp htx

theorem mem_of_mem_ledger (h : e ∈ ledger (branch genesis blocks)) : e.1 ∈ chainTxs blocks := by
  induction blocks using List.reverseRecOn with
  | nil => cases h
  | append_singleton blocks block ih =>
    rw [ledger_branch_snoc, List.mem_append] at h
    rw [chainTxs_append, List.mem_append]
    exact h.symm.imp ih mem_of_mem_blockEntries

/-- **Every transaction of a chain was connected after the older ones.** -/
theorem ChainRun.connecting (h : ChainRun env blocks pprev v) (hok : ChainOk env blocks) :
    AllConnected env (fun check => check.passes env.crypto = true) (ledger (branch genesis blocks)) := by
  induction h with
  | genesis => trivial
  | @connect node node' blocks pprev v v' block r hrun hopen hcontext hgenesis hconnect ih =>
    obtain ⟨pindexPrev, tree, v0, s, hpprev, hconnected⟩ := connectBlock_ok hok.max hgenesis hconnect
    cases hpprev
    have hstate : ∀ {done s}, done <+: block.vtx → LoopState env node block pprev v' done s →
        UniqueTxids (chainTxs blocks ++ done) (pprev.nHeight + 1) s.view :=
      (hrun.uniqueTxids hok.init).loopState hok hrun.height hopen hconnected.checked hcontext
    have hcoins : CoinsOf (branch genesis blocks) v := hrun.coinsOf hok.init
    -- what holds of every prefix of the transactions; the script threads are waited for at the end
    let P : List CTransaction → ConnectState → Prop := fun done s =>
      done <+: block.vtx → LoopState env node block pprev v' done s ∧ AllConnected env (Scheduled env node s)
        (blockEntries done (pprev.nHeight + 1) ++ ledger (branch genesis blocks))
    have hstart : P [] ⟨v0, 0, 0, 0, 0, [], tree, []⟩ :=
      fun _ => ⟨⟨tree, v0, hconnected.bestTree, hconnected.superblock, rfl⟩, (ih hok.init).mono fun _ => .inl⟩
    rw [ledger_branch_snoc, ← hrun.height]
    refine AllConnected.mono (foldlM_induct P ?_ block.vtx [] _ s hstart hconnected.loop (List.prefix_refl _)).2
      fun check hcheck => hcheck.elim id fun ⟨hthreads, hmem⟩ => hconnected.scripts hthreads check hmem
    intro done tx s s' hP hstep hpre
    have hpre' : done <+: block.vtx := (List.prefix_append done [tx]).trans hpre
    obtain ⟨hdone, hall⟩ := hP hpre'
    have htx : TxChecked env.params tx := hconnected.checked.txs tx (hpre.subset (by simp))
    obtain ⟨txundo, htxundo⟩ := connectTx_ok hok.max htx hstep
    have hunique := hstate hpre' hdone
    have hloop := UniqueTxids.loopCoins hok hopen hconnected.checked hstate hcoins.coin hcoins.ordered hpre' hdone
    have holder : ∀ e ∈ blockEntries done (pprev.nHeight + 1) ++ ledger (branch genesis blocks),
        e.1 ∈ chainTxs blocks ++ done := by
      intro e he
      rw [List.mem_append] at he ⊢
      exact he.symm.imp mem_of_mem_ledger mem_of_mem_blockEntries
    refine ⟨hdone.snoc hstep, ?_⟩
    rw [blockEntries_snoc, List.cons_append]
    refine ⟨⟨s.view, hloop.coin, fun e he o ho => (hunique.spent e.1 (holder e he) o ho).1,
      fun e he => hunique.nullified e.1 (holder e he), htx, fun hcb => ?_, fun hcb hheight input hinput =>
        ⟨_, htxundo.scheduled hcb (decide_eq_true hheight) hinput⟩⟩, hall.mono fun _ => htxundo.scheduled_mono⟩
    obtain ⟨pprev', txValueIn, vChecks, hin⟩ := htxundo.inputs hcb
    cases hin.parent
    exact hin.checked

theorem Connecting.spends (h : Connecting env C e older v) (ho : o ∈ e.1.spends) :
    ∃ c, replay older o = some c ∧ Spendable env.params e.2 c := by
  unfold CTransaction.spends at ho
  cases hcb : e.1.isCoinBase with
  | true => simp [hcb] at ho
  | false =>
    rw [hcb] at ho
    obtain ⟨txin, htxin, rfl⟩ := List.mem_map.mp ho
    obtain ⟨hcoin, hspendable⟩ := (h.inputs hcb).coins txin htxin
    exact ⟨_, (h.coin _).symm.trans hcoin, hspendable⟩

theorem regChain_ok : ChainOk regEnv (regCommon ++ regAfter) := by
  have hconsumes : ∀ tx ∈ chainTxs (regCommon ++ regAfter), tx.isCoinBase = true ∨ tx.vin ≠ [] := by decide +kernel
  exact ⟨by decide, skipInvalidUTXOS_of_inactive rfl, by decide, fun tx htx => (hconsumes tx htx).imp_right Or.inl,
    by decide +kernel⟩

/-! ## Coins -/

/-- The inputs are there, and no older transaction has spent them. -/
def SpendsOnce (e : Entry) (older : List Entry) : Prop :=
  ∀ o ∈ e.1.spends, replay older o ≠ none ∧ ∀ e' ∈ older, o ∉ e'.1.spends

/-- **No output is spent twice.** -/
theorem chain_spends_once (h : ChainRun env blocks pprev v) (hok : ChainOk env blocks) :
    Along SpendsOnce (ledger (branch genesis blocks)) := by
  refine (h.connecting hok).along ?_
  intro e older v hv o ho
  obtain ⟨c, hc, -⟩ := hv.spends ho
  refine ⟨by simp [hc], fun e' he' ho' => ?_⟩
  have hnone := hv.spent e' he' o ho'
  rw [hv.coin, hc] at hnone
  cases hnone

theorem regChain_spends_once : Along SpendsOnce (ledger regActive) := chain_spends_once regState_coinsOf.1 regChain_ok

/-- The inputs that were minted are old enough. -/
def SpendsMature (p : Params) (e : Entry) (older : List Entry) : Prop := ∀ o ∈ e.1.spends, ∀ c, replay older o = some c →
  (c.fCoinBase || c.fCoinStake) = true → p.nCoinbaseMaturity ≤ (e.2 : Int) - c.nHeight

/-- **Minted coins are spent when they are mature.** -/
theorem chain_spends_mature (h : ChainRun env blocks pprev v) (hok : ChainOk env blocks) :
    Along (SpendsMature env.params) (ledger (branch genesis blocks)) := by
  refine (h.connecting hok).along ?_
  intro e older v hv o ho c hc
  obtain ⟨c', hc', hspendable⟩ := hv.spends ho
  cases hc.symm.trans hc'
  exact hspendable.mature

theorem regChain_spends_mature : Along (SpendsMature regTestParams) (ledger regActive) :=
  chain_spends_mature regState_coinsOf.1 regChain_ok

/-- The value of the inputs. -/
def spentValue (e : Entry) (older : List Entry) : Int :=
  (e.1.spends.map fun o => (replay older o).elim 0 fun c => c.out.nValue).sum

/-- An ordinary transaction pays no more than its inputs and what it takes from the shielded pool. -/
def OutputsCovered (e : Entry) (older : List Entry) : Prop := e.1.isCoinBase = false → e.1.isCoinStake = false →
  sumValues e.1.vout ≤ spentValue e older + e.1.valueBalance

theorem Connecting.outputsCovered (h : Connecting env C e older v) : OutputsCovered e older := by
  intro hcb hcs
  have hin := h.inputs hcb
  have hvalue : v.valueIn e.1.vin = spentValue e older := by
    rw [spentValue, CTransaction.spends, hcb, View.valueIn]
    simp only [Bool.false_eq_true, if_false, List.map_map]
    refine congrArg List.sum (List.map_congr_left fun txin htxin => ?_)
    simp [← h.coin, (hin.coins txin htxin).1]
  have hfee := (hin.fee hcs).1
  have hpool := fromPool_sub_toPool e.1
  omega

theorem Connecting.sum_creates_le (h : Connecting env C e older v) (keys : Finset COutPoint) :
    ∑ o ∈ keys, (entryCreates e o).elim 0 (fun c => c.out.nValue) ≤ sumValues e.1.vout := by
  have hsum := sum_find?_le (fun out => (e.1.coinOf e.2 out.2).storable) (w := fun out => out.2.nValue) keys (l := e.1.outputs) ?_
  · rw [sumValues, ← outputs_snd, List.map_map]
    refine le_trans (le_of_eq ?_) hsum
    refine Finset.sum_congr rfl fun o _ => ?_
    rw [entryCreates, CTransaction.creates, Option.elim_map]
    rfl
  · intro out hout
    exact (h.checked.values out.2 (outputs_snd e.1 ▸ List.mem_map_of_mem hout)).1

/-- What a coinbase or a coinstake pays beyond its inputs. -/
def minted (e : Entry) (older : List Entry) : Int :=
  if e.1.isCoinBase || e.1.isCoinStake then sumValues e.1.vout - spentValue e older - e.1.valueBalance else 0

/-- What the transactions have left in the shielded pool. -/
def poolValue (es : List Entry) : Int := -sumAlong (fun e _ => e.1.valueBalance) es

/-- No coins add up to more than what was minted and is not in the shielded pool. -/
def SupplyBacked (v : View) (es : List Entry) : Prop := ∀ keys : Finset COutPoint,
  ∑ o ∈ keys, (v.coin o).elim 0 (fun c => c.out.nValue) + poolValue es ≤ sumAlong minted es

/-- From the last checkpoint on, the script of every input was run. -/
def ScriptsVerified (env : Env) (e : Entry) (older : List Entry) : Prop :=
  e.1.isCoinBase = false → env.checkpoints.getTotalBlocksEstimate ≤ e.2 → ∀ input ∈ e.1.vin.zipIdx,
    ∃ c flags, replay older input.1.prevout = some c ∧
      (⟨c.out, e.1, input.2, flags⟩ : CScriptCheck).passes env.crypto = true

theorem Connecting.scriptsVerified (h : Connecting env (fun check => check.passes env.crypto = true) e older v) :
    ScriptsVerified env e older := by
  intro hcb hheight input hinput
  obtain ⟨flags, hpass⟩ := h.scripts hcb hheight input hinput
  have htxin : input.1 ∈ e.1.vin := (List.mem_zipIdx' hinput).2 ▸ List.getElem_mem _
  exact ⟨_, flags, (h.coin _).symm.trans ((h.inputs hcb).coins _ htxin).1, hpass⟩

/-- The coins of a key hash are spent with a signature of the key. -/
def KeySigned (env : Env) (e : Entry) (older : List Entry) : Prop :=
  e.1.isCoinBase = false → env.checkpoints.getTotalBlocksEstimate ≤ e.2 → ∀ input ∈ e.1.vin.zipIdx, ∀ c keyID,
    replay older input.1.prevout = some c → c.out.scriptPubKey = payToPubKeyHash keyID → keyID.length = 20 →
      ∃ key sig code, env.crypto.hash160 key = keyID ∧ (transactionSignatureChecker env.crypto e.1 input.2
        c.out.nValue).checkSig sig key code e.1.getRequiredSigVersion = true

/-- The nullifiers differ, also from the older ones. -/
def NullifiersOnce (e : Entry) (older : List Entry) : Prop :=
  (e.1.shieldedSpends.map SpendDescription.nullifier).Nodup ∧ ∀ e' ∈ older, ∀ spend ∈ e.1.shieldedSpends,
    ∀ spend' ∈ e'.1.shieldedSpends, spend.nullifier ≠ spend'.nullifier

end KrovaCoin
