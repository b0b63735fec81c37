import KrovaCoin.Validation.DisconnectBlock
import KrovaCoin.Validation.UniqueTxids

/-!
# Disconnecting takes back connecting (`validation.cpp`: `DisconnectBlock`)

`DisconnectBlock` takes back the operations of a block one by one in the sense of `Lib.undo`, with the coins as their
undo records read them.

* `disconnectOutputs_sim`, `disconnectInputs_sim`, `disconnectTx_sim`, `disconnectTxs_sim` — the loops of
  `DisconnectBlock` are backward runs.

Principal result: `disconnectBlock_restores_iff`.
-/

namespace KrovaCoin

open Lib

/-! ## Undo records -/

/-- A coin of a block after the genesis block: `AddCoin` records it, and its height fits into its field. -/
structure Coin.Recorded (c : Coin) : Prop where
  storable : c.storable = true
  height : 0 < c.nHeight ∧ c.nHeight < 1073741824

theorem Coin.readBack_eq {c : Coin} (h : c.nHeight < 1073741824) :
    c.readBack = { c with out := ⟨Compressor.amountRoundTrip c.out.nValue, c.out.scriptPubKey⟩ } := by
  have hcode : c.undoCode = c.nHeight * 4 + (if c.fCoinBase then 2 else 0) + (if c.fCoinStake then 1 else 0) := by
    apply Nat.mod_eq_of_lt
    split <;> split <;> omega
  obtain ⟨fCoinBase, fCoinStake, out, nHeight⟩ := c
  simp only [Coin.readBack, hcode, Coin.mk.injEq, true_and]
  refine ⟨?_, ?_, ?_⟩
  · cases fCoinBase <;> cases fCoinStake <;> simp <;> omega
  · cases fCoinBase <;> cases fCoinStake <;> simp <;> omega
  · cases fCoinBase <;> cases fCoinStake <;> simp <;> omega

theorem Coin.readBack_eq_self_iff {c : Coin} (h : c.nHeight < 1073741824) :
    c.readBack = c ↔ Compressor.amountRoundTrip c.out.nValue = c.out.nValue := by
  rw [Coin.readBack_eq h]
  obtain ⟨fCoinBase, fCoinStake, ⟨nValue, scriptPubKey⟩, nHeight⟩ := c
  simp only [Coin.mk.injEq, CTxOut.mk.injEq, and_true, true_and]

theorem Coin.readBack_eq_or {c : Coin} (h : c.nHeight < 1073741824) : c.readBack = c ∨ c.readBack.out ≠ c.out := by
  rw [Coin.readBack_eq h]
  obtain ⟨fCoinBase, fCoinStake, ⟨nValue, scriptPubKey⟩, nHeight⟩ := c
  simp only [Coin.mk.injEq, CTxOut.mk.injEq, and_true, true_and, ne_eq]
  exact em _

theorem Coin.Recorded.withValue {c : Coin} (h : c.Recorded) {nValue : Int} (hvalue : nValue ≠ -1) :
    Coin.Recorded { c with out := ⟨nValue, c.out.scriptPubKey⟩ } := by
  obtain ⟨hstorable, hheight⟩ := h
  refine ⟨?_, hheight⟩
  simp only [Coin.storable, Coin.isSpent, CTxOut.isNull, CTxOut.isZerocoinMint, Bool.and_eq_true, Bool.not_eq_true',
    beq_eq_false_iff_ne] at hstorable ⊢
  exact ⟨⟨hvalue, hstorable.1.2⟩, hstorable.2⟩

theorem Coin.Recorded.readBack {c : Coin} (h : c.Recorded) : c.readBack.Recorded := by
  rw [Coin.readBack_eq h.height.2]
  exact h.withValue (Compressor.amountRoundTrip_ne_null c.out.nValue)

/-! ## The loops of `DisconnectBlock` -/

/-- An operation taken back, the way `DisconnectBlock` does it. -/
def takeBack : Op COutPoint Coin → Slots COutPoint Coin × Bool → Slots COutPoint Coin × Bool :=
  undoOp Coin.out Coin.readBack

section Loops

variable {v : View} {σ : Slots COutPoint Coin} {fClean : Bool} {tx : CTransaction} {nHeight : Nat}

theorem View.Sim.matches {o : COutPoint} {out : CTxOut} (hsim : v.Sim ∅ σ) (hvalue : out.nValue ≠ -1) :
    decide (out = ((v.spendCoin o).1.getD coinEmpty).out) = decide ((σ o).1.map Coin.out = some out) := by
  have hlive := (View.spendCoin_slots hsim.tidy o).1
  rw [hsim.coin] at hlive
  rw [← hlive]
  have hnull : ∀ c : Coin, c.isSpent = true → out ≠ c.out := by
    rintro c hspent rfl
    rw [Coin.isSpent, CTxOut.isNull, beq_iff_eq] at hspent
    exact hvalue hspent
  cases hcoin : (v.spendCoin o).1 with
  | none => simpa using hnull coinEmpty rfl
  | some c =>
    cases hspent : c.isSpent with
    | true => simpa [Coin.live_of_isSpent hspent] using hnull c hspent
    | false => simp [Coin.live_of_not_isSpent hspent, eq_comm]

theorem disconnectOutput_sim {out : COutPoint × CTxOut} (hsim : v.Sim ∅ σ) (hvalue : out.2.nValue ≠ -1) :
    ∃ v' σ' fClean', disconnectOutput (v, fClean) out = (v', fClean') ∧
      (outputOps tx nHeight out).foldr takeBack (σ, fClean) = (σ', fClean') ∧ v'.Sim ∅ σ' ∧ v.SameRest v' := by
  unfold disconnectOutput outputOps
  cases hu : out.2.scriptPubKey.isUnspendable with
  | true => exact ⟨v, σ, fClean, rfl, rfl, hsim, .refl v⟩
  | false =>
    have hspend := hsim.spend out.1
    rw [Set.empty_sdiff] at hspend
    refine ⟨(v.spendCoin out.1).2, σ.pop out.1, _, rfl, ?_, hspend, .spendCoin v out.1⟩
    rw [if_neg Bool.false_ne_true, hsim.matches hvalue]
    -- an output that was dropped is taken back as one that was added
    split <;> rfl

/-- The operations of outputs at different outpoints are taken back in either order. -/
theorem outputOps_comm {out : COutPoint × CTxOut} {outs : List (COutPoint × CTxOut)}
    (hne : ∀ out' ∈ outs, out'.1 ≠ out.1) (w : Slots COutPoint Coin × Bool) :
    (outs.flatMap (outputOps tx nHeight)).foldr takeBack ((outputOps tx nHeight out).foldr takeBack w) =
      (outputOps tx nHeight out).foldr takeBack ((outs.flatMap (outputOps tx nHeight)).foldr takeBack w) := by
  -- an output takes back nothing, or one addition
  have hform : ∀ out : COutPoint × CTxOut, (∀ w, (outputOps tx nHeight out).foldr takeBack w = w) ∨
      ∀ w, (outputOps tx nHeight out).foldr takeBack w = takeBack (.add out.1 (tx.coinOf nHeight out.2)) w := by
    intro out
    unfold outputOps
    split
    · exact .inl fun _ => rfl
    · split
      · exact .inr fun _ => rfl
      · exact .inr fun _ => rfl
  induction outs with
  | nil => rfl
  | cons out' outs ih =>
    have hrest := ih fun o ho => hne o (List.mem_cons_of_mem _ ho)
    rw [List.flatMap_cons, List.foldr_append, List.foldr_append, hrest]
    rcases hform out with h | h
    · rw [h, h]
    · rcases hform out' with h' | h'
      · rw [h', h']
      · rw [h, h, h', h']
        exact undoOp_add_comm _ _ (hne out' List.mem_cons_self) _ _ _

theorem disconnectOutputs_sim {outs : List (COutPoint × CTxOut)} (hnodup : (outs.map Prod.fst).Nodup)
    (hvalues : ∀ out ∈ outs, out.2.nValue ≠ -1) (hsim : v.Sim ∅ σ) :
    ∃ v' σ' fClean', outs.foldl disconnectOutput (v, fClean) = (v', fClean') ∧
      (outs.flatMap (outputOps tx nHeight)).foldr takeBack (σ, fClean) = (σ', fClean') ∧ v'.Sim ∅ σ' ∧
      v.SameRest v' := by
  induction outs generalizing v σ fClean with
  | nil => exact ⟨v, σ, fClean, rfl, rfl, hsim, .refl v⟩
  | cons out outs ih =>
    rw [List.map_cons, List.nodup_cons] at hnodup
    obtain ⟨v1, σ1, f1, hstep, hops, hsim1, hsame1⟩ :=
      @disconnectOutput_sim v σ fClean tx nHeight out hsim (hvalues out List.mem_cons_self)
    obtain ⟨v', σ', f', hloop, hops', hsim', hsame'⟩ := @ih v1 σ1 f1 hnodup.2
      (fun o ho => hvalues o (List.mem_cons_of_mem _ ho)) hsim1
    refine ⟨v', σ', f', by rw [List.foldl_cons, hstep, hloop], ?_, hsim', hsame1.trans hsame'⟩
    rw [List.flatMap_cons, List.foldr_append, ← outputOps_comm, hops, hops']
    rintro out' hout' heq
    exact hnodup.1 (heq ▸ List.mem_map_of_mem hout')

theorem View.addCoin_absent {o : COutPoint} {c : Coin} (hc : c.storable = true) (habsent : v.coin o = none) :
    ∃ v', v.addCoin o c false = .ok v' := by
  simp only [Coin.storable, Bool.and_eq_true, Bool.not_eq_true'] at hc
  obtain ⟨⟨hspent, hu⟩, hz⟩ := hc
  unfold View.addCoin CCoinsViewCache.addCoin
  simp only [hspent, hu, hz, Bool.false_eq_true, if_false, Bool.not_false, Bool.true_and]
  rw [View.vis_top] at habsent
  cases hget : KMap.get v.top.cacheCoins o with
  | none => exact ⟨_, rfl⟩
  | some e =>
    rw [hget] at habsent
    have he : e.coin.isSpent = true := Coin.live_eq_none_iff.mp habsent
    simp [he]

theorem applyTxInUndo_sim {o : COutPoint} {c : Coin} (hsim : v.Sim ∅ σ) (hc : c.Recorded) :
    ∃ v', applyTxInUndo c v o = .ok (v', !((σ o).1).isSome) ∧
      v'.Sim ∅ (if ((σ o).1).isSome then σ.replace o c else σ.push o c) ∧ v.SameRest v' := by
  have hfetch := hsim.fetch o
  have hmeta : undoMetadata (v.fetch o) c o = .ok (c, v.fetch o) := by
    rw [undoMetadata, if_pos (Nat.pos_iff_ne_zero.mp hc.height.1)]
  have hhave : v.haveCoin o = ((σ o).1).isSome := by rw [View.haveCoin_eq, hsim.coin]
  simp only [applyTxInUndo, hmeta, ok_bind, hhave, Bool.not_not]
  cases hvis : ((σ o).1).isSome with
  | true =>
    obtain ⟨v', hadd, htidy, hslots⟩ := View.addCoin_overwrite hfetch.tidy o hc.storable
    refine ⟨v', by simp only [hadd, failing, ok_bind]; rfl, ?_, (View.SameRest.fetch v o).trans (.addCoin hadd)⟩
    exact ⟨htidy, by rw [hslots, hfetch.slots]; rfl, fun _ h => h.elim⟩
  | false =>
    have habsent : (v.fetch o).coin o = none := by
      rw [hfetch.coin]
      simpa using hvis
    obtain ⟨v', hadd⟩ := View.addCoin_absent hc.storable habsent
    obtain ⟨htidy, hslots⟩ := View.addCoin_slots hfetch.tidy hadd
    rw [if_pos hc.storable] at hslots
    refine ⟨v', by simp only [hadd, failing, ok_bind]; rfl, ?_, (View.SameRest.fetch v o).trans (.addCoin hadd)⟩
    exact ⟨htidy, by rw [hslots.1, hfetch.slots]; rfl, fun _ h => h.elim⟩

theorem disconnectInput_sim {o : COutPoint} {c : Coin} (hsim : v.Sim ∅ σ) (hc : c.Recorded) :
    ∃ v' σ' fClean', disconnectInput (v, fClean) (o, c.readBack) = .ok (v', fClean') ∧
      takeBack (.take o c) (σ, fClean) = (σ', fClean') ∧ v'.Sim ∅ σ' ∧ v.SameRest v' := by
  obtain ⟨v', happly, hsim', hsame⟩ := @applyTxInUndo_sim v σ o c.readBack hsim hc.readBack
  refine ⟨v', _, _, by rw [disconnectInput, happly]; rfl, ?_, hsim', hsame⟩
  simp only [takeBack, undoOp]
  cases ((σ o).1).isSome <;> simp

theorem disconnectInputs_sim {inputs : List (COutPoint × Coin)} (hcoins : ∀ input ∈ inputs, input.2.Recorded)
    (hsim : v.Sim ∅ σ) :
    ∃ v' σ' fClean', (inputs.map fun input => (input.1, input.2.readBack)).reverse.foldlM disconnectInput (v, fClean) =
        .ok (v', fClean') ∧
      (inputs.map fun input => Op.take input.1 input.2).foldr takeBack (σ, fClean) = (σ', fClean') ∧ v'.Sim ∅ σ' ∧
      v.SameRest v' := by
  induction inputs with
  | nil => exact ⟨v, σ, fClean, rfl, rfl, hsim, .refl v⟩
  | cons input inputs ih =>
    obtain ⟨v1, σ1, f1, hloop, hops, hsim1, hsame1⟩ := ih fun i hi => hcoins i (List.mem_cons_of_mem _ hi)
    obtain ⟨v', σ', f', hstep, hops', hsim', hsame'⟩ :=
      @disconnectInput_sim v1 σ1 f1 input.1 input.2 hsim1 (hcoins input List.mem_cons_self)
    refine ⟨v', σ', f', ?_, ?_, hsim', hsame1.trans hsame'⟩
    · rw [List.map_cons, List.reverse_cons, List.foldlM_append, hloop, ok_bind, List.foldlM_cons, hstep]
      rfl
    · rw [List.map_cons, List.foldr_cons, hops, hops']

end Loops

def View.SaplingState.mark (s : View.SaplingState) (nfs : List Uint256) (spent : Bool) : View.SaplingState :=
  { s with nullifier := fun nf => if nf ∈ nfs then spent else s.nullifier nf }

/-- The nullifiers a transaction reveals. -/
def CTransaction.nullifiers (tx : CTransaction) : List Uint256 := tx.shieldedSpends.map SpendDescription.nullifier

@[simp] theorem View.SaplingState.mark_nil (s : View.SaplingState) (spent : Bool) : s.mark [] spent = s := by
  simp [View.SaplingState.mark]

theorem View.SaplingState.mark_mark (s : View.SaplingState) (nfs nfs' : List Uint256) (spent : Bool) :
    (s.mark nfs spent).mark nfs' spent = s.mark (nfs' ++ nfs) spent := by
  simp only [View.SaplingState.mark, List.mem_append]
  refine View.SaplingState.ext (funext fun nf => ?_) rfl rfl
  by_cases hmem : nf ∈ nfs' <;> simp [hmem]

theorem View.SaplingState.mark_append_comm (s : View.SaplingState) (nfs nfs' : List Uint256) (spent : Bool) :
    s.mark (nfs ++ nfs') spent = s.mark (nfs' ++ nfs) spent := by
  simp only [View.SaplingState.mark, List.mem_append, or_comm]

theorem TxChecked.nullifiers_coinbase {p : Params} {tx : CTransaction} (h : TxChecked p tx)
    (hcb : tx.isCoinBase = true) : tx.nullifiers = [] := by
  rw [CTransaction.nullifiers, List.map_eq_nil_iff]
  by_contra hne
  have hnot := (h.sapling (hasSaplingData_of (.inr hne))).notCoinBase
  rw [hcb] at hnot
  cases hnot

theorem TxChecked.value_ne {p : Params} {tx : CTransaction} (h : TxChecked p tx) {out : COutPoint × CTxOut}
    (hout : out ∈ tx.outputs) : out.2.nValue ≠ -1 := by
  have hmem : out.2 ∈ tx.vout := outputs_snd tx ▸ List.mem_map_of_mem hout
  have := (h.values out.2 hmem).1
  omega

/-- A checked transaction with the undo data of its inputs. -/
structure TxRecorded (p : Params) (entry : CTransaction × CTxUndo) : Prop where
  tx : TxChecked p entry.1
  length : entry.2.vprevout.length = entry.1.spends.length
  coins : ∀ c ∈ entry.2.vprevout, c.Recorded

section Transactions

variable {p : Params} {v : View} {σ : Slots COutPoint Coin} {fClean : Bool} {nHeight : Nat}

theorem disconnectTx_sim {entry : CTransaction × CTxUndo} (hentry : TxRecorded p entry) (hsim : v.Sim ∅ σ) :
    ∃ v' σ' fClean', disconnectTx (v, fClean) (entry.1, entry.2.readBack) = .ok (v', fClean') ∧
      (txOps nHeight entry.1 entry.2).foldr takeBack (σ, fClean) = (σ', fClean') ∧ v'.Sim ∅ σ' ∧ v'.base = v.base ∧
      ∀ q, v'.sapling q = (v.sapling q).mark entry.1.nullifiers false := by
  obtain ⟨tx, undo⟩ := entry
  obtain ⟨htx, hlen, hcoins⟩ := hentry
  obtain ⟨v1, σ1, f1, hloop, hops, hsim1, hsame1⟩ :=
    @disconnectOutputs_sim v σ fClean tx nHeight _ (outputs_nodup htx.outs) (fun _ hout => htx.value_ne hout) hsim
  rw [disconnectTx, hloop]
  cases hcb : tx.isCoinBase with
  | true =>
    refine ⟨v1, σ1, f1, by simp, ?_, hsim1, hsame1.base, fun q => ?_⟩
    · rw [txOps, CTransaction.spends, if_pos hcb, List.foldr_append, hops]
      rfl
    · rw [htx.nullifiers_coinbase hcb, View.SaplingState.mark_nil, hsame1.sapling]
  | false =>
    have hspends : tx.spends = tx.vin.map CTxIn.prevout := by simp [CTransaction.spends, hcb]
    have hlength : undo.readBack.vprevout.length = tx.vin.length := by
      rw [CTxUndo.readBack, List.length_map, hlen, hspends, List.length_map]
    have hsim2 := (View.SameCoins.setNullifiers v1 tx false).sim hsim1
    obtain ⟨v', σ', f', hinputs, hops', hsim', hsame'⟩ :=
      @disconnectInputs_sim (v1.setNullifiers tx false) σ1 f1 (tx.spends.zip undo.vprevout)
        (fun input hinput => hcoins _ (List.of_mem_zip hinput).2) hsim2
    refine ⟨v', σ', f', ?_, ?_, hsim', hsame'.base.trans hsame1.base, fun q => ?_⟩
    · simp only [Bool.false_eq_true, if_false, hlength, ne_eq, not_true]
      rw [CTxUndo.readBack, List.zip_map_right, ← hspends]
      exact hinputs
    · rw [txOps, List.foldr_append, hops]
      exact hops'
    · rw [hsame'.sapling, View.sapling_setNullifiers, ← hsame1.sapling]
      rfl

theorem disconnectTxs_sim {entries : List (CTransaction × CTxUndo)} (hentries : ∀ entry ∈ entries, TxRecorded p entry)
    (hsim : v.Sim ∅ σ) :
    ∃ v' σ' fClean', (entries.map fun entry => (entry.1, entry.2.readBack)).reverse.foldlM disconnectTx (v, fClean) =
        .ok (v', fClean') ∧
      (blockOps nHeight entries).foldr takeBack (σ, fClean) = (σ', fClean') ∧ v'.Sim ∅ σ' ∧ v'.base = v.base ∧
      ∀ q, v'.sapling q = (v.sapling q).mark (entries.flatMap fun entry => entry.1.nullifiers) false := by
  induction entries with
  | nil => exact ⟨v, σ, fClean, rfl, rfl, hsim, rfl, fun q => (View.SaplingState.mark_nil _ _).symm⟩
  | cons entry entries ih =>
    obtain ⟨v1, σ1, f1, hloop, hops, hsim1, hbase1, hsapling1⟩ := ih fun e he => hentries e (List.mem_cons_of_mem _ he)
    obtain ⟨v', σ', f', hstep, hops', hsim', hbase', hsapling'⟩ :=
      @disconnectTx_sim p v1 σ1 f1 nHeight entry (hentries entry List.mem_cons_self) hsim1
    refine ⟨v', σ', f', ?_, ?_, hsim', hbase'.trans hbase1, fun q => ?_⟩
    · rw [List.map_cons, List.reverse_cons, List.foldlM_append, hloop, ok_bind, List.foldlM_cons, hstep]
      rfl
    · rw [blockOps, List.flatMap_cons, List.foldr_append]
      rw [blockOps] at hops
      rw [hops, hops']
    · rw [hsapling', hsapling1, View.SaplingState.mark_mark, List.flatMap_cons]

end Transactions

/-! ## The records of a connected block -/

section Records

variable {env : Env} {node : NodeState} {ctx : ConnectContext} {p : Params} {tx : CTransaction} {nHeight : Nat}
  {o : COutPoint} {c : Coin}

theorem mem_outputOps_add {out : COutPoint × CTxOut} :
    Op.add o c ∈ outputOps tx nHeight out ↔ out.1 = o ∧ tx.coinOf nHeight out.2 = c ∧ c.storable = true := by
  unfold outputOps
  split
  · rename_i hu
    simp only [List.not_mem_nil, false_iff, not_and]
    rintro - rfl
    simp [Coin.storable, CTransaction.coinOf, hu]
  · split
    · rename_i hstorable
      simp only [List.mem_singleton, Op.add.injEq]
      constructor
      · rintro ⟨rfl, rfl⟩
        exact ⟨rfl, rfl, hstorable⟩
      · rintro ⟨rfl, rfl, -⟩
        exact ⟨rfl, rfl⟩
    · rename_i hstorable
      simp only [List.mem_singleton, reduceCtorEq, false_iff, not_and]
      rintro - rfl
      exact hstorable

theorem mem_outputOps_drop {out : COutPoint × CTxOut} (hvalue : out.2.nValue ≠ -1) :
    Op.drop o c ∈ outputOps tx nHeight out ↔ out.1 = o ∧ tx.coinOf nHeight out.2 = c ∧
      out.2.isZerocoinMint = true ∧ out.2.scriptPubKey.isUnspendable = false := by
  unfold outputOps
  split
  · rename_i hu
    simp [hu]
  · rename_i hu
    have hstorable : (tx.coinOf nHeight out.2).storable = !out.2.isZerocoinMint := by
      simp [Coin.storable, CTransaction.coinOf, hu, Coin.isSpent, CTxOut.isNull, hvalue]
    rw [hstorable]
    cases out.2.isZerocoinMint with
    | true => simp [hu, eq_comm]
    | false => simp

theorem notMem_outputs_take {outs : List (COutPoint × CTxOut)} (o : COutPoint) (c : Coin) :
    Op.take o c ∉ outs.flatMap (outputOps tx nHeight) := by
  rw [List.mem_flatMap]
  rintro ⟨out, -, hmem⟩
  unfold outputOps at hmem
  split at hmem
  · cases hmem
  · split at hmem
    · simp at hmem
    · simp at hmem

theorem mem_inputOps {os : List COutPoint} {coins : List Coin} {op : Op COutPoint Coin} (h : op ∈ inputOps os coins) :
    ∃ o c, op = .take o c ∧ o ∈ os ∧ c ∈ coins := by
  obtain ⟨input, hinput, rfl⟩ := List.mem_map.mp h
  exact ⟨_, _, rfl, List.of_mem_zip hinput⟩

theorem recorded_of_add {txundo : CTxUndo} (hheight : 0 < nHeight ∧ nHeight < 1073741824)
    (h : Op.add o c ∈ txOps nHeight tx txundo) : c.Recorded := by
  rcases List.mem_append.mp h with hin | hout
  · obtain ⟨_, _, heq, -⟩ := mem_inputOps hin
    cases heq
  · obtain ⟨out, -, hmem⟩ := List.mem_flatMap.mp hout
    obtain ⟨-, rfl, hstorable⟩ := mem_outputOps_add.mp hmem
    exact ⟨hstorable, hheight⟩

theorem ConnectRun.recorded {s s' : ConnectState} {entries : List (CTransaction × CTxUndo)}
    (hvalid : ∀ o, ctx.invalidOut o = false) (hheight : 0 < ctx.nHeight ∧ ctx.nHeight < 1073741824)
    (h : ConnectRun env node ctx s entries s') :
    ∀ {own : Set COutPoint} {σ : Slots COutPoint Coin}, s.view.Sim own σ → σ.All Coin.Recorded →
      ∀ entry ∈ entries, TxRecorded env.params entry := by
  induction h with
  | nil s => simp
  | @cons s s1 s' tx txundo entries htx hstep _ ih =>
    intro own σ hsim hall entry hentry
    obtain ⟨hcoins, own1, σ1, hruns, hsim1⟩ := hstep.runs hvalid htx hsim
    obtain ⟨hall1, htaken⟩ := hruns.all hall fun o c hadd => recorded_of_add hheight hadd
    rcases List.mem_cons.mp hentry with rfl | hrest
    · have hlength : txundo.vprevout.length = tx.spends.length := by rw [hcoins, List.length_map]
      refine ⟨htx, hlength, fun c hc => ?_⟩
      -- every coin that is recorded was taken
      obtain ⟨i, hi, rfl⟩ := List.getElem_of_mem hc
      refine htaken (tx.spends[i]) _ (List.mem_append_left _ (List.mem_map.mpr ⟨(tx.spends[i], txundo.vprevout[i]), ?_, rfl⟩))
      exact List.mem_iff_getElem.mpr ⟨i, by simp [← hlength, hi], by simp⟩
    · exact ih hsim1 hall1 entry hrest

theorem blockOps_ok {entries : List (CTransaction × CTxUndo)} (hheight : 0 < nHeight ∧ nHeight < 1073741824)
    (hentries : ∀ entry ∈ entries, TxRecorded p entry) :
    ∀ op ∈ blockOps nHeight entries, op.Ok Coin.out Coin.Recorded := by
  intro op hop
  obtain ⟨entry, hentry, hop⟩ := List.mem_flatMap.mp hop
  obtain ⟨htx, -, hcoins⟩ := hentries entry hentry
  cases op with
  | add o c => exact recorded_of_add hheight hop
  | drop o c =>
    rcases List.mem_append.mp hop with hin | hout
    · obtain ⟨_, _, heq, -⟩ := mem_inputOps hin
      cases heq
    · obtain ⟨out, hmem, hdrop⟩ := List.mem_flatMap.mp hout
      obtain ⟨-, rfl, hmint, -⟩ := (mem_outputOps_drop (htx.value_ne hmem)).mp hdrop
      intro x hx heq
      have hnot := hx.storable
      simp only [Coin.storable, Bool.and_eq_true, Bool.not_eq_true'] at hnot
      rw [heq, CTransaction.coinOf] at hnot
      rw [hnot.2] at hmint
      cases hmint
  | take o c =>
    rcases List.mem_append.mp hop with hin | hout
    · obtain ⟨_, _, heq, -, hc⟩ := mem_inputOps hin
      cases heq
      exact hcoins c hc
    · exact absurd hout (notMem_outputs_take o c)

end Records

/-! ## What can stand in the way -/

/-- The outputs that `AddCoin` records. -/
def CTransaction.recorded (tx : CTransaction) : List (COutPoint × CTxOut) :=
  tx.outputs.filter fun out => !out.2.scriptPubKey.isUnspendable && !out.2.isZerocoinMint

/-- The outpoint is spent by one of the transactions. -/
def SpentIn (o : COutPoint) (vtx : List CTransaction) : Prop := ∃ tx ∈ vtx, o ∈ tx.spends

/-- The outpoint is that of an output before it is spent for the first time, and is spent after that. -/
def Replaced (o : COutPoint) : List CTransaction → Prop
  | [] => False
  | tx :: vtx => o ∉ tx.spends ∧ ((∃ out ∈ tx.recorded, out.1 = o) ∧ SpentIn o vtx ∨ Replaced o vtx)

/-- The output is created and is spent after that. -/
def CreatedSpent (out : COutPoint × CTxOut) : List CTransaction → Prop
  | [] => False
  | tx :: vtx => out ∈ tx.recorded ∧ SpentIn out.1 vtx ∨ CreatedSpent out vtx

/-- An amount that the compressed undo record keeps. -/
def AmountKept (nValue : Int) : Prop := nValue % 10 = 0 ∨ nValue ≤ 2049638230412172402

/-- A block of which `DisconnectBlock` restores the coins: it has no spendable zerocoin mint, no coin of the view is
    replaced and the replacement spent, and the amounts of what it spends survive their undo records. -/
structure Restorable (v : View) (vtx : List CTransaction) : Prop where
  mints : ∀ tx ∈ vtx, ∀ out ∈ tx.vout, out.isZerocoinMint = true → out.scriptPubKey.isUnspendable = true
  replaced : ∀ o, v.coin o ≠ none → ¬ Replaced o vtx
  coins : ∀ o c, v.coin o = some c → SpentIn o vtx → AmountKept c.out.nValue
  outputs : ∀ out, CreatedSpent out vtx → AmountKept out.2.nValue

instance (o : COutPoint) (vtx : List CTransaction) : Decidable (SpentIn o vtx) :=
  inferInstanceAs (Decidable (∃ tx ∈ vtx, o ∈ tx.spends))

instance decidableReplaced (o : COutPoint) : (vtx : List CTransaction) → Decidable (Replaced o vtx)
  | [] => .isFalse id
  | tx :: vtx =>
    have := decidableReplaced o vtx
    inferInstanceAs (Decidable (o ∉ tx.spends ∧ ((∃ out ∈ tx.recorded, out.1 = o) ∧ SpentIn o vtx ∨ Replaced o vtx)))

instance (nValue : Int) : Decidable (AmountKept nValue) :=
  inferInstanceAs (Decidable (nValue % 10 = 0 ∨ nValue ≤ 2049638230412172402))

theorem CreatedSpent.recorded {out : COutPoint × CTxOut} {vtx : List CTransaction} (h : CreatedSpent out vtx) :
    ∃ tx ∈ vtx, out ∈ tx.recorded := by
  induction vtx with
  | nil => exact h.elim
  | cons tx vtx ih =>
    rcases h with ⟨hout, -⟩ | hrest
    · exact ⟨tx, List.mem_cons_self, hout⟩
    · obtain ⟨t, ht, hout⟩ := ih hrest
      exact ⟨t, List.mem_cons_of_mem _ ht, hout⟩

section Conditions

variable {p : Params} {nHeight : Nat} {entries : List (CTransaction × CTxUndo)} {o : COutPoint} {c : Coin}

theorem add_mem_outputs {tx : CTransaction} (htx : TxChecked p tx) :
    Op.add o c ∈ tx.outputs.flatMap (outputOps tx nHeight) ↔
      ∃ out ∈ tx.recorded, out.1 = o ∧ tx.coinOf nHeight out.2 = c := by
  simp only [List.mem_flatMap, mem_outputOps_add, CTransaction.recorded, List.mem_filter]
  constructor
  · rintro ⟨out, hout, ho, rfl, hstorable⟩
    simp only [Coin.storable, CTransaction.coinOf, Bool.and_assoc, Bool.and_eq_true] at hstorable
    exact ⟨out, ⟨hout, by simpa using hstorable.2⟩, ho, rfl⟩
  · rintro ⟨out, ⟨hout, hrecorded⟩, ho, rfl⟩
    refine ⟨out, hout, ho, rfl, ?_⟩
    have hvalue := htx.value_ne hout
    rw [Bool.and_eq_true] at hrecorded
    simp [Coin.storable, CTransaction.coinOf, Coin.isSpent, CTxOut.isNull, hvalue, hrecorded]

theorem TxRecorded.inputs {entry : CTransaction × CTxUndo} (h : TxRecorded p entry) :
    (entry.1.spends.zip entry.2.vprevout).map Prod.fst = entry.1.spends :=
  List.map_fst_zip h.length.ge

theorem taken_blockOps (hentries : ∀ entry ∈ entries, TxRecorded p entry) :
    Taken o (blockOps nHeight entries) ↔ SpentIn o (entries.map Prod.fst) := by
  constructor
  · rintro ⟨c, htake⟩
    obtain ⟨entry, hentry, hop⟩ := List.mem_flatMap.mp htake
    rcases List.mem_append.mp hop with hin | hout
    · obtain ⟨_, _, heq, ho, -⟩ := mem_inputOps hin
      cases heq
      exact ⟨entry.1, List.mem_map_of_mem hentry, ho⟩
    · exact absurd hout (notMem_outputs_take o c)
  · rintro ⟨tx, htx, ho⟩
    obtain ⟨entry, hentry, rfl⟩ := List.mem_map.mp htx
    rw [← (hentries entry hentry).inputs, List.mem_map] at ho
    obtain ⟨⟨o, c⟩, hmem, rfl⟩ := ho
    exact ⟨c, List.mem_flatMap.mpr ⟨entry, hentry, List.mem_append_left _ (List.mem_map.mpr ⟨(o, c), hmem, rfl⟩)⟩⟩

theorem coveredTake_blockOps (hentries : ∀ entry ∈ entries, TxRecorded p entry) :
    CoveredTake o (blockOps nHeight entries) ↔ Replaced o (entries.map Prod.fst) := by
  induction entries with
  | nil => exact Iff.rfl
  | cons entry entries ih =>
    have hentry := hentries entry List.mem_cons_self
    have hrest : ∀ e ∈ entries, TxRecorded p e := fun e he => hentries e (List.mem_cons_of_mem _ he)
    have hops : blockOps nHeight (entry :: entries) = inputOps entry.1.spends entry.2.vprevout ++
        (entry.1.outputs.flatMap (outputOps entry.1 nHeight) ++ blockOps nHeight entries) := by
      rw [blockOps, List.flatMap_cons, txOps, List.append_assoc]
      rfl
    have hadds : (∃ c, Op.add o c ∈ entry.1.outputs.flatMap (outputOps entry.1 nHeight)) ↔
        ∃ out ∈ entry.1.recorded, out.1 = o := by
      simp only [add_mem_outputs hentry.tx]
      constructor
      · rintro ⟨_, out, hout, ho, -⟩
        exact ⟨out, hout, ho⟩
      · rintro ⟨out, hout, ho⟩
        exact ⟨_, out, hout, ho, rfl⟩
    rw [hops, inputOps, coveredTake_append_takes, hentry.inputs, coveredTake_append notMem_outputs_take, hadds, ih hrest,
      taken_blockOps hrest]
    rfl

theorem addedTaken_blockOps (hentries : ∀ entry ∈ entries, TxRecorded p entry) {out : CTxOut} :
    (∃ c, AddedTaken o c (blockOps nHeight entries) ∧ c.out = out) ↔ CreatedSpent (o, out) (entries.map Prod.fst) := by
  induction entries with
  | nil =>
    constructor
    · rintro ⟨_, h, -⟩
      exact h
    · exact False.elim
  | cons entry entries ih =>
    have hentry := hentries entry List.mem_cons_self
    have hrest : ∀ e ∈ entries, TxRecorded p e := fun e he => hentries e (List.mem_cons_of_mem _ he)
    have hops : ∀ c, AddedTaken o c (blockOps nHeight (entry :: entries)) ↔
        (∃ out ∈ entry.1.recorded, out.1 = o ∧ entry.1.coinOf nHeight out.2 = c) ∧ SpentIn o (entries.map Prod.fst) ∨
          AddedTaken o c (blockOps nHeight entries) := by
      intro c
      rw [blockOps, List.flatMap_cons, txOps, List.append_assoc, inputOps, addedTaken_append_takes,
        addedTaken_append notMem_outputs_take, add_mem_outputs hentry.tx, ← taken_blockOps hrest]
      rfl
    rw [List.map_cons, CreatedSpent, ← ih hrest]
    constructor
    · rintro ⟨c, hc, rfl⟩
      rcases (hops c).mp hc with ⟨⟨out, hout, rfl, rfl⟩, hspent⟩ | hlater
      · exact .inl ⟨hout, hspent⟩
      · exact .inr ⟨c, hlater, rfl⟩
    · rintro (⟨hout, hspent⟩ | ⟨c, hlater, hc⟩)
      · exact ⟨_, (hops _).mpr (.inl ⟨⟨_, hout, rfl, rfl⟩, hspent⟩), rfl⟩
      · exact ⟨c, (hops c).mpr (.inr hlater), hc⟩

theorem add_mem_blockOps (h : Op.add o c ∈ blockOps nHeight entries) :
    ∃ entry ∈ entries, c.out ∈ entry.1.vout ∧ Op.add o c ∈ txOps nHeight entry.1 entry.2 := by
  obtain ⟨entry, hentry, hop⟩ := List.mem_flatMap.mp h
  refine ⟨entry, hentry, ?_, hop⟩
  rcases List.mem_append.mp hop with hin | hout
  · obtain ⟨_, _, heq, -⟩ := mem_inputOps hin
    cases heq
  · obtain ⟨out, hmem, hadd⟩ := List.mem_flatMap.mp hout
    obtain ⟨-, rfl, -⟩ := mem_outputOps_add.mp hadd
    exact outputs_snd entry.1 ▸ List.mem_map_of_mem hmem

theorem Coin.readBack_eq_self_iff_kept (hheight : c.nHeight < 1073741824)
    (hvalue : 0 ≤ c.out.nValue ∧ c.out.nValue ≤ 7200000000000000000) : c.readBack = c ↔ AmountKept c.out.nValue := by
  rw [Coin.readBack_eq_self_iff hheight, Compressor.amountRoundTrip_eq_iff hvalue.1 hvalue.2]
  rfl

theorem undoable_iff {v : View} (hmax : p.nMaxMoneyOut ≤ 7200000000000000000)
    (hheight : 0 < nHeight ∧ nHeight < 1073741824) (hentries : ∀ entry ∈ entries, TxRecorded p entry)
    (huncovered : v.slots.Uncovered)
    (hcoins : ∀ o c, v.coin o = some c → c.Recorded ∧ 0 ≤ c.out.nValue ∧ c.out.nValue ≤ p.nMaxMoneyOut) :
    Undoable Coin.readBack ∅ v.slots (blockOps nHeight entries) ↔ Restorable v (entries.map Prod.fst) := by
  have hview : ∀ o c, v.coin o = some c → (c.readBack = c ↔ AmountKept c.out.nValue) := by
    intro o c hc
    obtain ⟨hrecorded, hvalue⟩ := hcoins o c hc
    exact Coin.readBack_eq_self_iff_kept hrecorded.height.2 ⟨hvalue.1, hvalue.2.trans hmax⟩
  have hadded : ∀ o c, AddedTaken o c (blockOps nHeight entries) → (c.readBack = c ↔ AmountKept c.out.nValue) := by
    intro o c hc
    obtain ⟨entry, hentry, hout, hadd⟩ := add_mem_blockOps hc.mem
    have hvalue := (hentries entry hentry).tx.values c.out hout
    exact Coin.readBack_eq_self_iff_kept (recorded_of_add hheight hadd).height.2 ⟨hvalue.1, hvalue.2.trans hmax⟩
  constructor
  · rintro ⟨hdrop, -, hover, hvis, hadd⟩
    refine ⟨fun tx htx out hout hmint => ?_, fun o ho hrep => ?_, fun o c hc hspent => ?_, fun out hcs => ?_⟩
    · obtain ⟨entry, hentry, rfl⟩ := List.mem_map.mp htx
      rw [← outputs_snd] at hout
      obtain ⟨out, hmem, rfl⟩ := List.mem_map.mp hout
      by_contra hu
      refine hdrop _ _ (List.mem_flatMap.mpr ⟨entry, hentry, List.mem_append_right _ (List.mem_flatMap.mpr
        ⟨out, hmem, (mem_outputOps_drop ((hentries entry hentry).tx.value_ne hmem)).mpr ⟨rfl, rfl, hmint, ?_⟩⟩)⟩)
      simpa using hu
    · exact hover o (Set.notMem_empty o) ho ((coveredTake_blockOps hentries).mpr hrep)
    · exact (hview o c hc).mp (hvis o c hc ((taken_blockOps hentries).mpr hspent))
    · obtain ⟨c, hc, hout⟩ := (addedTaken_blockOps hentries).mpr hcs
      rw [← hout]
      exact (hadded _ c hc).mp (hadd _ c hc)
  · rintro ⟨hmints, hreplaced, hamounts, houtputs⟩
    refine ⟨fun o c hmem => ?_, fun o _ => huncovered o, fun o _ ho hcov => ?_, fun o c hc htaken => ?_,
      fun o c hc => ?_⟩
    · obtain ⟨entry, hentry, hop⟩ := List.mem_flatMap.mp hmem
      rcases List.mem_append.mp hop with hin | hout
      · obtain ⟨_, _, heq, -⟩ := mem_inputOps hin
        cases heq
      · obtain ⟨out, hout, hdrop⟩ := List.mem_flatMap.mp hout
        obtain ⟨-, -, hmint, hu⟩ := (mem_outputOps_drop ((hentries entry hentry).tx.value_ne hout)).mp hdrop
        have := hmints entry.1 (List.mem_map_of_mem hentry) out.2 (outputs_snd entry.1 ▸ List.mem_map_of_mem hout) hmint
        rw [hu] at this
        cases this
    · exact hreplaced o ho ((coveredTake_blockOps hentries).mp hcov)
    · exact (hview o c hc).mpr (hamounts o c hc ((taken_blockOps hentries).mp htaken))
    · exact (hadded o c hc).mpr (houtputs (o, c.out) ((addedTaken_blockOps hentries).mp ⟨c, hc, rfl⟩))

end Conditions

/-! ## What a connected block leaves of the anchors -/

structure View.SameAnchors (v v' : View) : Prop where
  base : v'.base = v.base
  anchors : v'.top.cacheSaplingAnchors = v.top.cacheSaplingAnchors
  best : v'.top.hashSaplingAnchor = v.top.hashSaplingAnchor

namespace View

variable {v v' v'' : View}

theorem SameAnchors.trans (h : v.SameAnchors v') (h' : v'.SameAnchors v'') : v.SameAnchors v'' :=
  ⟨h'.base.trans h.base, h'.anchors.trans h.anchors, h'.best.trans h.best⟩

theorem SameRest.sameAnchors (h : v.SameRest v') : v.SameAnchors v' :=
  ⟨h.base, by rw [h.top], by rw [h.top]⟩

theorem SameAnchors.getSaplingAnchorAt (h : v.SameAnchors v') (q : PedersenHash) :
    v'.getSaplingAnchorAt q = v.getSaplingAnchorAt q := getSaplingAnchorAt_congr h.base q h.anchors

theorem SameAnchors.getBestAnchor (h : v.SameAnchors v') (q : PedersenHash) :
    v'.getBestAnchor q = v.getBestAnchor q := getBestAnchor_congr h.base q h.best

/-- The tree of the best anchor is known after `PushAnchor`, if it was before and the cache has not set its own. -/
theorem pushAnchor_known {q : PedersenHash} (hunset : v.top.hashSaplingAnchor = UINT256_ZERO)
    (hknown : (v.getSaplingAnchorAt q (v.getBestAnchor q)).isSome = true) (tree : SaplingMerkleTree) :
    ((v.pushAnchor q tree).getSaplingAnchorAt q ((v.pushAnchor q tree).getBestAnchor q)).isSome = true := by
  have hbest := getBestAnchor_eq q v
  rw [if_pos hunset] at hbest
  rw [pushAnchor_eq]
  split
  · have hasked : (v.asked q).getBestAnchor q = v.getBestAnchor q := congrArg SaplingState.best (asked_sapling q v)
    rw [hasked, @getSaplingAnchorAt_congr v (v.asked q) rfl q rfl]
    exact hknown
  · rename_i hne
    rw [getBestAnchor_eq, getSaplingAnchorAt_eq]
    by_cases hnull : q.root tree = UINT256_ZERO
    · -- the cache still answers with the best anchor of the base
      rw [hbest] at hne hknown
      rw [if_pos hnull, KMap.get_set_ne _ _ hne, ← getSaplingAnchorAt_eq q v]
      exact hknown
    · rw [if_neg hnull, KMap.get_set_self]
      rfl

end View

theorem updateCoins_sapling {tx : CTransaction} {v v' : View} {nHeight : Nat} {invalidOut : COutPoint → Bool}
    {txundo : CTxUndo} (h : updateCoins tx v nHeight invalidOut = .ok (v', txundo)) :
    (∀ q, v'.sapling q = (v.sapling q).mark tx.nullifiers true) ∧ v.SameAnchors v' := by
  simp only [updateCoins, bind_eq_ok, pure_eq_ok, Prod.mk.injEq] at h
  obtain ⟨v2, hadd, rfl, -⟩ := h
  have hspend := View.spendCoins_sameRest tx.spends v
  have hcoins := View.addCoins_sameRest hadd
  constructor
  · intro q
    rw [hcoins.sapling, View.sapling_setNullifiers, ← hspend.sapling]
    rfl
  · have hmark : (v.spendCoins tx.spends).1.SameAnchors ((v.spendCoins tx.spends).1.setNullifiers tx true) :=
      ⟨rfl, rfl, rfl⟩
    exact hspend.sameAnchors.trans (hmark.trans hcoins.sameAnchors)

theorem ConnectRun.sapling {env : Env} {node : NodeState} {ctx : ConnectContext} {s s' : ConnectState}
    {entries : List (CTransaction × CTxUndo)} (h : ConnectRun env node ctx s entries s') :
    (∀ q, s'.view.sapling q = (s.view.sapling q).mark (entries.flatMap fun entry => entry.1.nullifiers) true) ∧
      s.view.SameAnchors s'.view := by
  induction h with
  | nil s => exact ⟨fun q => (View.SaplingState.mark_nil _ _).symm, rfl, rfl, rfl⟩
  | cons _ hstep _ ih =>
    obtain ⟨hsapling, hsame⟩ := updateCoins_sapling hstep.coins
    refine ⟨fun q => ?_, hsame.trans ih.2⟩
    rw [ih.1, hsapling, View.SaplingState.mark_mark, List.flatMap_cons, View.SaplingState.mark_append_comm]

/-! ## Connecting and disconnecting -/

section Restores

variable {env : Env} {node : NodeState} {block : CBlock} {pprev : CBlockIndex} {v v0 : View} {r : Connected}
  {tree : SaplingMerkleTree} {s : ConnectState}

theorem undo_entries {p : Params} {entries : List (CTransaction × CTxUndo)} {vtx : List CTransaction}
    (hentries : ∀ entry ∈ entries, TxRecorded p entry) (hvtx : entries.map Prod.fst = vtx)
    (hcb : ∃ cb txs, vtx = cb :: txs ∧ cb.isCoinBase = true) :
    (entries.map Prod.snd).tail.length + 1 = vtx.length ∧
      vtx.zip (⟨[]⟩ :: (entries.map Prod.snd).tail.map CTxUndo.readBack) =
        entries.map fun entry => (entry.1, entry.2.readBack) := by
  obtain ⟨cb, txs, rfl, hcb⟩ := hcb
  cases entries with
  | nil => cases hvtx
  | cons entry entries =>
    obtain ⟨rfl, rfl⟩ := hvtx
    have hnil : entry.2.vprevout = [] := by
      have hlength := (hentries entry List.mem_cons_self).length
      rw [CTransaction.spends, if_pos hcb] at hlength
      exact List.length_eq_zero_iff.mp hlength
    have hback : entry.2.readBack = ⟨[]⟩ := by rw [CTxUndo.readBack, hnil, List.map_nil]
    constructor
    · simp
    · rw [List.map_cons, List.tail_cons, List.zip_cons_cons, List.map_cons, hback, List.map_map, List.zip_map']
      rfl

/-- The anchor that `DisconnectBlock` sets back. -/
def oldAnchor (p : Params) (pprev : CBlockIndex) : Uint256 :=
  if p.networkUpgradeActive pprev.nHeight .UPGRADE_V5_0 then pprev.hashFinalSaplingRoot else PedersenHash.emptyRoot

/-- **What `DisconnectBlock` does with the undo data of a connected block**: the operations of the block are taken back,
    the nullifiers are unmarked, the anchor is popped and the best block is the parent again. -/
theorem disconnectBlock_sim {w : View} {σ : Slots COutPoint Coin} {entries : List (CTransaction × CTxUndo)}
    (hentries : ∀ entry ∈ entries, TxRecorded env.params entry) (hvtx : entries.map Prod.fst = block.vtx)
    (hcb : ∃ cb txs, block.vtx = cb :: txs ∧ cb.isCoinBase = true) (hsim : w.Sim ∅ σ)
    (hknown : (w.getSaplingAnchorAt env.pedersen (w.getBestAnchor env.pedersen)).isSome = true) (nHeight : Nat) :
    ∃ (σ' : Slots COutPoint Coin) (fClean : Bool) (w' : View),
      undo Coin.out Coin.readBack (blockOps nHeight entries) σ = (σ', fClean) ∧
      disconnectBlock env block (some pprev) (some ⟨(entries.map Prod.snd).tail⟩) w =
        .ok (if fClean then .DISCONNECT_OK else .DISCONNECT_UNCLEAN, w'.setBestBlock pprev.hash) ∧
      w'.Sim ∅ σ' ∧ w'.base = w.base ∧
      (oldAnchor env.params pprev ≠ UINT256_ZERO → w'.sapling env.pedersen =
        ((w.sapling env.pedersen).mark (block.vtx.flatMap CTransaction.nullifiers) false).pop
          (oldAnchor env.params pprev)) := by
  obtain ⟨v1, σ', fClean, hloop, hops, hsim1, hbase1, hsapling1⟩ :=
    @disconnectTxs_sim env.params w σ true nHeight entries hentries hsim
  obtain ⟨hlength, hzip⟩ := undo_entries hentries hvtx hcb
  have hsapling := hsapling1 env.pedersen
  have hknown1 : (v1.getSaplingAnchorAt env.pedersen (v1.getBestAnchor env.pedersen)).isSome = true := by
    have hanchor : v1.getSaplingAnchorAt env.pedersen = w.getSaplingAnchorAt env.pedersen :=
      congrArg View.SaplingState.anchor hsapling
    have hbest : v1.getBestAnchor env.pedersen = w.getBestAnchor env.pedersen :=
      congrArg View.SaplingState.best hsapling
    rw [hanchor, hbest]
    exact hknown
  obtain ⟨w', hpop, hsame, hstate⟩ := @View.popAnchor_ok v1 env.pedersen (oldAnchor env.params pprev) fun _ => hknown1
  refine ⟨σ', fClean, w', hops, ?_, hsame.sim hsim1, hsame.base.trans hbase1, fun hnull => ?_⟩
  · rw [disconnectBlock]
    rw [if_neg (not_not_intro hlength), hzip, hloop]
    dsimp only
    rw [show (if env.params.networkUpgradeActive pprev.nHeight .UPGRADE_V5_0 then pprev.hashFinalSaplingRoot
      else PedersenHash.emptyRoot) = oldAnchor env.params pprev from rfl, hpop]
    rfl
  · rw [hstate hnull, hsapling, ← hvtx, List.flatMap_map]

/-- **What `ConnectBlock` leaves on a new cache**: its operations have run, their records are its undo data, and of the
    Sapling state the nullifiers are marked and the tree is pushed. -/
theorem BlockConnected.runs (hmax : 0 ≤ env.params.nMaxMoneyOut ∧ env.params.nMaxMoneyOut ≤ 7200000000000000000)
    (hzc : env.params.nActivationHeight .UPGRADE_ZC = NO_ACTIVATION_HEIGHT) (hnew : v.top = .new)
    (hcoins : ∀ o c, v.coin o = some c → c.Recorded) (hheight : pprev.nHeight + 1 < 1073741824)
    (h : BlockConnected env node block pprev v r tree v0 s) :
    ∃ entries own' σ', entries.map Prod.fst = block.vtx ∧ (∀ entry ∈ entries, TxRecorded env.params entry) ∧
      ConnectRun env node (.of env node block (some pprev)) ⟨v0, 0, 0, 0, 0, [], tree, []⟩ entries s ∧
      r.blockundo = some ⟨(entries.map Prod.snd).tail⟩ ∧
      Runs ∅ v.slots (blockOps (pprev.nHeight + 1) entries) own' σ' ∧ σ'.All Coin.Recorded ∧ r.view.Sim ∅ σ' := by
  obtain ⟨htidy, huncovered⟩ := View.tidy_of_new hnew
  have hvalid : ∀ o, (ConnectContext.of env node block (some pprev)).invalidOut o = false := by
    intro o
    simp [ConnectContext.of, skipInvalidUTXOS_of_inactive hzc]
  have hall : v.slots.All Coin.Recorded := by
    rintro o c (hc | hc)
    · exact hcoins o c hc
    · rw [huncovered o] at hc
      cases hc
  have hsim0 := checkSuperblock_sim htidy.sim h.superblock
  obtain ⟨entries, hvtx, hrun⟩ := connectRun_of_foldlM ⟨hmax.1, by omega⟩ h.checked.txs h.loop
  have hentries := hrun.recorded hvalid ⟨Nat.succ_pos _, hheight⟩ hsim0 hall
  obtain ⟨own', σ', hruns, hsim'⟩ := hrun.coins hvalid hsim0
  obtain ⟨hall', -⟩ := hruns.all hall fun o c hadd => by
    obtain ⟨entry, -, -, hop⟩ := add_mem_blockOps hadd
    exact recorded_of_add ⟨Nat.succ_pos _, hheight⟩ hop
  refine ⟨entries, own', σ', hvtx, hentries, hrun, ?_, hruns, hall', ?_⟩
  · rw [h.result, hrun.vtxundo]
    rfl
  · rw [h.result]
    have hlast := (View.SameCoins.setBestBlock (s.view.pushAnchor env.pedersen s.sapling_tree) block.hash).sim
      ((View.SameCoins.pushAnchor env.pedersen s.view s.sapling_tree).sim hsim')
    exact ⟨hlast.tidy, hlast.slots, fun _ ho => ho.elim⟩

theorem bestTree_eq_ok {p : PedersenHash} (h : bestTree p v = .ok tree) :
    v.getSaplingAnchorAt p (v.getBestAnchor p) = some tree := by
  unfold bestTree at h
  split at h
  · cases h
  · rename_i t ht
    cases h
    exact ht

theorem BlockConnected.known (hnew : v.top = .new) {entries : List (CTransaction × CTxUndo)}
    (h : BlockConnected env node block pprev v r tree v0 s)
    (hrun : ConnectRun env node (.of env node block (some pprev)) ⟨v0, 0, 0, 0, 0, [], tree, []⟩ entries s) :
    v.SameAnchors s.view ∧
      (r.view.getSaplingAnchorAt env.pedersen (r.view.getBestAnchor env.pedersen)).isSome = true := by
  have hanchors := (checkSuperblock_sameRest h.superblock).sameAnchors.trans hrun.sapling.2
  refine ⟨hanchors, ?_⟩
  have hunset : s.view.top.hashSaplingAnchor = UINT256_ZERO := by
    rw [hanchors.best, hnew]
    rfl
  have hknown : (s.view.getSaplingAnchorAt env.pedersen (s.view.getBestAnchor env.pedersen)).isSome = true := by
    rw [hanchors.getSaplingAnchorAt, hanchors.getBestAnchor, bestTree_eq_ok h.bestTree]
    rfl
  have hpush : r.view.sapling env.pedersen = (s.view.pushAnchor env.pedersen s.sapling_tree).sapling env.pedersen := by
    rw [h.result]
    exact View.sapling_setBestBlock _ _ _
  have hanchor : r.view.getSaplingAnchorAt env.pedersen = _ := congrArg View.SaplingState.anchor hpush
  have hbest : r.view.getBestAnchor env.pedersen = _ := congrArg View.SaplingState.best hpush
  rw [hanchor, hbest]
  exact View.pushAnchor_known hunset hknown s.sapling_tree

theorem BlockConnected.best_restored (hnew : v.top = .new) (h : BlockConnected env node block pprev v r tree v0 s)
    {w : View} (hbase : w.base = v.base) : (w.setBestBlock pprev.hash).getBestBlock = v.getBestBlock := by
  rw [h.best]
  apply View.getBestBlock_setBestBlock
  intro hnull
  have hbest := h.best
  rw [View.getBestBlock_eq, hnew, hnull] at hbest
  rw [hbase]
  exact hbest

end Restores

/-- **A connected block is disconnected cleanly, with the coins and the best block that were there before, if and only if
    it is not the genesis block and is restorable.** -/
theorem disconnectBlock_restores_iff {env : Env} {node : NodeState} {block : CBlock} {pprev : Option CBlockIndex} {v : View}
    {r : Connected} (hmax : 0 ≤ env.params.nMaxMoneyOut ∧ env.params.nMaxMoneyOut ≤ 7200000000000000000)
    (hzc : env.params.nActivationHeight .UPGRADE_ZC = NO_ACTIVATION_HEIGHT) (hnew : v.top = .new)
    (hcoins : ∀ o c, v.coin o = some c → c.Recorded ∧ env.params.moneyRange c.out.nValue = true)
    (hheight : nextHeight pprev < 1073741824) (h : connectBlock env node block pprev v false = .ok r) :
    (∃ v', disconnectBlock env block pprev r.blockundo r.view = .ok (.DISCONNECT_OK, v') ∧ v'.coin = v.coin ∧
      v'.getBestBlock = v.getBestBlock) ↔ block.hash ≠ env.params.hashGenesisBlock ∧ Restorable v block.vtx := by
  by_cases hgenesis : block.hash = env.params.hashGenesisBlock
  · -- no undo data are written for the genesis block
    have hundo : r.blockundo = none := by
      simp only [connectBlock, bind_eq_ok, rejectIf_eq_ok, exists_and_left, exists_const, if_pos hgenesis] at h
      obtain ⟨_, -, -, -, h⟩ := h
      cases h
      rfl
    rw [hundo]
    constructor
    · rintro ⟨v', hdisconnect, -⟩
      cases hdisconnect
    · rintro ⟨hne, -⟩
      exact absurd hgenesis hne
  obtain ⟨pprev, tree, v0, s, rfl, hconnected⟩ := connectBlock_ok ⟨hmax.1, by omega⟩ hgenesis h
  obtain ⟨entries, own', σ', hvtx, hentries, hrun, hblockundo, hruns, hall, hview⟩ :=
    hconnected.runs hmax hzc hnew (fun o c hc => (hcoins o c hc).1) hheight
  obtain ⟨hanchors, hknown⟩ := hconnected.known hnew hrun
  obtain ⟨σ'', fClean, w, hundo, hdisconnect, hsim, hbase, -⟩ := @disconnectBlock_sim env block pprev r.view σ' entries hentries
    hvtx (hconnected.checked.coinbase.imp fun _ hcb => hcb.imp fun _ htxs => ⟨htxs.1, htxs.2.1⟩) hview hknown
    (pprev.nHeight + 1)
  have hbest : (w.setBestBlock pprev.hash).getBestBlock = v.getBestBlock := by
    apply hconnected.best_restored hnew
    rw [hbase, hconnected.result]
    exact (View.SameCoins.pushAnchor env.pedersen s.view s.sapling_tree).base.trans hanchors.base
  have hheight' : 0 < pprev.nHeight + 1 ∧ pprev.nHeight + 1 < 1073741824 := ⟨Nat.succ_pos _, hheight⟩
  have hgood := hruns.undo_iff (blockOps_ok hheight' hentries) (fun c hc => hc.readBack)
    (fun c hc => Coin.readBack_eq_or hc.height.2) hall
  rw [hruns.good_iff, hundo, undoable_iff hmax.2 hheight' hentries (View.tidy_of_new hnew).2
    (fun o c hc => ⟨(hcoins o c hc).1, (Params.moneyRange_iff _ _).mp (hcoins o c hc).2⟩), hvtx] at hgood
  have hcoin : ∀ o, (w.setBestBlock pprev.hash).coin o = (σ'' o).1 :=
    ((View.SameCoins.setBestBlock w pprev.hash).sim hsim).coin
  rw [hblockundo, hdisconnect, ← hgood]
  constructor
  · rintro ⟨w', hok, hcoins', -⟩
    rw [Except.ok.injEq, Prod.mk.injEq] at hok
    obtain ⟨hresult, rfl⟩ := hok
    refine ⟨hgenesis, ?_, fun o => ?_⟩
    · cases fClean with
      | true => rfl
      | false => cases hresult
    · rw [← hcoin, hcoins']
      rfl
  · rintro ⟨-, rfl, hrestored⟩
    refine ⟨w.setBestBlock pprev.hash, rfl, funext fun o => ?_, hbest⟩
    rw [hcoin, hrestored]
    rfl

theorem sampleView_coin {nValue : Int} {o : COutPoint} {c : Coin}
    (h : (sampleView [(⟨7, 0⟩, ⟨false, false, ⟨nValue, [OP_1]⟩, 1⟩)]).coin o = some c) :
    o = ⟨7, 0⟩ ∧ c = ⟨false, false, ⟨nValue, [OP_1]⟩, 1⟩ := by
  have hbase : (sampleView [(⟨7, 0⟩, ⟨false, false, ⟨nValue, [OP_1]⟩, 1⟩)]).coin o =
      (KMap.get (KMap.set ∅ ⟨7, 0⟩ (some ⟨false, false, ⟨nValue, [OP_1]⟩, 1⟩)) o).bind Coin.live := rfl
  rw [hbase, KMap.get_set] at h
  split at h
  · rename_i ho
    rw [Option.bind_some, Coin.live_eq_some] at h
    exact ⟨ho, h.1.symm⟩
  · cases h

theorem plainBlock_restored :
    ∃ r, connectBlock sampleEnv sampleNode (sampleBlock [plainTx]) (some sampleParent) plainView false = .ok r ∧
      ∃ v', disconnectBlock sampleEnv (sampleBlock [plainTx]) (some sampleParent) r.blockundo r.view =
        .ok (.DISCONNECT_OK, v') ∧ v'.coin = plainView.coin ∧ v'.getBestBlock = plainView.getBestBlock := by
  obtain ⟨r, hr⟩ := exists_ok_of_toBool (x := connectBlock sampleEnv sampleNode (sampleBlock [plainTx]) (some sampleParent)
    plainView false) (by decide +kernel)
  refine ⟨r, hr, (disconnectBlock_restores_iff (by decide) rfl rfl (fun o c hc => ?_) (by decide) hr).mpr ⟨by decide, ?_⟩⟩
  · obtain ⟨-, rfl⟩ := sampleView_coin hc
    exact ⟨⟨by decide, by decide⟩, by decide⟩
  · refine ⟨by decide, fun o ho => ?_, fun o c hc _ => ?_, fun out hout => ?_⟩
    · obtain ⟨c, hc⟩ := Option.ne_none_iff_exists'.mp ho
      obtain ⟨rfl, -⟩ := sampleView_coin hc
      decide
    · obtain ⟨-, rfl⟩ := sampleView_coin hc
      decide
    · obtain ⟨tx, htx, hmem⟩ := hout.recorded
      have hall : ∀ tx ∈ (sampleBlock [plainTx]).vtx, ∀ out ∈ tx.recorded, AmountKept out.2.nValue := by decide
      exact hall tx htx out hmem

def mintTx : CTransaction := { plainTx with vout := [⟨900, [OP_ZEROCOINMINT]⟩] }

/-- A coin whose amount does not survive its undo record. -/
def lossyView : View := sampleView [(⟨7, 0⟩, ⟨false, false, ⟨2049638230412172403, [OP_1]⟩, 1⟩)]

/-- What connecting the block and disconnecting it gives: the result, and the value of the coin that was spent. -/
def connectDisconnect (tx : CTransaction) (v : View) : Option (DisconnectResult × Option Int) :=
  match connectBlock sampleEnv sampleNode (sampleBlock [tx]) (some sampleParent) v false with
  | .error _ => none
  | .ok r =>
    match disconnectBlock sampleEnv (sampleBlock [tx]) (some sampleParent) r.blockundo r.view with
    | .error _ => none
    | .ok (result, v') => some (result, (v'.coin ⟨7, 0⟩).map fun c => c.out.nValue)

/-- A block with a zerocoin mint is not disconnected cleanly, and a coin of 20496382304.12172403 comes back as one of
    0.00010000. -/
theorem disconnectBlock_differs :
    contextualCheckBlock sampleEnv sampleNode (sampleBlock [mintTx]) (some sampleParent) = .ok () ∧
    connectDisconnect mintTx plainView = some (.DISCONNECT_UNCLEAN, some 1000) ∧
    lossyView.coin ⟨7, 0⟩ = some ⟨false, false, ⟨2049638230412172403, [OP_1]⟩, 1⟩ ∧
    connectDisconnect plainTx lossyView = some (.DISCONNECT_OK, some 10000) := by
  refine ⟨by decide +kernel, by decide +kernel, by decide +kernel, by decide +kernel⟩

end KrovaCoin
