import KrovaCoin.Validation.Chain

/-!
# Transaction ids along a chain (`coins.cpp`: `AddCoins`, `validation.cpp`: `UpdateCoins`)

No check compares the id of a transaction with those of earlier ones. An id does not come twice because a transaction
consumes something that cannot be had twice: a coin, a nullifier, or the height of its block.

Principal result: `outputs_absent`.
-/

namespace KrovaCoin

open Lib

/-- The transaction is a coinbase, has an input or spends a note. -/
def Consumes (tx : CTransaction) : Prop := tx.isCoinBase = true ∨ tx.vin ≠ [] ∨ tx.shieldedSpends ≠ []

def StartsWithHeight (tx : CTransaction) (nHeight : Nat) : Prop :=
  ∃ txin ∈ tx.vin.head?, pushInt64 nHeight <+: txin.scriptSig

/-- The transactions of a chain up to a height, and the view they leave: the ids differ, the coins of the
    view are theirs, and what they have consumed is gone for good. -/
structure UniqueTxids (txs : List CTransaction) (nHeight : Nat) (v : View) : Prop where
  tidy : v.Tidy
  uncovered : v.slots.Uncovered
  nodup : (txs.map CTransaction.hash).Nodup
  created : ∀ o, v.coin o ≠ none → ∃ tx ∈ txs, tx.hash = o.hash
  spent : ∀ tx ∈ txs, ∀ o ∈ tx.spends, v.coin o = none ∧ ∃ tx' ∈ txs, tx'.hash = o.hash
  nullified : ∀ tx ∈ txs, ∀ spend ∈ tx.shieldedSpends, v.getNullifier spend.nullifier = true
  coinbases : ∀ tx ∈ txs, tx.isCoinBase = true → ∃ h, 1 ≤ h ∧ h ≤ nHeight ∧ StartsWithHeight tx h

/-! ## One transaction -/

variable {tx : CTransaction} {txundo : CTxUndo} {txs : List CTransaction} {nHeight : Nat} {v v' : View}
  {o : COutPoint} {outs : List (COutPoint × CTxOut)} {coins : List Coin} {env : Env} {node : NodeState}
  {ctx : ConnectContext} {s s' : ConnectState}

theorem add_mem_outputOps {c : Coin} (h : Op.add o c ∈ outs.flatMap (outputOps tx nHeight)) :
    ∃ out ∈ outs, out.1 = o := by
  obtain ⟨out, hmem, hop⟩ := List.mem_flatMap.mp h
  refine ⟨out, hmem, ?_⟩
  unfold outputOps at hop
  split at hop
  · cases hop
  · split at hop
    · rw [List.mem_singleton] at hop
      cases hop
      rfl
    · rw [List.mem_singleton] at hop
      cases hop

theorem not_taken_outputOps : ¬ Taken o (outs.flatMap (outputOps tx nHeight)) := by
  rintro ⟨c, hmem⟩
  obtain ⟨out, -, hop⟩ := List.mem_flatMap.mp hmem
  unfold outputOps at hop
  split at hop
  · cases hop
  · split at hop <;> rw [List.mem_singleton] at hop <;> cases hop

theorem add_notMem_inputOps {c : Coin} {os : List COutPoint} : Op.add o c ∉ inputOps os coins := by
  intro h
  obtain ⟨input, -, hinput⟩ := List.mem_map.mp h
  cases hinput

theorem taken_inputOps {os : List COutPoint} (hlen : coins.length = os.length) :
    Taken o (inputOps os coins) ↔ o ∈ os := by
  constructor
  · rintro ⟨c, hmem⟩
    obtain ⟨⟨o', c'⟩, hzip, hop⟩ := List.mem_map.mp hmem
    cases hop
    exact (List.of_mem_zip hzip).1
  · intro ho
    obtain ⟨i, hi, rfl⟩ := List.getElem_of_mem ho
    refine ⟨coins[i], List.mem_map.mpr ⟨(os[i], coins[i]), ?_, rfl⟩⟩
    rw [← List.getElem_zip (h := by simp; omega)]
    exact List.getElem_mem _

theorem hash_of_mem_outputs {out : COutPoint × CTxOut} (h : out ∈ tx.outputs) : out.1.hash = tx.hash := by
  obtain ⟨⟨txout, i⟩, -, rfl⟩ := List.mem_map.mp h
  rfl

theorem taken_txOps (hlen : coins.length = tx.spends.length) :
    Taken o (inputOps tx.spends coins ++ outs.flatMap (outputOps tx nHeight)) ↔ o ∈ tx.spends := by
  rw [taken_append, or_iff_left not_taken_outputOps, taken_inputOps hlen]

theorem add_mem_txOps {c : Coin} (h : Op.add o c ∈ inputOps tx.spends coins ++ outs.flatMap (outputOps tx nHeight)) :
    ∃ out ∈ outs, out.1 = o :=
  add_mem_outputOps ((List.mem_append.mp h).resolve_left add_notMem_inputOps)

theorem freshAdds_txOps {own' : Set COutPoint} {σ σ' : Slots COutPoint Coin}
    (hruns : Runs ∅ σ (inputOps tx.spends coins ++ outs.flatMap (outputOps tx nHeight)) own' σ')
    (hlen : coins.length = tx.spends.length) (houts : ∀ out ∈ outs, out ∈ tx.outputs)
    (hthere : ∀ o ∈ tx.spends, (σ o).1 ≠ none) (habsent : ∀ n, (σ ⟨tx.hash, n⟩).1 = none) :
    FreshAdds σ (inputOps tx.spends coins ++ outs.flatMap (outputOps tx nHeight)) := by
  apply hruns.freshAdds
  intro o c h
  obtain ⟨out, hout, rfl⟩ := add_mem_txOps h
  have hnone : (σ out.1).1 = none := by
    have := habsent out.1.n
    rwa [← hash_of_mem_outputs (houts out hout)] at this
  refine ⟨.inl hnone, fun h => ?_⟩
  exact hthere _ ((taken_txOps hlen).mp h) hnone

/-- What is there afterwards was there before and has not been spent, or is one of the outputs. -/
theorem visible_after_outputs {own' : Set COutPoint} {σ σ' : Slots COutPoint Coin}
    (hruns : Runs ∅ σ (inputOps tx.spends coins ++ outs.flatMap (outputOps tx nHeight)) own' σ')
    (huncovered : σ.Uncovered) (hlen : coins.length = tx.spends.length) (houts : ∀ out ∈ outs, out ∈ tx.outputs)
    (hthere : ∀ o ∈ tx.spends, (σ o).1 ≠ none) (habsent : ∀ n, (σ ⟨tx.hash, n⟩).1 = none) :
    σ'.Uncovered ∧ ∀ o, (σ' o).1 ≠ none → (σ o).1 ≠ none ∧ o ∉ tx.spends ∨ ∃ out ∈ outs, out.1 = o := by
  have hfresh := freshAdds_txOps hruns hlen houts hthere habsent
  refine ⟨hruns.uncovered huncovered hfresh, fun o ho => ?_⟩
  rcases hruns.visible huncovered hfresh ho with ⟨hvis, hnot⟩ | ⟨c, hmem⟩
  · exact .inl ⟨hvis, fun h => hnot ((taken_txOps hlen).mpr h)⟩
  · exact .inr (add_mem_txOps hmem)

theorem View.spendCoins_sameRest : ∀ (os : List COutPoint) (v : View), View.SameRest v (v.spendCoins os).1 := by
  intro os
  induction os with
  | nil => exact fun v => .refl v
  | cons o os ih => exact fun v => (View.SameRest.spendCoin v o).trans (ih _)

theorem View.addCoins_sameRest {check : Bool} {invalidOut : COutPoint → Bool}
    (h : v.addCoins tx nHeight check invalidOut = .ok v') : View.SameRest v v' := by
  refine foldlM_induct (fun _ w => View.SameRest v w) ?_ tx.outputs [] v v' (.refl v) h
  intro _ out w w' hw hstep
  refine hw.trans ?_
  unfold View.addOutput at hstep
  split at hstep
  · cases hstep
    exact .spendCoin w _
  · refine View.SameRest.trans ?_ (.addCoin hstep)
    split
    · exact .fetch w _
    · exact .refl w

theorem updateCoins_getNullifier {invalidOut : COutPoint → Bool}
    (h : updateCoins tx v nHeight invalidOut = .ok (v', txundo)) (nf : Uint256) :
    v'.getNullifier nf = if nf ∈ tx.shieldedSpends.map SpendDescription.nullifier then true else v.getNullifier nf := by
  simp only [updateCoins, bind_eq_ok, pure_eq_ok, Prod.mk.injEq] at h
  obtain ⟨w, hadd, rfl, -⟩ := h
  have hspend := View.spendCoins_sameRest tx.spends v
  have hadd' := View.addCoins_sameRest hadd
  rw [View.getNullifier_congr hadd'.base (by rw [hadd'.top]), View.getNullifier_setNullifiers,
    View.getNullifier_congr hspend.base (by rw [hspend.top])]

theorem UniqueTxids.coinbase_notMem (h : UniqueTxids txs nHeight v)
    (hcollision : ∀ t ∈ txs, t.hash = tx.hash → t = tx) (hcb : tx.isCoinBase = true)
    (hstart : StartsWithHeight tx (nHeight + 1)) (hheight : nHeight + 1 < 2147483648) :
    tx.hash ∉ txs.map CTransaction.hash := by
  intro hmem
  obtain ⟨t, ht, hhash⟩ := List.mem_map.mp hmem
  obtain ⟨h', h1, hle, txin', hin', hpre'⟩ := h.coinbases tx (hcollision t ht hhash ▸ ht) hcb
  obtain ⟨txin, hin, hpre⟩ := hstart
  rw [Option.mem_def] at hin hin'
  rw [hin, Option.some.injEq] at hin'
  subst hin'
  have := pushInt64_isPrefix_inj (by omega) (by omega) (by omega) (by omega) hpre hpre'
  omega

/-- Any other transaction whose id has been seen would have to consume a coin or a nullifier twice. -/
theorem UniqueTxids.hash_notMem (h : UniqueTxids txs nHeight s.view) (htx : TxChecked env.params tx)
    (hstep : TxConnected env node ctx s s' tx txundo) (hcollision : ∀ t ∈ txs, t.hash = tx.hash → t = tx)
    (hcb : tx.isCoinBase = false) (hconsumes : Consumes tx) : tx.hash ∉ txs.map CTransaction.hash := by
  intro hmem
  obtain ⟨t, ht, hhash⟩ := List.mem_map.mp hmem
  have htxs : tx ∈ txs := hcollision t ht hhash ▸ ht
  obtain ⟨pprev, txValueIn, vChecks, hinputs⟩ := hstep.inputs hcb
  rcases hconsumes with hcb' | hvin | hshielded
  · rw [hcb] at hcb'
    cases hcb'
  · obtain ⟨txin, hin⟩ := List.exists_mem_of_ne_nil _ hvin
    have ho : txin.prevout ∈ tx.spends := by
      rw [CTransaction.spends, hcb]
      exact List.mem_map_of_mem hin
    exact (hstep.spends htx).2 _ ho (h.spent tx htxs _ ho).1
  · obtain ⟨spend, hspend⟩ := List.exists_mem_of_ne_nil _ hshielded
    have hdata := hasSaplingData_of (.inr hshielded)
    have hshieldedTx : tx.isShieldedTx = true := by
      rw [CTransaction.isShieldedTx, (htx.sapling hdata).version, hdata]
      rfl
    have hunspent := hinputs.checked.shielded
    rw [View.haveShieldedRequirements, hshieldedTx, Bool.not_true, Bool.false_or, List.all_eq_true] at hunspent
    have hnew := hunspent spend hspend
    rw [h.nullified tx htxs spend hspend] at hnew
    cases hnew

/-- **One transaction keeps the ids unique.** -/
theorem UniqueTxids.step (h : UniqueTxids txs nHeight s.view) (hvalid : ∀ o, ctx.invalidOut o = false)
    (htx : TxChecked env.params tx) (hstep : TxConnected env node ctx s s' tx txundo)
    (hnew : tx.hash ∉ txs.map CTransaction.hash)
    (hcoinbase : tx.isCoinBase = true → ∃ h, 1 ≤ h ∧ h ≤ nHeight ∧ StartsWithHeight tx h) :
    UniqueTxids (txs ++ [tx]) nHeight s'.view := by
  obtain ⟨hundo, own', σ', hruns, hsim'⟩ := hstep.runs hvalid htx h.tidy.sim
  have hlen : txundo.vprevout.length = tx.spends.length := by rw [hundo, List.length_map]
  have habsent : ∀ o, s.view.coin o ≠ none → o.hash ≠ tx.hash := by
    intro o ho hhash
    obtain ⟨t, ht, hthash⟩ := h.created o ho
    exact hnew (List.mem_map.mpr ⟨t, ht, hthash.trans hhash⟩)
  obtain ⟨huncovered, hafter⟩ := visible_after_outputs hruns h.uncovered hlen (fun _ hout => hout)
    (hstep.spends htx).2 fun n => by
      by_contra hthere
      exact habsent _ hthere rfl
  have hvisible : ∀ o, s'.view.coin o ≠ none → s.view.coin o ≠ none ∧ o ∉ tx.spends ∨ o.hash = tx.hash := by
    intro o ho
    rw [hsim'.coin] at ho
    rcases hafter o ho with hvis | ⟨out, hout, rfl⟩
    · exact .inl hvis
    · exact .inr (hash_of_mem_outputs hout)
  have hgone : ∀ o, s.view.coin o = none ∨ o ∈ tx.spends → o.hash ≠ tx.hash → s'.view.coin o = none := by
    intro o ho hhash
    by_contra hthere
    rcases hvisible o hthere with ⟨hvis, hnot⟩ | hhash'
    · exact ho.elim hvis hnot
    · exact hhash hhash'
  refine ⟨hsim'.tidy, ?_, ?_, ?_, ?_, ?_, ?_⟩
  · rw [hsim'.slots]
    exact huncovered
  · rw [List.map_append, List.nodup_append]
    refine ⟨h.nodup, List.nodup_singleton _, ?_⟩
    intro a ha b hb hab
    rw [List.map_singleton, List.mem_singleton] at hb
    exact hnew (hb ▸ hab ▸ ha)
  · intro o ho
    rcases hvisible o ho with ⟨hvis, -⟩ | hhash
    · obtain ⟨t, ht, hhash⟩ := h.created o hvis
      exact ⟨t, List.mem_append_left _ ht, hhash⟩
    · exact ⟨tx, List.mem_append_right _ (List.mem_singleton_self _), hhash.symm⟩
  · intro t ht o ho
    rcases List.mem_append.mp ht with ht | ht
    · obtain ⟨hnone, t', ht', hhash⟩ := h.spent t ht o ho
      refine ⟨hgone o (.inl hnone) fun heq => ?_, t', List.mem_append_left _ ht', hhash⟩
      exact hnew (List.mem_map.mpr ⟨t', ht', hhash.trans heq⟩)
    · rw [List.mem_singleton] at ht
      subst ht
      have hthere := (hstep.spends htx).2 o ho
      obtain ⟨t', ht', hhash⟩ := h.created o hthere
      exact ⟨hgone o (.inr ho) (habsent o hthere), t', List.mem_append_left _ ht', hhash⟩
  · intro t ht spend hspend
    rw [updateCoins_getNullifier hstep.coins]
    split
    · rfl
    · rename_i hnot
      rcases List.mem_append.mp ht with ht | ht
      · exact h.nullified t ht spend hspend
      · rw [List.mem_singleton] at ht
        subst ht
        exact absurd (List.mem_map_of_mem hspend) hnot
  · intro t ht hcb
    rcases List.mem_append.mp ht with ht | ht
    · exact h.coinbases t ht hcb
    · rw [List.mem_singleton] at ht
      subst ht
      exact hcoinbase hcb

/-! ## The transactions of a block -/

theorem UniqueTxids.congr {nHeight' : Nat} (h : UniqueTxids txs nHeight v) (htidy : v'.Tidy)
    (huncovered : v'.slots.Uncovered) (hcoin : v'.coin = v.coin) (hnullifier : v'.getNullifier = v.getNullifier)
    (hheight : nHeight ≤ nHeight') : UniqueTxids txs nHeight' v' := by
  refine ⟨htidy, huncovered, h.nodup, hcoin ▸ h.created, hcoin ▸ h.spent, hnullifier ▸ h.nullified, ?_⟩
  intro tx htx hcb
  obtain ⟨k, h1, hle, hstart⟩ := h.coinbases tx htx hcb
  exact ⟨k, h1, by omega, hstart⟩

theorem UniqueTxids.loop {entries : List (CTransaction × CTxUndo)} (hvalid : ∀ o, ctx.invalidOut o = false)
    (hrun : ConnectRun env node ctx s entries s') : ∀ {txs : List CTransaction}, UniqueTxids txs nHeight s.view →
      (∀ entry ∈ entries, entry.1.isCoinBase = false ∧ Consumes entry.1) →
      (∀ t ∈ txs ++ entries.map Prod.fst, ∀ t' ∈ txs ++ entries.map Prod.fst, t.hash = t'.hash → t = t') →
      UniqueTxids (txs ++ entries.map Prod.fst) nHeight s'.view := by
  induction hrun with
  | nil =>
    intro txs h _ _
    simpa using h
  | @cons s s1 s' tx txundo entries htx hstep _ ih =>
    intro txs h hentries hcollision
    obtain ⟨hcb, hconsumes⟩ := hentries (tx, txundo) List.mem_cons_self
    have hnew := h.hash_notMem htx hstep
      (fun t ht => hcollision t (by simp [ht]) tx (by simp)) hcb hconsumes
    have hnext := h.step hvalid htx hstep hnew fun hcb' => absurd (hcb.symm.trans hcb') (by decide)
    have hrest := ih hnext (fun entry hin => hentries entry (List.mem_cons_of_mem _ hin)) (by simpa using hcollision)
    simpa using hrest

theorem UniqueTxids.block {cb : CTransaction} {rest : List CTransaction} {entries : List (CTransaction × CTxUndo)}
    (hvalid : ∀ o, ctx.invalidOut o = false) (h : UniqueTxids txs nHeight s.view)
    (hrun : ConnectRun env node ctx s entries s') (hpre : entries.map Prod.fst <+: cb :: rest)
    (hcb : cb.isCoinBase = true) (hrest : ∀ tx ∈ rest, tx.isCoinBase = false ∧ Consumes tx)
    (hstart : StartsWithHeight cb (nHeight + 1)) (hheight : nHeight + 1 < 2147483648)
    (hcollision : ∀ t ∈ txs ++ cb :: rest, ∀ t' ∈ txs ++ cb :: rest, t.hash = t'.hash → t = t') :
    UniqueTxids (txs ++ entries.map Prod.fst) (nHeight + 1) s'.view := by
  have hweak := h.congr h.tidy h.uncovered rfl rfl (Nat.le_succ nHeight)
  cases hrun with
  | nil => simpa using hweak
  | @cons _ s1 _ tx txundo entries htx hstep hrun =>
    rw [List.map_cons, List.cons_prefix_cons] at hpre
    obtain ⟨rfl, hpre⟩ := hpre
    have hmem : ∀ entry ∈ entries, entry.1 ∈ rest := fun entry hin => hpre.subset (List.mem_map_of_mem hin)
    have hnew := h.coinbase_notMem (fun t ht => hcollision t (by simp [ht]) _ (by simp)) hcb hstart hheight
    have hnext := hweak.step hvalid htx hstep hnew fun _ => ⟨nHeight + 1, by omega, le_rfl, hstart⟩
    have hsub : ∀ t, t ∈ txs ++ [tx] ++ entries.map Prod.fst → t ∈ txs ++ tx :: rest := by
      intro t ht
      rw [List.append_assoc, List.singleton_append] at ht
      rcases List.mem_append.mp ht with ht | ht
      · exact List.mem_append_left _ ht
      · rcases List.mem_cons.mp ht with rfl | ht
        · exact List.mem_append_right _ List.mem_cons_self
        · exact List.mem_append_right _ (List.mem_cons_of_mem _ (hpre.subset ht))
    have hall := hnext.loop hvalid hrun (fun entry hin => hrest entry.1 (hmem entry hin))
      fun t ht t' ht' => hcollision t (hsub t ht) t' (hsub t' ht')
    simpa using hall

/-! ## Chains -/

theorem startsWithHeight_of_check {block : CBlock} {cb : CTransaction} {rest : List CTransaction}
    (hvtx : block.vtx = cb :: rest) (h : checkCoinbaseHeight block nHeight = true) : StartsWithHeight cb nHeight := by
  unfold checkCoinbaseHeight at h
  rw [hvtx] at h
  dsimp only at h
  unfold StartsWithHeight
  cases hvin : cb.vin with
  | nil =>
    rw [hvin] at h
    cases h
  | cons txin ins =>
    rw [hvin] at h
    exact ⟨txin, rfl, List.isPrefixOf_iff_prefix.mp h⟩

variable {blocks : List CBlock} {block : CBlock} {pprev : CBlockIndex} {r : Connected}

/-- The state of the loop of `ConnectBlock` after some of the transactions. -/
def LoopState (env : Env) (node : NodeState) (block : CBlock) (pprev : CBlockIndex) (v : View)
    (done : List CTransaction) (s : ConnectState) : Prop :=
  ∃ tree v0, bestTree env.pedersen v = .ok tree ∧ checkSuperblock env node block (pprev.nHeight + 1) v = .ok v0 ∧
    done.foldlM (connectTx env node (.of env node block (some pprev))) ⟨v0, 0, 0, 0, 0, [], tree, []⟩ = .ok s

theorem LoopState.snoc {done : List CTransaction} (h : LoopState env node block pprev v done s)
    (hstep : connectTx env node (.of env node block (some pprev)) s tx = .ok s') :
    LoopState env node block pprev v (done ++ [tx]) s' := by
  obtain ⟨tree, v0, htree, hsuper, hloop⟩ := h
  refine ⟨tree, v0, htree, hsuper, ?_⟩
  rw [List.foldlM_append, hloop, ok_bind, List.foldlM_cons, hstep]
  rfl

theorem coinbaseHeight_of_context (hcontext : contextualCheckBlock env node block (some pprev) = .ok ()) :
    checkCoinbaseHeight block (pprev.nHeight + 1) = true := by
  simp only [contextualCheckBlock, bind_eq_ok, rejectIf_eq_ok, exists_and_left, exists_const, Option.isSome_some,
    Bool.true_and, Bool.not_eq_false'] at hcontext
  obtain ⟨_, -, hheight, -⟩ := hcontext
  exact hheight

/-- What is assumed of the blocks of a chain. -/
structure ChainOk (env : Env) (blocks : List CBlock) : Prop where
  max : 0 ≤ env.params.nMaxMoneyOut ∧ env.params.nMaxMoneyOut < 9223372036854775808
  valid : ∀ h, skipInvalidUTXOS env.params h = false
  height : blocks.length < 2147483648
  consumes : ∀ tx ∈ chainTxs blocks, Consumes tx
  collision : ∀ t ∈ chainTxs blocks, ∀ t' ∈ chainTxs blocks, t.hash = t'.hash → t = t'

theorem ChainOk.init (h : ChainOk env (blocks ++ [block])) : ChainOk env blocks := by
  obtain ⟨hmax, hvalid, hheight, hconsumes, hcollision⟩ := h
  rw [chainTxs_append] at hconsumes hcollision
  rw [List.length_append] at hheight
  exact ⟨hmax, hvalid, by omega, fun tx htx => hconsumes tx (List.mem_append_left _ htx),
    fun t ht t' ht' => hcollision t (List.mem_append_left _ ht) t' (List.mem_append_left _ ht')⟩

theorem ChainOk.invalidOut (h : ChainOk env blocks) (o : COutPoint) :
    (ConnectContext.of env node block (some pprev)).invalidOut o = false := by
  show (skipInvalidUTXOS env.params _ && _) = false
  rw [h.valid, Bool.false_and]

theorem UniqueTxids.loopState {node' : NodeState} (h : UniqueTxids (chainTxs blocks) pprev.nHeight v)
    (hok : ChainOk env (blocks ++ [block])) (hlen : pprev.nHeight = blocks.length) (hopen : v.Flushed env.pedersen v')
    (hblock : BlockChecked env.params block) (hcontext : contextualCheckBlock env node' block (some pprev) = .ok ())
    {done : List CTransaction} (hdone : done <+: block.vtx) (hs : LoopState env node block pprev v' done s) :
    UniqueTxids (chainTxs blocks ++ done) (pprev.nHeight + 1) s.view := by
  obtain ⟨hmax, -, hheight, hconsumes, hcollision⟩ := id hok
  rw [chainTxs_append] at hconsumes hcollision
  rw [List.length_append, List.length_singleton, ← hlen] at hheight
  obtain ⟨tree, v0, -, hsuper, hloop⟩ := hs
  obtain ⟨htidy, huncovered⟩ := View.tidy_of_new hopen.top
  have hsim0 := checkSuperblock_sim htidy.sim hsuper
  have hrest0 := checkSuperblock_sameRest hsuper
  have hopened : UniqueTxids (chainTxs blocks) pprev.nHeight v' :=
    h.congr htidy huncovered hopen.coin (congrArg View.SaplingState.nullifier hopen.sapling) le_rfl
  have hstart : UniqueTxids (chainTxs blocks) pprev.nHeight v0 := by
    refine hopened.congr hsim0.tidy ?_ (funext hsim0.coin) ?_ le_rfl
    · rw [hsim0.slots]
      exact huncovered
    · exact View.getNullifier_congr hrest0.base (by rw [hrest0.top])
  obtain ⟨cb, rest, hvtx, hcb, hothers⟩ := hblock.coinbase
  obtain ⟨entries, rfl, hrun⟩ := connectRun_of_foldlM hmax (fun tx hin => hblock.txs tx (hdone.subset hin)) hloop
  rw [hvtx] at hdone hconsumes hcollision
  refine UniqueTxids.block hok.invalidOut hstart hrun hdone hcb (fun tx hin => ⟨hothers tx hin, ?_⟩)
    (startsWithHeight_of_check hvtx (coinbaseHeight_of_context hcontext)) hheight hcollision
  exact hconsumes tx (List.mem_append_right _ (List.mem_cons_of_mem _ hin))

/-- **Along a chain the ids stay unique.** -/
theorem ChainRun.uniqueTxids (h : ChainRun env blocks pprev v) (hok : ChainOk env blocks) :
    UniqueTxids (chainTxs blocks) pprev.nHeight v := by
  induction h with
  | @genesis node block v r hempty hhash hconnect =>
    rw [connectBlock_genesis hhash hconnect]
    obtain ⟨htidy, huncovered⟩ := View.tidy_of_new hempty.top
    have hsim := (View.SameCoins.setBestBlock v block.hash).sim htidy.sim
    refine ⟨hsim.tidy, hsim.slots ▸ huncovered, List.nodup_nil, ?_, ?_, ?_, ?_⟩
    · intro o ho
      exact absurd (hempty.coin o) ho
    · intro tx htx
      cases htx
    · intro tx htx
      cases htx
    · intro tx htx
      cases htx
  | @connect node node' blocks pprev v v' block r hrun hopen hcontext hgenesis hconnect ih =>
    obtain ⟨pindexPrev, tree, v0, s, hpprev, hconnected⟩ := connectBlock_ok hok.max hgenesis hconnect
    cases hpprev
    have hloop := (ih hok.init).loopState hok hrun.height hopen hconnected.checked hcontext (List.prefix_refl _)
      ⟨tree, v0, hconnected.bestTree, hconnected.superblock, hconnected.loop⟩
    rw [chainTxs_append]
    rw [hconnected.result]
    have hsim := (View.SameCoins.setBestBlock _ block.hash).sim
      ((View.SameCoins.pushAnchor env.pedersen s.view s.sapling_tree).sim hloop.tidy.sim)
    refine hloop.congr hsim.tidy ?_ (funext hsim.coin) ?_ le_rfl
    · rw [hsim.slots]
      exact hloop.uncovered
    · rw [← View.getNullifier_pushAnchor env.pedersen s.view s.sapling_tree]
      exact View.getNullifier_congr rfl rfl

/-! ## What `AddCoin` finds -/

theorem outputs_nodup (h : tx.vout.length < 4294967296) : (tx.outputs.map Prod.fst).Nodup := by
  rw [List.nodup_iff_injective_getElem]
  intro i j hij
  have hi := i.2
  have hj := j.2
  simp only [CTransaction.outputs, List.length_map, List.length_zipIdx] at hi hj
  simp only [CTransaction.outputs, List.getElem_map, List.getElem_zipIdx, COutPoint.mk.injEq, true_and,
    Nat.zero_add] at hij
  have hnat := congrArg UInt32.toNat hij
  rw [UInt32.toNat_ofNat', UInt32.toNat_ofNat', Nat.mod_eq_of_lt (by omega), Nat.mod_eq_of_lt (by omega)] at hnat
  exact Fin.ext hnat

/-- The call of `AddCoin` for an output, after the inputs have been spent and the outputs before it added,
    finds no coin if there was none with the id of the transaction. -/
theorem addCoin_absent {invalidOut : COutPoint → Bool} (hvalid : ∀ o, invalidOut o = false) (htidy : v.Tidy)
    (huncovered : v.slots.Uncovered) (hcount : tx.vout.length < 4294967296)
    (hspends : tx.spends.Nodup ∧ ∀ o ∈ tx.spends, v.coin o ≠ none) (habsent : ∀ n, v.coin ⟨tx.hash, n⟩ = none)
    {outs' : List (COutPoint × CTxOut)} {out : COutPoint × CTxOut} (houts : tx.outputs = outs ++ out :: outs')
    (hadd : outs.foldlM (View.addOutput tx.isCoinBase tx.isCoinStake nHeight false invalidOut)
      ((v.spendCoins tx.spends).1.setNullifiers tx true) = .ok v') : v'.coin out.1 = none := by
  obtain ⟨hcoins, own1, σ1, hruns1, hsim1⟩ := spendCoins_runs htidy.sim hspends.1 hspends.2
  have hsim2 := (View.SameCoins.setNullifiers (v.spendCoins tx.spends).1 tx true).sim hsim1
  obtain ⟨own', σ', hruns', hsim'⟩ := addOutputs_runs hvalid hsim2 hadd
  have hlen : (v.spendCoins tx.spends).2.length = tx.spends.length := by rw [hcoins, List.length_map]
  obtain ⟨-, hafter⟩ := visible_after_outputs (hruns1.append hruns') huncovered hlen
    (fun o ho => by rw [houts]; exact List.mem_append_left _ ho) hspends.2 habsent
  by_contra hthere
  rw [hsim'.coin] at hthere
  have hnodup := outputs_nodup hcount
  rw [houts, List.map_append, List.map_cons, List.nodup_append] at hnodup
  rcases hafter out.1 hthere with ⟨hvis, -⟩ | ⟨out', hout', heq⟩
  · apply hvis
    have hhash : out.1.hash = tx.hash := hash_of_mem_outputs (houts ▸ List.mem_append_right _ List.mem_cons_self)
    have := habsent out.1.n
    rwa [← hhash] at this
  · exact hnodup.2.2 out'.1 (List.mem_map_of_mem hout') out.1 List.mem_cons_self heq

/-- **Unspent outputs are not overwritten.** In every chain whose transactions all consume something, when the loop of
    `ConnectBlock` comes to a transaction of an accepted block, no output of a transaction with its id is unspent, and
    every call of `AddCoin` finds its outpoint absent. -/
theorem outputs_absent {node' : NodeState} {pre post : List CTransaction}
    (hmax : 0 ≤ env.params.nMaxMoneyOut ∧ env.params.nMaxMoneyOut < 9223372036854775808)
    (hvalid : ∀ h, skipInvalidUTXOS env.params h = false) (hrun : ChainRun env blocks pprev v)
    (hopen : v.Flushed env.pedersen v') (hcontext : contextualCheckBlock env node' block (some pprev) = .ok ())
    (hgenesis : block.hash ≠ env.params.hashGenesisBlock)
    (hconnect : connectBlock env node block (some pprev) v' false = .ok r) (hheight : blocks.length + 1 < 2147483648)
    (hcollision : ∀ t ∈ chainTxs (blocks ++ [block]), ∀ t' ∈ chainTxs (blocks ++ [block]), t.hash = t'.hash → t = t')
    (hconsumes : ∀ tx ∈ chainTxs (blocks ++ [block]), Consumes tx) (hvtx : block.vtx = pre ++ tx :: post)
    (hs : LoopState env node block pprev v' pre s) :
    (∀ t ∈ chainTxs blocks ++ pre, t.hash ≠ tx.hash) ∧ (∀ n, s.view.coin ⟨tx.hash, n⟩ = none) ∧
      ∀ outs out outs' w, tx.outputs = outs ++ out :: outs' →
        outs.foldlM (View.addOutput tx.isCoinBase tx.isCoinStake (pprev.nHeight + 1) false
          (ConnectContext.of env node block (some pprev)).invalidOut)
          ((s.view.spendCoins tx.spends).1.setNullifiers tx true) = .ok w → w.coin out.1 = none := by
  have hok : ChainOk env (blocks ++ [block]) := ⟨hmax, hvalid, by simpa using hheight, hconsumes, hcollision⟩
  obtain ⟨pindexPrev, tree, v0, s', hpprev, hconnected⟩ := connectBlock_ok hmax hgenesis hconnect
  cases hpprev
  have hstate : ∀ {done s}, done <+: block.vtx → LoopState env node block pprev v' done s →
      UniqueTxids (chainTxs blocks ++ done) (pprev.nHeight + 1) s.view :=
    (hrun.uniqueTxids hok.init).loopState hok hrun.height hopen hconnected.checked hcontext
  have hbefore := hstate (hvtx ▸ List.prefix_append pre _) hs
  obtain ⟨tree', v1, htree, hsuper, hloop⟩ := id hs
  rw [hconnected.bestTree, Except.ok.injEq] at htree
  rw [hconnected.superblock, Except.ok.injEq] at hsuper
  subst htree hsuper
  obtain ⟨s1, hstep⟩ : ∃ s1, connectTx env node (.of env node block (some pprev)) s tx = .ok s1 := by
    have hall := hconnected.loop
    rw [hvtx, List.foldlM_append, hloop, ok_bind, List.foldlM_cons, bind_eq_ok] at hall
    obtain ⟨s1, hstep, -⟩ := hall
    exact ⟨s1, hstep⟩
  have hafter : UniqueTxids (chainTxs blocks ++ (pre ++ [tx])) (pprev.nHeight + 1) s1.view := by
    refine hstate ?_ (hs.snoc hstep)
    rw [hvtx, List.append_cons pre tx post]
    exact List.prefix_append _ _
  have hnew : ∀ t ∈ chainTxs blocks ++ pre, t.hash ≠ tx.hash := by
    intro t ht
    have hnodup := hafter.nodup
    rw [← List.append_assoc, List.map_append, List.nodup_append] at hnodup
    exact hnodup.2.2 t.hash (List.mem_map_of_mem ht) tx.hash (List.mem_singleton_self _)
  have habsent : ∀ n, s.view.coin ⟨tx.hash, n⟩ = none := by
    intro n
    by_contra hthere
    obtain ⟨t, ht, hhash⟩ := hbefore.created _ hthere
    exact hnew t ht hhash
  have htx : TxChecked env.params tx := hconnected.checked.txs tx (by rw [hvtx]; simp)
  obtain ⟨txundo, hconnectedTx⟩ := connectTx_ok hmax htx hstep
  refine ⟨hnew, habsent, fun outs out outs' w houts hadd => ?_⟩
  exact addCoin_absent hok.invalidOut hbefore.tidy hbefore.uncovered htx.outs (hconnectedTx.spends htx) habsent houts hadd

/-! ## A transaction that consumes nothing -/

/-- A block with the hash of the genesis block. -/
def sampleGenesis : CBlock :=
  ⟨mainParams.hashGenesisBlock, 1, 0, 1, 1785931200, 0x1e0ffff0, 0, PedersenHash.emptyRoot, [sampleCoinbase], []⟩

/-- The view before the genesis block. -/
def emptyChainView : View := ⟨⟨∅, 0, ∅, ∅, none⟩, .new⟩

def genesisView : View := ⟨⟨∅, mainParams.hashGenesisBlock, ∅, ∅, none⟩, .new⟩

def premineCoinbase : CTransaction :=
  ⟨9, 1, 0, [⟨⟨0, 0xffffffff⟩, [OP_1, 0x00], 0xffffffff⟩], (getPremineOutputs mainParams).toOption.getD [], 0,
    none, none⟩

/-- Block 1 with the transactions after the coinbase. -/
def premineBlock (txs : List CTransaction) : CBlock :=
  ⟨77, 8, mainParams.hashGenesisBlock, 9, 1785980000, 0x1e0ffff0, 0, PedersenHash.emptyRoot,
    premineCoinbase :: txs, []⟩

def premineIndex (txs : List CTransaction) : CBlockIndex := .of (some (.of none sampleGenesis)) (premineBlock txs)

def genesisNode : NodeState :=
  { sampleNode with
    tip := some mainParams.hashGenesisBlock
    lookupBlockIndex := fun hash => hash == mainParams.hashGenesisBlock }

/-- The view that block 1 leaves. -/
def premineView (txs : List CTransaction) : View :=
  ((connectBlock sampleEnv genesisNode (premineBlock txs) (some (.of none sampleGenesis)) genesisView
    false).toOption.map Connected.view).getD genesisView

/-- A new cache after block 1. -/
def premineFlushed (txs : List CTransaction) : View :=
  ((premineView txs).flush samplePedersen).toOption.getD genesisView

/-- A version 3 transaction without inputs whose Sapling data are absent. -/
def inputlessTx : CTransaction := ⟨3, 3, 0, [], [⟨0, [OP_1]⟩], 0, none, none⟩

theorem premineBlock_hash_ne {txs : List CTransaction} : (premineBlock txs).hash ≠ mainParams.hashGenesisBlock := by
  show (77 : Uint256) ≠ mainParams.hashGenesisBlock
  decide

theorem sampleGenesis_run :
    ChainRun sampleEnv [] (.of none sampleGenesis) (emptyChainView.setBestBlock mainParams.hashGenesisBlock) := by
  obtain ⟨r, hr⟩ := exists_ok_of_toBool
    (x := connectBlock sampleEnv sampleNode sampleGenesis none emptyChainView false) (by decide +kernel)
  have hview := connectBlock_genesis rfl hr
  have hempty : emptyChainView.Empty sampleEnv.pedersen := by
    refine ⟨rfl, fun _ => rfl, View.SaplingState.ext rfl ?_ rfl, rfl⟩
    funext rt
    exact View.getSaplingAnchorAt_eq _ _ rt
  exact hview ▸ ChainRun.genesis hempty rfl hr

/-- Block 1 is accepted, and its cache has no Sapling entries and sound flags. -/
def PremineAccepted (txs : List CTransaction) : Prop :=
  contextualCheckBlock sampleEnv genesisNode (premineBlock txs) (some (.of none sampleGenesis)) = .ok () ∧
    (connectBlock sampleEnv genesisNode (premineBlock txs) (some (.of none sampleGenesis)) genesisView
      false).toBool = true ∧
    (premineView txs).base.saplingAnchors.entries = [] ∧ (premineView txs).top.cacheSaplingAnchors.entries = [] ∧
    (premineView txs).top.cacheSaplingNullifiers.entries = [] ∧
    (∀ e ∈ (premineView txs).top.cacheCoins.entries, EntryOk (vis (premineView txs).base [] e.1) e.2) ∧
    (premineView txs).top.hashBlock ≠ UINT256_ZERO ∧ ((premineView txs).flush samplePedersen).toBool = true

instance (txs : List CTransaction) : Decidable (PremineAccepted txs) := by
  unfold PremineAccepted
  infer_instance

theorem PremineAccepted.run {txs : List CTransaction} (h : PremineAccepted txs) :
    ChainRun sampleEnv [premineBlock txs] (premineIndex txs) (premineView txs) := by
  obtain ⟨hcontext, hconnect, -⟩ := h
  obtain ⟨r, hr⟩ := exists_ok_of_toBool hconnect
  have hview : premineView txs = r.view := by
    unfold premineView
    rw [hr]
    rfl
  have hopen : (emptyChainView.setBestBlock mainParams.hashGenesisBlock).Flushed sampleEnv.pedersen genesisView :=
    View.flush_transparent rfl rfl rfl (by decide) (by decide) rfl
  rw [hview]
  exact sampleGenesis_run.connect hopen hcontext premineBlock_hash_ne hr

theorem PremineAccepted.flushed {txs : List CTransaction} (h : PremineAccepted txs) :
    (premineView txs).Flushed sampleEnv.pedersen (premineFlushed txs) := by
  obtain ⟨-, -, hbase, hanchors, hnullifiers, hentries, hhash, hflush⟩ := h
  obtain ⟨v', hv'⟩ := exists_ok_of_toBool hflush
  have hview : premineFlushed txs = v' := by
    unfold premineFlushed
    rw [hv']
    rfl
  rw [hview]
  exact View.flush_transparent hbase hanchors hnullifiers hentries hhash hv'

theorem sampleCoinbase_absent :
    ∃ s, LoopState sampleEnv sampleNode (sampleBlock []) (premineIndex []) (premineFlushed []) [] s ∧
      ∀ n, s.view.coin ⟨sampleCoinbase.hash, n⟩ = none := by
  have hblocks : PremineAccepted [] ∧
      contextualCheckBlock sampleEnv sampleNode (sampleBlock []) (some (premineIndex [])) = .ok () ∧
      (connectBlock sampleEnv sampleNode (sampleBlock []) (some (premineIndex [])) (premineFlushed [])
        false).toBool = true ∧
      (bestTree samplePedersen (premineFlushed [])).toBool = true ∧
      (checkSuperblock sampleEnv sampleNode (sampleBlock []) 2 (premineFlushed [])).toBool = true := by
    decide +kernel
  obtain ⟨hpremine, hcontext, hconnect, htree, hsuper⟩ := hblocks
  obtain ⟨r, hr⟩ := exists_ok_of_toBool hconnect
  obtain ⟨tree, htree⟩ := exists_ok_of_toBool htree
  obtain ⟨v0, hsuper⟩ := exists_ok_of_toBool hsuper
  have hs : LoopState sampleEnv sampleNode (sampleBlock []) (premineIndex []) (premineFlushed []) []
      ⟨v0, 0, 0, 0, 0, [], tree, []⟩ := ⟨tree, v0, htree, hsuper, rfl⟩
  have hcoinbases : ∀ tx ∈ chainTxs [premineBlock [], sampleBlock []], tx.isCoinBase = true := by decide
  have hvtx : (sampleBlock []).vtx = [] ++ sampleCoinbase :: [] := rfl
  refine ⟨_, hs, ?_⟩
  exact (outputs_absent (by decide) (skipInvalidUTXOS_of_inactive rfl) hpremine.run hpremine.flushed hcontext
    (by decide) hr (by decide) (by decide) (fun tx htx => Or.inl (hcoinbases tx htx)) hvtx hs).2.1

/-- **The same transaction in two blocks.** Block 2 is accepted with a transaction of block 1 whose output is unspent.
    -/
theorem inputless_repeated :
    ∃ r, ChainRun sampleEnv [premineBlock [inputlessTx]] (premineIndex [inputlessTx]) (premineView [inputlessTx]) ∧
      (premineView [inputlessTx]).Flushed sampleEnv.pedersen (premineFlushed [inputlessTx]) ∧
      contextualCheckBlock sampleEnv sampleNode (sampleBlock [inputlessTx]) (some (premineIndex [inputlessTx])) =
        .ok () ∧
      connectBlock sampleEnv sampleNode (sampleBlock [inputlessTx]) (some (premineIndex [inputlessTx]))
        (premineFlushed [inputlessTx]) false = .ok r ∧
      (∀ t ∈ chainTxs [premineBlock [inputlessTx], sampleBlock [inputlessTx]],
        ∀ t' ∈ chainTxs [premineBlock [inputlessTx], sampleBlock [inputlessTx]], t.hash = t'.hash → t = t') ∧
      inputlessTx ∈ (premineBlock [inputlessTx]).vtx ∧ inputlessTx ∈ (sampleBlock [inputlessTx]).vtx ∧
      (premineFlushed [inputlessTx]).coin ⟨inputlessTx.hash, 0⟩ ≠ none := by
  have hblocks : PremineAccepted [inputlessTx] ∧
      contextualCheckBlock sampleEnv sampleNode (sampleBlock [inputlessTx]) (some (premineIndex [inputlessTx])) =
        .ok () ∧
      (connectBlock sampleEnv sampleNode (sampleBlock [inputlessTx]) (some (premineIndex [inputlessTx]))
        (premineFlushed [inputlessTx]) false).toBool = true ∧
      (premineFlushed [inputlessTx]).coin ⟨inputlessTx.hash, 0⟩ ≠ none := by
    decide +kernel
  obtain ⟨hpremine, hcontext, hconnect, hcoin⟩ := hblocks
  obtain ⟨r, hr⟩ := exists_ok_of_toBool hconnect
  exact ⟨r, hpremine.run, hpremine.flushed, hcontext, hr, by decide +kernel, by decide, by decide, hcoin⟩

end KrovaCoin
