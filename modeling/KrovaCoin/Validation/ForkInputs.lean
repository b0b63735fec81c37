import KrovaCoin.Validation.AcceptBlock
import KrovaCoin.Validation.Utxo

/-!
# The inputs of a block on a fork (`validation.cpp`: `AcceptBlock`)

`AcceptBlock` has no UTXO set of a branch that is not active. It puts one together from four scans: the ids of the
block's own transactions, the blocks of the branch after the split, the coins of the active tip, and the blocks of the
active chain after the split.

* `ForkAccepted` — what the scans of an accepted block have found.

Principal results: `fork_inputs_iff`, `regForkBlock_accepted`.
-/

namespace KrovaCoin

open Lib

/-! ## The statement -/

/-- The output is created by one of the first transactions of the block. -/
def CreatedEarlier (block : CBlock) (nHeight i : Nat) (o : COutPoint) : Prop :=
  ∃ tx ∈ block.vtx.take i, tx.creates nHeight o ≠ none

/-- An input of a block after `pprev` that is not created earlier in the block. -/
def ForkInput (block : CBlock) (pprev : List CBlock) (o : COutPoint) : Prop :=
  ∃ i tx, block.vtx[i]? = some tx ∧ o ∈ tx.spends ∧ ¬ CreatedEarlier block pprev.length i o

/-- The transactions of the blocks of a branch after the split, the newest first. -/
def txsAfter (chain pindexFork : List CBlock) : List CTransaction :=
  (chain.take (chain.length - pindexFork.length)).flatMap fun block => block.vtx.reverse

/-- The input has not the id of a later transaction of the block, unless the transaction stands in the branch
    already with this output unspent; a transaction of the branch after the split that has the id creates it;
    and such a transaction stands in the branch if one stands in the active chain after the split. -/
structure OnBranch (block : CBlock) (active pprev : List CBlock) (o : COutPoint) : Prop where
  inBlock : o.hash ∈ (block.vtx.drop 2).map CTransaction.hash →
    ∃ newer e older, ledger pprev = newer ++ e :: older ∧ e.1 ∈ block.vtx.drop 2 ∧ entryCreates e o ≠ none ∧
      ∀ e' ∈ newer, o ∉ entrySpends e'
  created : ∀ tx ∈ txsAfter pprev (findFork active pprev), tx.hash = o.hash → tx.creates pprev.length o ≠ none
  split : ∀ tx ∈ txsAfter active (findFork active pprev), tx.hash = o.hash →
    ∃ tx' ∈ txsAfter pprev (findFork active pprev), tx'.hash = o.hash

/-! ## The scans -/

variable {s : ChainState} {block : CBlock} {pprev pindexFork : List CBlock} {o : COutPoint}
  {os outpoints outpoints' : List COutPoint} {txs : List CTransaction} {env : Env}

theorem collectOutpoints_mem {spent : List COutPoint} (h : collectOutpoints os spent = .ok outpoints) :
    ∀ o, o ∈ os ∨ o ∈ spent → o ∈ outpoints := by
  induction os generalizing spent with
  | nil =>
    cases h
    simp
  | cons o' os ih =>
    rw [collectOutpoints] at h
    split at h
    · cases h
    · intro o ho
      apply ih h
      simp only [List.mem_cons] at ho ⊢
      tauto

theorem checkInBlockDoubleSpends_mem (h : checkInBlockDoubleSpends block = .ok outpoints) {tx : CTransaction}
    (htx : tx ∈ block.vtx.tail) (ho : o ∈ tx.prevouts) (hid : o.hash ∉ (block.vtx.drop 2).map CTransaction.hash) :
    o ∈ outpoints := by
  simp only [checkInBlockDoubleSpends, bind_eq_ok, rejectIf_eq_ok, exists_and_left, exists_const, pure_eq_ok] at h
  obtain ⟨spent, hcollect, -, rfl⟩ := h
  refine List.mem_filter.mpr ⟨?_, by simpa using hid⟩
  exact collectOutpoints_mem hcollect o (.inl (List.mem_flatMap.mpr ⟨tx, htx, ho⟩))

/-- What the scan of the fork finds of an outpoint: it is not touched, or it was created and not spent since. -/
def ScannedOnFork (txs : List CTransaction) (outpoints' : List COutPoint) (o : COutPoint) : Prop :=
  o ∈ outpoints' ∧ (∀ tx ∈ txs, o ∉ tx.prevouts ∧ o ∉ tx.outputs.map Prod.fst) ∨
    ∃ newer tx older, txs = newer ++ tx :: older ∧ o ∈ tx.outputs.map Prod.fst ∧ ∀ t ∈ newer, o ∉ t.prevouts

theorem scanForkTxs_spec (h : txs.foldlM scanForkTx outpoints = .ok outpoints') (ho : o ∈ outpoints) :
    ScannedOnFork txs outpoints' o := by
  induction txs generalizing outpoints with
  | nil =>
    cases h
    exact .inl ⟨ho, by simp⟩
  | cons tx txs ih =>
    obtain ⟨left, hstep, hrest⟩ := bind_eq_ok.mp h
    unfold scanForkTx at hstep
    split at hstep
    · cases hstep
    rename_i hunspent
    cases hstep
    have hnot : o ∉ tx.prevouts := by
      intro hin
      exact hunspent (List.any_eq_true.mpr ⟨o, hin, by simpa using ho⟩)
    by_cases hcreated : o ∈ tx.outputs.map Prod.fst
    · exact .inr ⟨[], tx, txs, rfl, hcreated, by simp⟩
    · rcases ih hrest (List.mem_filter.mpr ⟨ho, by simpa using hcreated⟩) with ⟨hleft, hothers⟩ | ⟨newer, t, older, rfl, ht, hn⟩
      · exact .inl ⟨hleft, List.forall_mem_cons.mpr ⟨⟨hnot, hcreated⟩, hothers⟩⟩
      · exact .inr ⟨tx :: newer, t, older, rfl, ht, List.forall_mem_cons.mpr ⟨hnot, hn⟩⟩

theorem foldlM_scanForkTx_nil : ∀ txs : List CTransaction, txs.foldlM scanForkTx [] = .ok []
  | [] => rfl
  | tx :: txs => by
    have hstep : scanForkTx [] tx = .ok [] := by simp [scanForkTx]
    rw [List.foldlM_cons, hstep, ok_bind]
    exact foldlM_scanForkTx_nil txs

theorem scanForkBlock_eq : scanForkBlock outpoints block = block.vtx.reverse.foldlM scanForkTx outpoints := by
  unfold scanForkBlock
  split
  · rename_i hempty
    rw [List.isEmpty_iff.mp hempty]
    exact (foldlM_scanForkTx_nil _).symm
  · rfl

theorem findFork_suffix (active : List CBlock) : ∀ pprev, findFork active pprev <:+ pprev ∧ findFork active pprev <:+ active
  | [] => ⟨List.suffix_refl _, List.nil_suffix⟩
  | block :: pprev => by
    rw [findFork]
    split
    · rename_i h
      exact ⟨List.suffix_refl _, h⟩
    · have ih := findFork_suffix active pprev
      exact ⟨ih.1.trans (List.suffix_cons _ _), ih.2⟩

theorem isUnspentOnFork_spec {readBlock : Int}
    (h : isUnspentOnFork s readBlock outpoints pprev = .ok (outpoints', pindexFork)) :
    pindexFork = findFork s.active pprev ∧ pindexFork ≠ [] ∧
      (txsAfter pprev pindexFork).foldlM scanForkTx outpoints = .ok outpoints' := by
  induction pprev generalizing readBlock outpoints with
  | nil => cases h
  | cons block pprev ih =>
    unfold isUnspentOnFork at h
    split at h
    · rename_i hactive
      cases h
      refine ⟨?_, by simp, ?_⟩
      · rw [findFork, if_pos hactive]
      · simp [txsAfter, pure_eq_ok]
    · rename_i hactive
      simp only [bind_eq_ok, rejectIf_eq_ok, exists_and_left, exists_const] at h
      obtain ⟨-, -, left, hblock, hrest⟩ := h
      obtain ⟨hfork, hne, hscan⟩ := ih hrest
      rw [findFork, if_neg hactive]
      refine ⟨hfork, hne, ?_⟩
      have hlen : pindexFork.length ≤ pprev.length := hfork ▸ (findFork_suffix s.active pprev).1.length_le
      have htxs : txsAfter (block :: pprev) pindexFork = block.vtx.reverse ++ txsAfter pprev pindexFork := by
        unfold txsAfter
        rw [List.length_cons, Nat.succ_sub hlen, List.take_succ_cons, List.flatMap_cons]
      rw [htxs, List.foldlM_append, ← scanForkBlock_eq, hblock]
      exact hscan

/-- An outpoint is among the coins of the tip with a coin from before the split, or is left. -/
theorem checkTipCoins_spec {v : View} {left : List COutPoint}
    (h : checkTipCoins v (some pindexFork) outpoints = .ok left) :
    ∀ o ∈ outpoints, (∃ c, v.coin o = some c ∧ (c.nHeight : Int) ≤ pindexFork.length - 1) ∨
      v.coin o = none ∧ o ∈ left := by
  induction outpoints generalizing left with
  | nil => simp
  | cons o' os ih =>
    rw [checkTipCoins] at h
    have hlive := View.accessCoin_live v o'
    unfold Coin.live at hlive
    split at h
    · rename_i hunspent
      simp only [bind_eq_ok, rejectIf_eq_ok, exists_and_left, exists_const, Option.any_some, decide_eq_false_iff_not,
        not_lt] at h
      obtain ⟨hheight, hrest⟩ := h
      rw [if_neg (by simpa using hunspent)] at hlive
      intro o ho
      rcases List.mem_cons.mp ho with rfl | ho
      · exact .inl ⟨_, hlive.symm, hheight⟩
      · exact ih hrest o ho
    · rename_i hspent
      simp only [bind_eq_ok, rejectIf_eq_ok, exists_and_left, exists_const, pure_eq_ok] at h
      obtain ⟨-, rest, hrest, rfl⟩ := h
      rw [if_pos (by simpa using hspent)] at hlive
      intro o ho
      rcases List.mem_cons.mp ho with rfl | ho
      · exact .inr ⟨hlive.symm, List.mem_cons_self⟩
      · exact (ih hrest o ho).imp_right fun hleft => ⟨hleft.1, List.mem_cons_of_mem _ hleft.2⟩

theorem mem_foldl_filter_prevouts (ho : o ∈ outpoints) (hnot : ∀ tx ∈ txs, o ∉ tx.prevouts) :
    o ∈ txs.foldl (fun outpoints tx => outpoints.filter fun o => decide (o ∉ tx.prevouts)) outpoints := by
  induction txs generalizing outpoints with
  | nil => exact ho
  | cons tx txs ih =>
    rw [List.forall_mem_cons] at hnot
    exact ih (List.mem_filter.mpr ⟨ho, by simpa using hnot.1⟩) hnot.2

theorem isSpentOnActiveChain_spec {blocks : List CBlock} (h : isSpentOnActiveChain blocks outpoints = true)
    (ho : o ∈ outpoints) : ∃ block ∈ blocks, ∃ tx ∈ block.vtx, o ∈ tx.prevouts := by
  induction blocks generalizing outpoints with
  | nil =>
    rw [isSpentOnActiveChain, List.isEmpty_iff] at h
    rw [h] at ho
    cases ho
  | cons block blocks ih =>
    rw [isSpentOnActiveChain] at h
    split at h
    · rename_i hempty
      rw [List.isEmpty_iff.mp hempty] at ho
      cases ho
    · by_cases hspent : ∃ tx ∈ block.vtx, o ∈ tx.prevouts
      · exact ⟨block, List.mem_cons_self, hspent⟩
      · have hnot : ∀ tx ∈ block.vtx, o ∉ tx.prevouts := fun tx htx hin => hspent ⟨tx, htx, hin⟩
        obtain ⟨b, hb, htx⟩ := ih h (mem_foldl_filter_prevouts ho hnot)
        exact ⟨b, List.mem_cons_of_mem _ hb, htx⟩

/-! ## An accepted block -/

/-- What `AcceptBlock` has found about an input whose id is not that of a transaction of the block: it is created
    in the branch after the split and not spent since, or the branch does not touch it and it is a coin of the
    tip from before the split, or spent in the active chain after the split. -/
def FoundOnFork (s : ChainState) (pprev : List CBlock) (o : COutPoint) : Prop :=
  (∃ newer tx older, txsAfter pprev (findFork s.active pprev) = newer ++ tx :: older ∧
      o ∈ tx.outputs.map Prod.fst ∧ ∀ t ∈ newer, o ∉ t.prevouts) ∨
    (∀ tx ∈ txsAfter pprev (findFork s.active pprev), o ∉ tx.prevouts ∧ o ∉ tx.outputs.map Prod.fst) ∧
      ((∃ c, s.pcoinsTip.coin o = some c ∧ (c.nHeight : Int) ≤ (findFork s.active pprev).length - 1) ∨
        ∃ tx ∈ txsAfter s.active (findFork s.active pprev), o ∈ tx.prevouts)

structure ForkAccepted (s : ChainState) (block : CBlock) (pprev : List CBlock) : Prop where
  split : findFork s.active pprev ≠ []
  found : ∀ tx ∈ block.vtx.tail, ∀ o ∈ tx.prevouts,
    o.hash ∉ (block.vtx.drop 2).map CTransaction.hash → FoundOnFork s pprev o

theorem checkForkInputs_found (h : checkForkInputs s pprev outpoints = .ok ()) :
    findFork s.active pprev ≠ [] ∧ ∀ o ∈ outpoints, FoundOnFork s pprev o := by
  simp only [checkForkInputs, bind_eq_ok, rejectIf_eq_ok, exists_and_left, exists_const] at h
  obtain ⟨⟨left, pindexFork⟩, hfork, -, left', htip, hspent⟩ := h
  obtain ⟨hsplit, hne, hscan⟩ := isUnspentOnFork_spec hfork
  subst hsplit
  refine ⟨hne, fun o ho => ?_⟩
  rcases scanForkTxs_spec hscan ho with ⟨hleft, huntouched⟩ | hcreated
  · refine .inr ⟨huntouched, ?_⟩
    rcases checkTipCoins_spec htip o hleft with hcoin | ⟨-, hleft'⟩
    · exact .inl hcoin
    · have hnonempty : left'.isEmpty = false := by
        rw [List.isEmpty_eq_false_iff]
        exact List.ne_nil_of_mem hleft'
      rw [hnonempty, Bool.not_false, Bool.true_and, Bool.not_eq_false'] at hspent
      obtain ⟨b, hb, tx, htx, hin⟩ := isSpentOnActiveChain_spec hspent hleft'
      refine .inr ⟨tx, ?_, hin⟩
      rw [activeBranch, List.mem_reverse] at hb
      exact List.mem_flatMap.mpr ⟨b, hb, List.mem_reverse.mpr htx⟩
  · exact .inl hcreated

/-- **What `AcceptBlock` checks of a block on a fork.** -/
theorem acceptBlock_fork {entry : BlockIndexEntry} (hprev : s.mapBlockIndex block.hashPrevBlock = some entry)
    (hgenesis : block.hash ≠ env.params.hashGenesisBlock) (hpos : block.isProofOfStake = true)
    (hfork : entry.chain ≠ s.active) (h : acceptBlock env s block = .ok .stored) :
    checkBlock env s.node block true true true = .ok () ∧ ForkAccepted s block entry.chain := by
  simp only [acceptBlock, bind_eq_ok, rejectIf_eq_ok, exists_and_left, exists_const] at h
  obtain ⟨pprev, hindex, -, -, -, haveData, -, h⟩ := h
  have hpprev : pprev = entry.chain := by
    rw [getPrevIndex, if_neg hgenesis, hprev] at hindex
    dsimp only at hindex
    split at hindex
    · cases hindex
    · cases hindex
      rfl
  subst hpprev
  have hne : entry.chain ≠ [] := by
    intro hnil
    have := s.index _ _ hprev
    rw [hnil] at this
    cases this
  split at h
  · cases h
  simp only [acceptBlockData, hpos, if_true, bind_eq_ok] at h
  obtain ⟨⟨⟩, hcheck, ⟨⟩, -, ⟨⟩, hinputs, -⟩ := h
  simp only [checkStakeInputs, bind_eq_ok] at hinputs
  obtain ⟨outpoints, hcollect, hinputs⟩ := hinputs
  rw [if_pos ⟨hne, fun heq => hfork heq.symm⟩] at hinputs
  obtain ⟨hsplit, hfound⟩ := checkForkInputs_found hinputs
  exact ⟨hcheck, hsplit, fun tx htx o ho hid => hfound o (checkInBlockDoubleSpends_mem hcollect htx ho hid)⟩

/-! ## The ledgers of the two branches -/

/-- The ledger of a branch is that of the part up to the split, under the transactions after the split. -/
theorem ledger_split {chain : List CBlock} (hsuffix : pindexFork <:+ chain) (hne : pindexFork ≠ []) :
    ∃ entries, ledger chain = entries ++ ledger pindexFork ∧ entries.map Prod.fst = txsAfter chain pindexFork ∧
      ∀ e ∈ entries, pindexFork.length ≤ e.2 := by
  obtain ⟨newer, rfl⟩ := hsuffix
  have htxs : txsAfter (newer ++ pindexFork) pindexFork = newer.flatMap fun block => block.vtx.reverse := by
    simp [txsAfter]
  rw [htxs]
  induction newer with
  | nil => exact ⟨[], rfl, rfl, by simp⟩
  | cons block newer ih =>
    obtain ⟨entries, hledger, hfst, hheight⟩ := ih (by simp [txsAfter])
    have hnonempty : (newer ++ pindexFork).isEmpty = false := by simp [hne]
    refine ⟨blockEntries block.vtx (newer ++ pindexFork).length ++ entries, ?_, ?_, ?_⟩
    · rw [List.cons_append, ledger, hnonempty, hledger, List.append_assoc]
      rfl
    · simp [blockEntries, hfst, Function.comp_def]
    · intro e he
      rcases List.mem_append.mp he with he | he
      · obtain ⟨tx, -, rfl⟩ := List.mem_map.mp he
        simp
      · exact hheight e he

theorem hash_of_mem_map_outputs {tx : CTransaction} (h : o ∈ tx.outputs.map Prod.fst) : o.hash = tx.hash := by
  obtain ⟨out, hout, rfl⟩ := List.mem_map.mp h
  exact hash_of_mem_outputs hout

theorem notMem_spends {tx : CTransaction} (h : o ∉ tx.prevouts) : o ∉ tx.spends := by
  unfold CTransaction.spends
  split
  · simp
  · exact h

theorem mem_spends_of_not_null {tx : CTransaction} (h : o ∈ tx.prevouts) (hnull : o.isNull = false) : o ∈ tx.spends := by
  unfold CTransaction.spends
  split
  · rename_i hcb
    obtain ⟨txin, htxin, rfl⟩ := List.mem_map.mp h
    unfold CTransaction.isCoinBase at hcb
    split at hcb
    · rename_i heq
      rw [heq, List.mem_singleton] at htxin
      subst htxin
      simp [hnull] at hcb
    · cases hcb
  · exact h

/-- The ids of the transactions of both branches belong to one transaction each. -/
def CollisionFree (block : CBlock) (active pprev : List CBlock) : Prop :=
  ∀ t ∈ (ledger active).map Prod.fst ++ (ledger pprev).map Prod.fst ++ block.vtx,
    ∀ t' ∈ (ledger active).map Prod.fst ++ (ledger pprev).map Prod.fst ++ block.vtx, t.hash = t'.hash → t = t'

/-- An input that is unspent in the branch is of the kind that is judged rightly. -/
theorem onBranch_of_unspent (hcollision : CollisionFree block s.active pprev) (hcoins : CoinsOf s.active s.pcoinsTip) (hsplit : findFork s.active pprev ≠ [])
    (h : utxo pprev o ≠ none) : OnBranch block s.active pprev o := by
  obtain ⟨newer, e, older, hledger, hcreates, hnot⟩ := unspent_ne_none_iff.mp h
  have hhash : o.hash = e.1.hash := CTransaction.hash_of_creates hcreates
  have hmem : e.1 ∈ (ledger pprev).map Prod.fst := List.mem_map_of_mem (by rw [hledger]; simp)
  obtain ⟨entries, hown, hfst, -⟩ := ledger_split (findFork_suffix s.active pprev).1 hsplit
  obtain ⟨others, hactive, hfst', -⟩ := ledger_split (findFork_suffix s.active pprev).2 hsplit
  have hmine : ∀ tx ∈ txsAfter pprev (findFork s.active pprev), tx ∈ (ledger pprev).map Prod.fst := by
    intro tx htx
    rw [hown, List.map_append, hfst]
    exact List.mem_append_left _ htx
  refine ⟨fun hid => ?_, fun tx htx htxhash => ?_, fun tx htx htxhash => ?_⟩
  · obtain ⟨t, ht, hthash⟩ := List.mem_map.mp hid
    have heq : t = e.1 := hcollision t (by simp [List.mem_of_mem_drop ht]) e.1
      (List.mem_append_left _ (List.mem_append_right _ hmem)) (hthash.trans hhash)
    exact ⟨newer, e, older, hledger, heq ▸ ht, hcreates, hnot⟩
  · have heq : tx = e.1 := hcollision tx (List.mem_append_left _ (List.mem_append_right _ (hmine tx htx))) e.1
      (List.mem_append_left _ (List.mem_append_right _ hmem)) (htxhash.trans hhash)
    rw [heq]
    exact fun hnone => hcreates (CTransaction.creates_height hnone)
  · -- the id stands in the active chain after the split, so not before it
    have hentry : e ∈ entries ++ ledger (findFork s.active pprev) := by
      rw [← hown, hledger]
      simp
    rcases List.mem_append.mp hentry with hin | hin
    · exact ⟨e.1, hfst ▸ List.mem_map_of_mem hin, hhash.symm⟩
    · have hnodup := hcoins.nodup
      rw [hactive, List.map_append, List.nodup_append] at hnodup
      obtain ⟨e', he', rfl⟩ := List.mem_map.mp (hfst' ▸ htx)
      refine absurd ?_ (hnodup.2.2 e'.1.hash (List.mem_map_of_mem he') e.1.hash (List.mem_map_of_mem hin))
      exact htxhash.trans hhash

theorem unspent_of_created (hsplit : findFork s.active pprev ≠ []) (hon : OnBranch block s.active pprev o)
    (h : ∃ newer tx older, txsAfter pprev (findFork s.active pprev) = newer ++ tx :: older ∧
      o ∈ tx.outputs.map Prod.fst ∧ ∀ t ∈ newer, o ∉ t.prevouts) : utxo pprev o ≠ none := by
  obtain ⟨newer, tx, older, htxs, hout, hnot⟩ := h
  obtain ⟨entries, hown, hfst, -⟩ := ledger_split (findFork_suffix s.active pprev).1 hsplit
  rw [htxs] at hfst
  obtain ⟨newerEntries, rest, rfl, hnewer, hrest⟩ := List.map_eq_append_iff.mp hfst
  obtain ⟨e, olderEntries, rfl, rfl, -⟩ := List.map_eq_cons_iff.mp hrest
  refine unspent_ne_none_iff.mpr ⟨newerEntries, e, olderEntries ++ ledger (findFork s.active pprev), ?_, ?_, ?_⟩
  · rw [hown]
    simp
  · have hcreates := hon.created e.1 (by rw [htxs]; simp) (hash_of_mem_map_outputs hout).symm
    exact fun hnone => hcreates (CTransaction.creates_height hnone)
  · intro e' he'
    exact notMem_spends (hnot e'.1 (hnewer ▸ List.mem_map_of_mem he'))

/-- A coin that the branch after the split does not touch is as it was at the split. -/
theorem utxo_of_untouched (hsplit : findFork s.active pprev ≠ [])
    (h : ∀ tx ∈ txsAfter pprev (findFork s.active pprev), o ∉ tx.prevouts ∧ o ∉ tx.outputs.map Prod.fst) :
    utxo pprev o = utxo (findFork s.active pprev) o := by
  obtain ⟨entries, hown, hfst, -⟩ := ledger_split (findFork_suffix s.active pprev).1 hsplit
  have htxs : ∀ e ∈ entries, o ∉ e.1.prevouts ∧ o ∉ e.1.outputs.map Prod.fst :=
    fun e he => h e.1 (hfst ▸ List.mem_map_of_mem he)
  unfold utxo
  rw [hown, unspent_append, if_neg]
  · rintro ⟨e, he, hspends⟩
    exact notMem_spends (htxs e he).1 hspends
  · intro e he
    by_contra hcreates
    obtain ⟨c, hc⟩ := Option.ne_none_iff_exists'.mp hcreates
    obtain ⟨out, hout, rfl, -⟩ := CTransaction.creates_eq_some hc
    exact (htxs e he).2 (List.mem_map_of_mem hout)

theorem utxo_split_of_coin {c : Coin} (hcoins : CoinsOf s.active s.pcoinsTip) (hsplit : findFork s.active pprev ≠ [])
    (hcoin : s.pcoinsTip.coin o = some c) (hheight : (c.nHeight : Int) ≤ (findFork s.active pprev).length - 1) :
    utxo (findFork s.active pprev) o = some c := by
  obtain ⟨others, hactive, -, hheights⟩ := ledger_split (findFork_suffix s.active pprev).2 hsplit
  rw [hcoins.coin, utxo, hactive] at hcoin
  refine unspent_of_append hcoin fun e he hcreates => ?_
  have := hheights e he
  have := (CTransaction.creates_spec hcreates).2
  omega

theorem utxo_split_of_spent (hcoins : CoinsOf s.active s.pcoinsTip) (hsplit : findFork s.active pprev ≠ [])
    (hspent : ∃ tx ∈ txsAfter s.active (findFork s.active pprev), o ∈ tx.spends)
    (hnot : ∀ tx ∈ txsAfter s.active (findFork s.active pprev), tx.hash ≠ o.hash) :
    utxo (findFork s.active pprev) o ≠ none := by
  obtain ⟨others, hactive, hfst, -⟩ := ledger_split (findFork_suffix s.active pprev).2 hsplit
  have hordered := hcoins.ordered
  rw [hactive] at hordered
  refine hordered.unspent_of_spent ?_ ?_
  · obtain ⟨tx, htx, hin⟩ := hspent
    obtain ⟨e, he, rfl⟩ := List.mem_map.mp (hfst ▸ htx)
    exact ⟨e, he, hin⟩
  · intro e he
    by_contra hcreates
    exact hnot e.1 (hfst ▸ List.mem_map_of_mem he) (CTransaction.hash_of_creates hcreates).symm

/-- **An input that the scans have found and judge rightly is unspent in the branch.** -/
theorem unspent_of_onBranch (hcoins : CoinsOf s.active s.pcoinsTip) (hsplit : findFork s.active pprev ≠ [])
    (hnull : o.isNull = false) (hfound : FoundOnFork s pprev o) (hon : OnBranch block s.active pprev o) :
    utxo pprev o ≠ none := by
  rcases hfound with hcreated | ⟨huntouched, ⟨c, hcoin, hheight⟩ | ⟨tx, htx, hin⟩⟩
  · exact unspent_of_created hsplit hon hcreated
  · rw [utxo_of_untouched hsplit huntouched, utxo_split_of_coin hcoins hsplit hcoin hheight]
    simp
  · -- a transaction of the branch with the id would create the output, which the branch does not touch
    have hfork : ∀ t ∈ txsAfter pprev (findFork s.active pprev), t.hash ≠ o.hash := by
      intro t ht hhash
      obtain ⟨c, hc⟩ := Option.ne_none_iff_exists'.mp (hon.created t ht hhash)
      obtain ⟨out, hout, rfl, -⟩ := CTransaction.creates_eq_some hc
      exact (huntouched t ht).2 (List.mem_map_of_mem hout)
    rw [utxo_of_untouched hsplit huntouched]
    refine utxo_split_of_spent hcoins hsplit ⟨tx, htx, mem_spends_of_not_null hin hnull⟩ fun t ht hhash => ?_
    obtain ⟨t', ht', hhash'⟩ := hon.split t ht hhash
    exact hfork t' ht' hhash'

/-- **The inputs of a block on a fork.** Let a proof-of-stake block be stored whose parent is not the tip. Its inputs
    that are not created earlier in the block are all in the UTXO set of its own branch exactly if they all are of the
    kind that the scans judge rightly. -/
theorem fork_inputs_iff {entry : BlockIndexEntry}
    (hmax : 0 ≤ env.params.nMaxMoneyOut ∧ env.params.nMaxMoneyOut < 9223372036854775808)
    (hprev : s.mapBlockIndex block.hashPrevBlock = some entry)
    (hgenesis : block.hash ≠ env.params.hashGenesisBlock) (hpos : block.isProofOfStake = true)
    (hfork : entry.chain ≠ s.active) (haccept : acceptBlock env s block = .ok .stored)
    (hcoins : CoinsOf s.active s.pcoinsTip) (hcollision : CollisionFree block s.active entry.chain) :
    (∀ o, ForkInput block entry.chain o → utxo entry.chain o ≠ none) ↔
      ∀ o, ForkInput block entry.chain o → OnBranch block s.active entry.chain o := by
  obtain ⟨hcheck, hsplit, hfound⟩ := acceptBlock_fork hprev hgenesis hpos hfork haccept
  have hblock := checkBlock_ok hmax hcheck
  constructor
  · intro h o ho
    exact onBranch_of_unspent hcollision hcoins hsplit (h o ho)
  · intro h o ho
    have hon := h o ho
    by_cases hid : o.hash ∈ (block.vtx.drop 2).map CTransaction.hash
    · obtain ⟨newer, e, older, hledger, -, hcreates, hnot⟩ := hon.inBlock hid
      exact unspent_ne_none_iff.mpr ⟨newer, e, older, hledger, hcreates, hnot⟩
    · obtain ⟨i, tx, htx, hin, -⟩ := ho
      obtain ⟨cb, rest, hvtx, hcb, hothers⟩ := hblock.coinbase
      have htxcb : tx.isCoinBase = false := by
        cases hcase : tx.isCoinBase with
        | false => rfl
        | true => simp [CTransaction.spends, hcase] at hin
      have hrest : tx ∈ rest := by
        have hmem := List.mem_of_getElem? htx
        rw [hvtx, List.mem_cons] at hmem
        rcases hmem with rfl | hmem
        · rw [hcb] at htxcb
          cases htxcb
        · exact hmem
      have hprevouts : o ∈ tx.prevouts := by simpa [CTransaction.spends, CTransaction.prevouts, htxcb] using hin
      obtain ⟨txin, htxin, rfl⟩ := List.mem_map.mp hprevouts
      have hnull := (hblock.txs tx (List.mem_of_getElem? htx)).notNull htxcb txin htxin
      exact unspent_of_onBranch hcoins hsplit hnull (hfound tx (by rw [hvtx]; exact hrest) _ hprevouts hid) hon

/-! ## A coin of the other branch -/

def regScript : CScript := parseHex TEST_PREMINE_SCRIPTPUBKEY_HEX

/-- The regression test network, with hash functions for which every key is that of the premine. -/
def regEnv : Env where
  params := regTestParams
  crypto := { copyCrypto with ripemd160 := fun _ => Vector.ofFn fun i => (regScript.drop 3).getD i 0 }
  pedersen := samplePedersen
  proofs := sampleEnv.proofs
  checkpoints := ⟨[(0, 1)], by decide, by decide, true⟩

def regCoinbase (hash : Uint256) (nHeight : UInt8) (outs : List CTxOut) : CTransaction :=
  ⟨hash, 1, 0, [⟨⟨0, 0xffffffff⟩, [0x50 + nHeight, 0x00], 0xffffffff⟩], outs, 0, none, none⟩

def regSpend (hash : Uint256) (prevout : COutPoint) (scriptSig : CScript) (outs : List CTxOut) : CTransaction :=
  ⟨hash, 1, 0, [⟨prevout, scriptSig, 0xffffffff⟩], outs, 0, none, none⟩

/-- A coinstake of an output of the premine. -/
def regStake (hash : Uint256) (n : UInt32) (nValue : Int) : CTransaction :=
  regSpend hash ⟨101, n⟩ plainScriptSig [⟨0, []⟩, ⟨nValue, regScript⟩]

def regBlock (hash hashPrevBlock : Uint256) (vtx : List CTransaction) (vchBlockSig : List UInt8) : CBlock :=
  ⟨hash, 8, hashPrevBlock, vtx.head?.elim 0 CTransaction.hash, 1785930000, 0x207fffff, 0, PedersenHash.emptyRoot, vtx,
    vchBlockSig⟩

def regGenesis : CBlock := regBlock regTestParams.hashGenesisBlock 0 [regCoinbase 100 0 [⟨0, [OP_1]⟩]] []

/-- The blocks up to the split: the premine and two blocks with proof of work. -/
def regCommon : List CBlock := [
  regBlock 201 regTestParams.hashGenesisBlock [regCoinbase 101 1 ((getPremineOutputs regTestParams).toOption.getD [])] [],
  regBlock 202 201 [regCoinbase 102 2 [⟨0, [OP_1]⟩]] [],
  regBlock 203 202 [regCoinbase 103 3 [⟨0, [OP_1]⟩]] []]

/-- The active chain after the split: transaction 124 creates a coin and transaction 125 spends it. -/
def regAfter : List CBlock := [
  regBlock 204 203 [regCoinbase 104 4 [⟨0, []⟩], regStake 114 1 (14400000000 * COIN),
    regSpend 124 ⟨101, 2⟩ plainScriptSig [⟨10800000000 * COIN, [OP_1]⟩]] (sampleSig 1),
  regBlock 205 204 [regCoinbase 105 5 [⟨0, []⟩], regStake 115 4 (3600000000 * COIN),
    regSpend 125 ⟨124, 0⟩ [] [⟨10800000000 * COIN, [OP_1]⟩]] (sampleSig 1)]

/-- A block after the split on a branch of its own. -/
def regForkBlock (txs : List CTransaction) : CBlock :=
  regBlock 304 203 (regCoinbase 304 4 [⟨0, []⟩] :: regStake 314 3 (10800000000 * COIN) :: txs) (sampleSig 1)

/-- A spend of the output of transaction 124. -/
def foreignSpend : CTransaction := regSpend 325 ⟨124, 0⟩ [] [⟨10800000000 * COIN, [OP_1]⟩]

def regActive : List CBlock := branch regGenesis (regCommon ++ regAfter)

def regIndex (hash : Uint256) : Option BlockIndexEntry :=
  (regActive.tails.find? fun chain => chain.head?.map CBlock.hash == some hash).map (⟨·, false, true⟩)

def regNode : NodeState :=
  { sampleNode with
    tip := regActive.head?.map CBlock.hash
    chainActive := chainBlockAt regActive
    lookupBlockIndex := fun hash => (regIndex hash).isSome }

def regTip : ChainTip := ⟨[], .of none regGenesis, emptyChainView.setBestBlock regTestParams.hashGenesisBlock⟩

/-- The chain with the cache its last block leaves, and what is left after a flush. -/
def regConnected : ChainTip := (connectAll regEnv regNode regTip (regCommon ++ regAfter)).getD regTip

def regCoins : View := (regConnected.view.flush samplePedersen).toOption.getD emptyChainView

def regState : ChainState where
  node := regNode
  mapBlockIndex := regIndex
  active := regActive
  pcoinsTip := regCoins
  getTransaction _ := none
  stakeModifier _ := List.replicate 32 0
  maxreorg := DEFAULT_MAX_REORG_DEPTH
  index hash entry h := by
    obtain ⟨chain, hfind, rfl⟩ := Option.map_eq_some_iff.mp h
    simpa using List.find?_some hfind
  tip := rfl
  lookup _ := rfl
  blocks _ := rfl

theorem regState_pcoinsTip : regState.pcoinsTip = regCoins := by simp only [regState]

theorem regGenesis_run : ChainRun regEnv regTip.blocks regTip.index regTip.view := by
  obtain ⟨r, hr⟩ := exists_ok_of_toBool
    (x := connectBlock regEnv regNode regGenesis none emptyChainView false) (by decide +kernel)
  have hempty : emptyChainView.Empty regEnv.pedersen := by
    refine ⟨rfl, fun _ => rfl, View.SaplingState.ext rfl ?_ rfl, rfl⟩
    funext rt
    exact View.getSaplingAnchorAt_eq _ _ rt
  have hrun := ChainRun.genesis hempty rfl hr
  rw [connectBlock_genesis rfl hr] at hrun
  exact hrun

theorem regChain_computed : ((connectAll regEnv regNode regTip (regCommon ++ regAfter)).isSome = true ∧
      regConnected.blocks = regCommon ++ regAfter ∧ regConnected.view.Transparent ∧
      (regConnected.view.flush samplePedersen).toBool = true) ∧
    acceptBlock regEnv regState (regForkBlock []) = .ok .stored ∧
    acceptBlock regEnv regState (regForkBlock [foreignSpend]) = .ok .stored := by
  decide +kernel

theorem regState_coinsOf : ChainRun regEnv (regCommon ++ regAfter) regConnected.index regConnected.view ∧
    CoinsOf regState.active regState.pcoinsTip := by
  obtain ⟨⟨hsome, hblocks, ⟨hbase, hanchors, hnullifiers, hentries, hhash⟩, hflush⟩, -⟩ := regChain_computed
  obtain ⟨t, ht⟩ := Option.isSome_iff_exists.mp hsome
  have hconnected : regConnected = t := by
    unfold regConnected
    rw [ht]
    rfl
  have hrun : ChainRun regEnv regConnected.blocks regConnected.index regConnected.view :=
    hconnected ▸ regGenesis_run.connectAll ht
  rw [hblocks] at hrun
  obtain ⟨v', hv'⟩ := exists_ok_of_toBool hflush
  have hcoins : regCoins = v' := by
    unfold regCoins
    rw [hv']
    rfl
  have hopen := View.flush_transparent hbase hanchors hnullifiers hentries hhash hv'
  have hconsumes : ∀ tx ∈ chainTxs (regCommon ++ regAfter), tx.isCoinBase = true ∨ tx.vin ≠ [] := by decide +kernel
  have hof : CoinsOf (branch regGenesis (regCommon ++ regAfter)) regConnected.view :=
    hrun.coinsOf ⟨by decide, skipInvalidUTXOS_of_inactive rfl, by decide,
      fun tx htx => (hconsumes tx htx).imp_right Or.inl, by decide +kernel⟩
  refine ⟨hrun, fun o => ?_, hof.ordered, hof.nodup⟩
  rw [regState_pcoinsTip, hcoins, hopen.coin]
  exact hof.coin o

def regParent : BlockIndexEntry := ⟨branch regGenesis regCommon, false, true⟩

theorem regState_parent (txs : List CTransaction) :
    regState.mapBlockIndex (regForkBlock txs).hashPrevBlock = some regParent := rfl

theorem regForkBlock_inputs : acceptBlock regEnv regState (regForkBlock []) = .ok .stored ∧
    ∀ o, ForkInput (regForkBlock []) regParent.chain o → utxo regParent.chain o ≠ none := by
  have haccept := regChain_computed.2.1
  have hinputs : ∀ tx ∈ (regForkBlock []).vtx, ∀ o ∈ tx.spends, o.hash = 101 := by decide +kernel
  have hbranches : txsAfter regParent.chain (findFork regState.active regParent.chain) = [] ∧
      ∀ tx ∈ txsAfter regState.active (findFork regState.active regParent.chain), tx.hash ≠ 101 := by decide +kernel
  refine ⟨haccept, ?_⟩
  refine (fork_inputs_iff (by decide) (regState_parent []) (by decide) (by decide) (by decide +kernel) haccept
    regState_coinsOf.2 (by unfold CollisionFree; decide +kernel)).mpr ?_
  rintro o ⟨i, tx, htx, ho, -⟩
  have hhash := hinputs tx (List.mem_of_getElem? htx) o ho
  refine ⟨fun hid => by simp [regForkBlock, regBlock] at hid, ?_, ?_⟩
  · rw [hbranches.1]
    simp
  · intro t ht hthash
    exact absurd (hthash.trans hhash) (hbranches.2 t ht)

/-- **A block on a fork that spends a coin of the other branch.** The coin was created and spent in the active chain
    after the split. It never was in the UTXO set of the block's own branch, and the block is stored. -/
theorem regForkBlock_accepted : ChainRun regEnv (regCommon ++ regAfter) regConnected.index regConnected.view ∧
    CoinsOf regState.active regState.pcoinsTip ∧
    regState.mapBlockIndex (regForkBlock [foreignSpend]).hashPrevBlock = some regParent ∧
    (regForkBlock [foreignSpend]).isProofOfStake = true ∧ regParent.chain ≠ regState.active ∧
    acceptBlock regEnv regState (regForkBlock [foreignSpend]) = .ok .stored ∧
    ForkInput (regForkBlock [foreignSpend]) regParent.chain ⟨124, 0⟩ ∧ utxo regParent.chain ⟨124, 0⟩ = none := by
  refine ⟨regState_coinsOf.1, regState_coinsOf.2, regState_parent _, by decide, by decide +kernel, regChain_computed.2.2,
    ⟨2, foreignSpend, rfl, by decide, ?_⟩, by decide +kernel⟩
  unfold CreatedEarlier
  decide +kernel

end KrovaCoin
