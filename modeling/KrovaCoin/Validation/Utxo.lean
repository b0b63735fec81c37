import KrovaCoin.Lib.Ledger
import KrovaCoin.Validation.UniqueTxids

/-!
# The coins of a branch

The transactions of a branch of the block tree are a ledger in the sense of `Lib.Ledger`, and the UTXO set of the branch
is what its replay leaves. A branch is the list of its blocks from the last one down to the genesis block, whose
transactions create nothing.

Principal result: `ChainRun.coinsOf`.
-/

namespace KrovaCoin

open Lib

def CTransaction.creates (tx : CTransaction) (nHeight : Nat) (o : COutPoint) : Option Coin :=
  (tx.outputs.find? fun out => out.1 == o && (tx.coinOf nHeight out.2).storable).map fun out =>
    tx.coinOf nHeight out.2

/-- The transactions of a branch with the heights of their blocks, the newest first. -/
def ledger : List CBlock → List (CTransaction × Nat)
  | [] => []
  | block :: pprev =>
    (if pprev.isEmpty then [] else block.vtx.reverse.map fun tx => (tx, pprev.length)) ++ ledger pprev

def entrySpends (e : CTransaction × Nat) : List COutPoint := e.1.spends

def entryCreates (e : CTransaction × Nat) : COutPoint → Option Coin := e.1.creates e.2

/-- The UTXO set that replaying a branch leaves. -/
def utxo (chain : List CBlock) : COutPoint → Option Coin := unspent entrySpends entryCreates (ledger chain)

/-- The view shows the coins of the branch; in the branch, inputs refer to coins that are there and no id comes
    twice. -/
structure CoinsOf (chain : List CBlock) (v : View) : Prop where
  coin : ∀ o, v.coin o = utxo chain o
  ordered : Ordered entrySpends entryCreates (ledger chain)
  nodup : ((ledger chain).map fun e => e.1.hash).Nodup

/-! ## What a transaction creates -/

variable {tx : CTransaction} {nHeight : Nat} {o : COutPoint} {c : Coin} {outs : List (COutPoint × CTxOut)} {env : Env}
  {node : NodeState} {ctx : ConnectContext} {s s' : ConnectState} {txundo : CTxUndo} {txs : List CTransaction}
  {es : List (CTransaction × Nat)} {v v' : View} {blocks : List CBlock} {block genesis : CBlock} {pprev : CBlockIndex}
  {r : Connected}

theorem CTransaction.creates_eq_some (h : tx.creates nHeight o = some c) :
    ∃ out ∈ tx.outputs, out.1 = o ∧ (tx.coinOf nHeight out.2).storable = true ∧ tx.coinOf nHeight out.2 = c := by
  obtain ⟨out, hfind, hc⟩ := Option.map_eq_some_iff.mp h
  have hprop := List.find?_some hfind
  rw [Bool.and_eq_true, beq_iff_eq] at hprop
  exact ⟨out, List.mem_of_find?_eq_some hfind, hprop.1, hprop.2, hc⟩

theorem CTransaction.creates_eq_none_iff : tx.creates nHeight o = none ↔
    ∀ out ∈ tx.outputs, out.1 = o → (tx.coinOf nHeight out.2).storable = false := by
  simp [CTransaction.creates, List.find?_eq_none]

theorem CTransaction.creates_spec (h : tx.creates nHeight o = some c) : o.hash = tx.hash ∧ c.nHeight = nHeight := by
  obtain ⟨out, hout, rfl, -, rfl⟩ := CTransaction.creates_eq_some h
  exact ⟨hash_of_mem_outputs hout, rfl⟩

theorem CTransaction.hash_of_creates (h : tx.creates nHeight o ≠ none) : o.hash = tx.hash := by
  obtain ⟨c, hc⟩ := Option.ne_none_iff_exists'.mp h
  exact (CTransaction.creates_spec hc).1

theorem CTransaction.creates_height {nHeight' : Nat} (h : tx.creates nHeight o = none) :
    tx.creates nHeight' o = none := by
  rw [CTransaction.creates_eq_none_iff] at h ⊢
  exact h

/-! ## The operations of a transaction on a plain map -/

theorem foldl_inputOps (m : COutPoint → Option Coin) : ∀ {os : List COutPoint} {coins : List Coin},
    coins.length = os.length → (inputOps os coins).foldl Op.apply m o = if o ∈ os then none else m o := by
  intro os
  induction os generalizing m with
  | nil =>
    intro coins _
    simp [inputOps]
  | cons o' os ih =>
    intro coins hlen
    obtain ⟨c, coins, rfl⟩ : ∃ c cs, coins = c :: cs := by
      cases coins with
      | nil => cases hlen
      | cons c coins => exact ⟨c, coins, rfl⟩
    have hcons : inputOps (o' :: os) (c :: coins) = .take o' c :: inputOps os coins := rfl
    rw [hcons, List.foldl_cons, ih _ (by simpa using hlen)]
    by_cases hin : o ∈ os
    · simp [hin]
    · by_cases heq : o = o'
      · simp [Op.apply, heq]
      · simp [Op.apply, hin, heq]

theorem foldl_outputOps_of_not (m : COutPoint → Option Coin)
    (h : ∀ out ∈ outs, out.1 = o → (tx.coinOf nHeight out.2).storable = false) :
    (outs.flatMap (outputOps tx nHeight)).foldl Op.apply m o = m o := by
  induction outs generalizing m with
  | nil => rfl
  | cons out outs ih =>
    rw [List.flatMap_cons, List.foldl_append, ih _ fun out' hin => h out' (List.mem_cons_of_mem _ hin)]
    unfold outputOps
    split
    · rfl
    · split
      · rename_i hstorable
        have hne : o ≠ out.1 := by
          rintro rfl
          rw [h out List.mem_cons_self rfl] at hstorable
          cases hstorable
        simp [Op.apply, hne]
      · rfl

theorem foldl_outputOps_of_mem (m : COutPoint → Option Coin) {out : COutPoint × CTxOut}
    (hnodup : (outs.map Prod.fst).Nodup) (hout : out ∈ outs) (hstorable : (tx.coinOf nHeight out.2).storable = true) :
    (outs.flatMap (outputOps tx nHeight)).foldl Op.apply m out.1 = some (tx.coinOf nHeight out.2) := by
  induction outs generalizing m with
  | nil => cases hout
  | cons out' outs ih =>
    rw [List.map_cons, List.nodup_cons] at hnodup
    rw [List.flatMap_cons, List.foldl_append]
    rcases List.mem_cons.mp hout with rfl | hin
    · rw [foldl_outputOps_of_not]
      · have hspendable : out.2.scriptPubKey.isUnspendable = false := by
          simp only [Coin.storable, CTransaction.coinOf, Bool.and_eq_true, Bool.not_eq_true'] at hstorable
          exact hstorable.1.2
        simp [outputOps, hspendable, hstorable, Op.apply]
      · intro out'' hin heq
        exact absurd (heq ▸ List.mem_map_of_mem hin) hnodup.1
    · exact ih _ hnodup.2 hin

theorem foldl_txOps (m : COutPoint → Option Coin) {coins : List Coin} (hlen : coins.length = tx.spends.length)
    (hcount : tx.vout.length < 4294967296) :
    (inputOps tx.spends coins ++ tx.outputs.flatMap (outputOps tx nHeight)).foldl Op.apply m o =
      match tx.creates nHeight o with
      | some c => some c
      | none => if o ∈ tx.spends then none else m o := by
  rw [List.foldl_append]
  cases hcreates : tx.creates nHeight o with
  | none => rw [foldl_outputOps_of_not _ (CTransaction.creates_eq_none_iff.mp hcreates), foldl_inputOps m hlen]
  | some c =>
    obtain ⟨out, hout, rfl, hstorable, rfl⟩ := CTransaction.creates_eq_some hcreates
    exact foldl_outputOps_of_mem _ (outputs_nodup hcount) hout hstorable

/-! ## Chains of accepted blocks -/

/-- **One transaction.** The coins after it are those of the ledger with it. -/
theorem TxConnected.coin_eq (h : UniqueTxids txs nHeight s.view) (hvalid : ∀ o, ctx.invalidOut o = false)
    (htx : TxChecked env.params tx) (hstep : TxConnected env node ctx s s' tx txundo)
    (hnew : tx.hash ∉ txs.map CTransaction.hash) (hcoin : ∀ o, s.view.coin o = unspent entrySpends entryCreates es o)
    (o : COutPoint) : s'.view.coin o = unspent entrySpends entryCreates ((tx, ctx.nHeight) :: es) o := by
  obtain ⟨hundo, own', σ', hruns, hsim'⟩ := hstep.runs hvalid htx h.tidy.sim
  have hlen : txundo.vprevout.length = tx.spends.length := by rw [hundo, List.length_map]
  have habsent : ∀ n, (s.view.slots ⟨tx.hash, n⟩).1 = none := by
    intro n
    by_contra hthere
    obtain ⟨t, ht, hhash⟩ := h.created _ hthere
    exact hnew (List.mem_map.mpr ⟨t, ht, hhash⟩)
  have hfresh := freshAdds_txOps hruns hlen (fun _ hout => hout) (hstep.spends htx).2 habsent
  have hvisible := congrFun (hruns.visible_eq h.uncovered hfresh) o
  rw [hsim'.coin]
  refine hvisible.trans ((foldl_txOps _ hlen htx.outs).trans ?_)
  cases hcreates : tx.creates ctx.nHeight o with
  | some c => rw [unspent_cons_of_some (show entryCreates (tx, ctx.nHeight) o = some c from hcreates)]
  | none =>
    rw [unspent_cons_of_none (show entryCreates (tx, ctx.nHeight) o = none from hcreates), ← hcoin]
    rfl

def blockEntries (done : List CTransaction) (nHeight : Nat) : List (CTransaction × Nat) :=
  done.reverse.map fun tx => (tx, nHeight)

theorem blockEntries_snoc (done : List CTransaction) :
    blockEntries (done ++ [tx]) nHeight = (tx, nHeight) :: blockEntries done nHeight := by
  simp [blockEntries]

/-- The coins after some of the transactions of a block, and whether their inputs were there. -/
structure LoopCoins (es : List (CTransaction × Nat)) (nHeight : Nat) (done : List CTransaction) (v : View) : Prop where
  coin : ∀ o, v.coin o = unspent entrySpends entryCreates (blockEntries done nHeight ++ es) o
  ordered : Ordered entrySpends entryCreates (blockEntries done nHeight ++ es)

/-- **The transactions of a block.** -/
theorem UniqueTxids.loopCoins (hok : ChainOk env blocks) (hopen : v.Flushed env.pedersen v')
    (hblock : BlockChecked env.params block)
    (hstate : ∀ {done s}, done <+: block.vtx → LoopState env node block pprev v' done s →
      UniqueTxids (txs ++ done) (pprev.nHeight + 1) s.view)
    (hcoin : ∀ o, v.coin o = unspent entrySpends entryCreates es o) (hordered : Ordered entrySpends entryCreates es)
    {done : List CTransaction} (hdone : done <+: block.vtx) (hs : LoopState env node block pprev v' done s) :
    LoopCoins es (pprev.nHeight + 1) done s.view := by
  obtain ⟨tree, v0, htree, hsuper, hloop⟩ := hs
  have hsim0 := checkSuperblock_sim (View.tidy_of_new hopen.top).1.sim hsuper
  -- what holds of every prefix of the transactions
  let P : List CTransaction → ConnectState → Prop := fun done s =>
    done <+: block.vtx → LoopState env node block pprev v' done s ∧ LoopCoins es (pprev.nHeight + 1) done s.view
  have hstart : P [] ⟨v0, 0, 0, 0, 0, [], tree, []⟩ := by
    refine fun _ => ⟨⟨tree, v0, htree, hsuper, rfl⟩, fun o => ?_, hordered⟩
    rw [hsim0.coin]
    show v'.coin o = _
    rw [hopen.coin]
    exact hcoin o
  refine (foldlM_induct P ?_ done [] _ s hstart hloop hdone).2
  intro done tx s s' hP hstep hpre
  have hpre' : done <+: block.vtx := (List.prefix_append done [tx]).trans hpre
  obtain ⟨hdone, hcoins⟩ := hP hpre'
  have htx : TxChecked env.params tx := hblock.txs tx (hpre.subset (by simp))
  obtain ⟨txundo, hconnected⟩ := connectTx_ok hok.max htx hstep
  have hafter := hdone.snoc hstep
  have hnew : tx.hash ∉ (txs ++ done).map CTransaction.hash := by
    have hnodup := (hstate hpre hafter).nodup
    rw [← List.append_assoc, List.map_append, List.nodup_append] at hnodup
    intro hmem
    exact hnodup.2.2 _ hmem tx.hash (List.mem_singleton_self _) rfl
  refine ⟨hafter, fun o => ?_, ?_⟩
  · rw [blockEntries_snoc, List.cons_append]
    exact hconnected.coin_eq (hstate hpre' hdone) hok.invalidOut htx hnew hcoins.coin o
  · rw [blockEntries_snoc, List.cons_append]
    refine ⟨fun o ho => ?_, hcoins.ordered⟩
    rw [← hcoins.coin]
    exact (hconnected.spends htx).2 o ho

def branch (genesis : CBlock) (blocks : List CBlock) : List CBlock := blocks.reverse ++ [genesis]

theorem ledger_branch_snoc : ledger (branch genesis (blocks ++ [block])) =
      blockEntries block.vtx (blocks.length + 1) ++ ledger (branch genesis blocks) := by
  simp [branch, ledger, blockEntries]

theorem ledger_hashes : ((ledger (branch genesis blocks)).map fun e => e.1.hash) =
    ((chainTxs blocks).map CTransaction.hash).reverse := by
  induction blocks using List.reverseRecOn with
  | nil => rfl
  | append_singleton blocks block ih =>
    rw [ledger_branch_snoc, List.map_append, ih, chainTxs_append, List.map_append, List.reverse_append]
    simp [blockEntries, Function.comp_def]

/-- **The view of a chain shows its coins.** -/
theorem ChainRun.coinsOf (h : ChainRun env blocks pprev v) (hok : ChainOk env blocks) :
    CoinsOf (branch genesis blocks) v := by
  have hunique := h.uniqueTxids hok
  have hcoins : (∀ o, v.coin o = utxo (branch genesis blocks) o) ∧
      Ordered entrySpends entryCreates (ledger (branch genesis blocks)) := by
    clear hunique
    induction h with
    | @genesis node block v r hempty hhash hconnect =>
      rw [connectBlock_genesis hhash hconnect]
      refine ⟨fun o => ?_, trivial⟩
      exact hempty.coin o
    | @connect node node' blocks pprev v v' block r hrun hopen hcontext hgenesis hconnect ih =>
      obtain ⟨hcoin, hordered⟩ := ih hok.init
      obtain ⟨pindexPrev, tree, v0, s, hpprev, hconnected⟩ := connectBlock_ok hok.max hgenesis hconnect
      cases hpprev
      have hstate : ∀ {done s}, done <+: block.vtx → LoopState env node block pprev v' done s →
          UniqueTxids (chainTxs blocks ++ done) (pprev.nHeight + 1) s.view :=
        (hrun.uniqueTxids hok.init).loopState hok hrun.height hopen hconnected.checked hcontext
      have hs : LoopState env node block pprev v' block.vtx s :=
        ⟨tree, v0, hconnected.bestTree, hconnected.superblock, hconnected.loop⟩
      have hloop := UniqueTxids.loopCoins hok hopen hconnected.checked hstate hcoin hordered (List.prefix_refl _) hs
      have hsim := (View.SameCoins.setBestBlock _ block.hash).sim
        ((View.SameCoins.pushAnchor env.pedersen s.view s.sapling_tree).sim
          (hstate (List.prefix_refl _) hs).tidy.sim)
      unfold utxo
      rw [ledger_branch_snoc, ← hrun.height, hconnected.result]
      refine ⟨fun o => ?_, hloop.ordered⟩
      rw [hsim.coin]
      exact hloop.coin o
  refine ⟨hcoins.1, hcoins.2, ?_⟩
  rw [ledger_hashes, List.nodup_reverse]
  exact hunique.nodup

end KrovaCoin
