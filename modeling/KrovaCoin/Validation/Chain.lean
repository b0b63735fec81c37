import KrovaCoin.Validation.Assertions

/-!
# Chains of accepted blocks (`validation.cpp`: `ConnectTip`)

* `connectNext`, `connectAll` — a chain computed block after block; `ChainRun.connectAll` — it is one.
-/

namespace KrovaCoin

open Lib

/-- A new cache over a view in which nothing is recorded. -/
structure View.Empty (p : PedersenHash) (v : View) : Prop where
  top : v.top = .new
  coin : ∀ o, v.coin o = none
  sapling : v.sapling p = ⟨fun _ => false, fun rt => if rt = PedersenHash.emptyRoot then some .empty else none,
    PedersenHash.emptyRoot⟩
  best : v.getBestBlock = UINT256_ZERO

/-- A new cache over a view that shows what `v` shows: `CCoinsViewCache view(pcoinsTip)` after the cache of
    the last block has been flushed into `pcoinsTip`. -/
structure View.Flushed (p : PedersenHash) (v v' : View) : Prop where
  top : v'.top = .new
  coin : v'.coin = v.coin
  sapling : v'.sapling p = v.sapling p
  best : v'.getBestBlock = v.getBestBlock

/-- `Flush` into the base, and a new cache over it. -/
def View.flush (p : PedersenHash) (v : View) : Except CacheError View := do
  let base ← v.base.batchWrite p.treeOps v.top
  return ⟨base, .new⟩

/-- **A cache in order is flushed without loss.** `K` are trees that are told apart by their roots. -/
theorem View.flush_flushed {p : PedersenHash} {v v' : View} {K : SaplingMerkleTree → Prop}
    (hroots : ∀ t t', K t → K t' → p.treeOps.root t = p.treeOps.root t' → t = t') (hK : K p.treeOps.emptyTree)
    (hwf : WF v.base [v.top]) (hinv : SaplingInv p.treeOps K v.base [v.top])
    (hempty : (v.getSaplingAnchorAt p p.treeOps.emptyRoot).isSome = true) (hhash : v.top.hashBlock ≠ UINT256_ZERO)
    (h : v.flush p = .ok v') : v.Flushed p v' := by
  obtain ⟨base', hw, hv'⟩ := bind_eq_ok.mp h
  cases hv'
  obtain ⟨base'', hw', hcoins⟩ := baseBatchWrite_spec p.treeOps hwf
  rw [hw, Except.ok.injEq] at hw'
  subst hw'
  have hsame : SameAnswers p.treeOps v.base [v.top] base' [] := by
    apply (flush_base_iff hroots hK hinv hw).mpr
    rw [← (getSaplingAnchorAt_spec hK v.base [v.top] p.treeOps.emptyRoot).1]
    exact hempty
  refine ⟨rfl, ?_, View.SaplingState.ext ?_ ?_ ?_, ?_⟩
  · funext o
    exact congrFun hcoins o
  · funext nf
    exact (hsame.nullifier nf).trans (getNullifier_spec hK v.base [v.top] nf).1.symm
  · funext rt
    show View.getSaplingAnchorAt p _ rt = v.getSaplingAnchorAt p rt
    rw [View.getSaplingAnchorAt_eq]
    exact (hsame.anchor rt).trans (getSaplingAnchorAt_spec hK v.base [v.top] rt).1.symm
  · exact hsame.best.trans (getBestAnchor_spec hK v.base [v.top]).1.symm
  · obtain ⟨coins, anchors, nullifiers, -, -, -, hb⟩ := baseBatchWrite_ok p.treeOps v.base v.top
    rw [hw, Except.ok.injEq] at hb
    rw [View.getBestBlock_eq, View.getBestBlock_eq, if_neg hhash, hb]
    exact if_pos rfl

theorem View.flush_transparent {p : PedersenHash} {v v' : View} (hbase : v.base.saplingAnchors.entries = [])
    (hanchors : v.top.cacheSaplingAnchors.entries = []) (hnullifiers : v.top.cacheSaplingNullifiers.entries = [])
    (hentries : ∀ e ∈ v.top.cacheCoins.entries, EntryOk (vis v.base [] e.1) e.2)
    (hhash : v.top.hashBlock ≠ UINT256_ZERO) (h : v.flush p = .ok v') : v.Flushed p v' := by
  have hget : ∀ rt, KMap.get v.top.cacheSaplingAnchors rt = none := KMap.get_of_entries_nil hanchors
  apply View.flush_flushed (K := (· = p.treeOps.emptyTree)) _ rfl _ _ _ hhash h
  · rintro t t' rfl rfl -
    rfl
  · refine ⟨fun o e hmem => ?_, trivial⟩
    exact hentries ⟨o, e⟩ (AList.mem_lookup_iff.mp hmem)
  · refine ⟨fun nf e hmem => ?_, fun rt e hmem => ?_, fun rt t hmem => ?_⟩
    · rw [KMap.get_of_entries_nil hnullifiers] at hmem
      cases hmem
    · rw [hget] at hmem
      cases hmem
    · rw [KMap.get_of_entries_nil hbase] at hmem
      cases hmem
  · rw [View.getSaplingAnchorAt_eq, hget]
    simp [BaseView.getSaplingAnchorAt]

/-- A chain of accepted blocks: the blocks after the genesis block, the index entry of the last one and the
    view it has left. -/
inductive ChainRun (env : Env) : List CBlock → CBlockIndex → View → Prop where
  | genesis {node : NodeState} {block : CBlock} {v : View} {r : Connected} (hempty : v.Empty env.pedersen)
      (hhash : block.hash = env.params.hashGenesisBlock)
      (hconnect : connectBlock env node block none v false = .ok r) :
      ChainRun env [] (.of none block) r.view
  | connect {node node' : NodeState} {blocks : List CBlock} {pprev : CBlockIndex} {v v' : View} {block : CBlock}
      {r : Connected} (hrun : ChainRun env blocks pprev v) (hopen : v.Flushed env.pedersen v')
      (hcontext : contextualCheckBlock env node' block (some pprev) = .ok ())
      (hgenesis : block.hash ≠ env.params.hashGenesisBlock)
      (hconnect : connectBlock env node block (some pprev) v' false = .ok r) :
      ChainRun env (blocks ++ [block]) (.of (some pprev) block) r.view

variable {env : Env} {node : NodeState} {blocks : List CBlock} {block : CBlock} {pprev : CBlockIndex} {v v' : View}

theorem ChainRun.height (h : ChainRun env blocks pprev v) : pprev.nHeight = blocks.length := by
  induction h with
  | genesis => rfl
  | connect _ _ _ _ _ ih =>
    show _ + 1 = _
    rw [ih, List.length_append, List.length_singleton]

/-! ## Chains that are computed -/

/-- A chain with the index entry of its tip and the cache its last block has left. -/
structure ChainTip where
  blocks : List CBlock
  index : CBlockIndex
  view : View

/-- A cache without Sapling entries and with sound flags, over a base without anchors. -/
def View.Transparent (v : View) : Prop :=
  v.base.saplingAnchors.entries = [] ∧ v.top.cacheSaplingAnchors.entries = [] ∧
    v.top.cacheSaplingNullifiers.entries = [] ∧
    (∀ e ∈ v.top.cacheCoins.entries, EntryOk (vis v.base [] e.1) e.2) ∧ v.top.hashBlock ≠ UINT256_ZERO

instance (v : View) : Decidable v.Transparent := by
  unfold View.Transparent
  infer_instance

def connectNext (env : Env) (node : NodeState) (t : ChainTip) (block : CBlock) : Option ChainTip :=
  if t.view.Transparent ∧ block.hash ≠ env.params.hashGenesisBlock ∧
      contextualCheckBlock env node block (some t.index) = .ok () then
    match t.view.flush env.pedersen with
    | .error _ => none
    | .ok v' =>
      match connectBlock env node block (some t.index) v' false with
      | .error _ => none
      | .ok r => some ⟨t.blocks ++ [block], .of (some t.index) block, r.view⟩
  else none

def connectAll (env : Env) (node : NodeState) (t : ChainTip) (blocks : List CBlock) : Option ChainTip :=
  blocks.foldlM (connectNext env node) t

theorem ChainRun.connectNext {t t' : ChainTip} (h : ChainRun env t.blocks t.index t.view)
    (hnext : connectNext env node t block = some t') : ChainRun env t'.blocks t'.index t'.view := by
  unfold KrovaCoin.connectNext at hnext
  split at hnext
  · rename_i hcond
    obtain ⟨⟨hbase, hanchors, hnullifiers, hentries, hhash⟩, hgenesis, hcontext⟩ := hcond
    split at hnext
    · cases hnext
    · rename_i v' hflush
      split at hnext
      · cases hnext
      · rename_i r hconnect
        cases hnext
        exact h.connect (View.flush_transparent hbase hanchors hnullifiers hentries hhash hflush) hcontext hgenesis
          hconnect
  · cases hnext

/-- **A computed chain is a chain of accepted blocks.** -/
theorem ChainRun.connectAll {t t' : ChainTip} (h : ChainRun env t.blocks t.index t.view)
    (hall : connectAll env node t blocks = some t') : ChainRun env t'.blocks t'.index t'.view := by
  unfold KrovaCoin.connectAll at hall
  induction blocks generalizing t with
  | nil =>
    cases hall
    exact h
  | cons block blocks ih =>
    rw [List.foldlM_cons] at hall
    obtain ⟨t1, hnext, hrest⟩ := Option.bind_eq_some_iff.mp hall
    exact ih (h.connectNext hnext) hrest

theorem connectBlock_genesis {pprev : Option CBlockIndex} {r : Connected}
    (hhash : block.hash = env.params.hashGenesisBlock) (h : connectBlock env node block pprev v false = .ok r) :
    r.view = v.setBestBlock block.hash := by
  simp only [connectBlock, bind_eq_ok, rejectIf_eq_ok, exists_and_left, exists_const, if_pos hhash] at h
  obtain ⟨_, -, -, -, h⟩ := h
  cases h
  rfl

theorem View.tidy_of_new (h : v.top = .new) : v.Tidy ∧ v.slots.Uncovered := by
  have hget : ∀ o, KMap.get v.top.cacheCoins o = none := by
    intro o
    rw [h]
    rfl
  constructor
  · intro o e he
    rw [hget] at he
    cases he
  · intro o
    rw [View.slots_uncached (hget o)]

/-- The transactions of a chain, in order. -/
def chainTxs (blocks : List CBlock) : List CTransaction := blocks.flatMap CBlock.vtx

@[simp] theorem chainTxs_append (blocks : List CBlock) (block : CBlock) :
    chainTxs (blocks ++ [block]) = chainTxs blocks ++ block.vtx := by
  simp [chainTxs]

end KrovaCoin
