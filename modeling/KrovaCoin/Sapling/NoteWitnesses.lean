import KrovaCoin.Sapling.IncrementalWitness
import KrovaCoin.Validation.AcceptBlock

/-!
# The note witnesses of the wallet (`sapling/saplingscriptpubkeyman.cpp`)

The wallet keeps for each of its notes the witnesses of the last blocks, the newest in front, so that a
disconnected block only takes the front off.

* `copyPreviousWitnesses`, `appendNoteCommitment`, `witnessNoteIfMine`, `updateWitnessHeights` — the steps
  of `IncrementNoteWitnesses`, on the data of one note.

Principal result: `Synced.connect`.
-/

namespace KrovaCoin

open Lib

def WITNESS_CACHE_SIZE : Int := DEFAULT_MAX_REORG_DEPTH + 1

structure SaplingOutPoint where
  hash : Uint256
  n : Nat
  deriving DecidableEq, Repr

/-- `SaplingNoteData`; a fresh one has no witness and the height -1. -/
structure SaplingNoteData where
  ivk : Option Uint256
  nullifier : Option Uint256 := none
  witnesses : List SaplingWitness := []
  witnessHeight : Int := -1
  deriving DecidableEq, Repr

def SaplingNoteData.isMyNote (nd : SaplingNoteData) : Bool := nd.ivk.isSome

abbrev NoteDataMap := List (SaplingOutPoint × SaplingNoteData)

/-- The state of `SaplingScriptPubKeyMan` that these functions use. -/
structure SaplingScriptPubKeyMan where
  nWitnessCacheSize : Int
  mapSaplingNoteData : NoteDataMap
  rollbackTargetHeight : Int
  cachedWitnessMap : KMap Uint256 (List SaplingWitness)

def CBlock.noteCommitments (block : CBlock) : List (SaplingOutPoint × Uint256) :=
  (block.vtx.filter CTransaction.isShieldedTx).flatMap fun tx =>
    tx.shieldedOutputs.mapIdx fun i out => (⟨tx.hash, i⟩, out.cmu)

/-! ## The data of one note -/

section Note

variable (p : PedersenHash) (indexHeight nWitnessCacheSize : Int)

/-- `assert(nWitnessCacheSize >= nd->witnesses.size())`. -/
def assertCacheSize (nd : SaplingNoteData) : Except Failure Unit :=
  rejectIf (decide (nWitnessCacheSize < nd.witnesses.length)) .assertion

/-- The body of `CopyPreviousWitnesses`. -/
def copyPreviousWitnesses (nd : SaplingNoteData) : Except Failure SaplingNoteData :=
  if !nd.isMyNote then .ok nd
  else if nd.witnessHeight < indexHeight then do
    assertCacheSize nWitnessCacheSize nd
    rejectIf (!(nd.witnessHeight == -1 || nd.witnessHeight == indexHeight - 1)) .assertion
    let witnesses := nd.witnesses.head?.toList ++ nd.witnesses
    return { nd with witnesses :=
      if (witnesses.length : Int) > WITNESS_CACHE_SIZE then witnesses.dropLast else witnesses }
  else .ok nd

def appendNoteCommitment (note_commitment : Uint256) (nd : SaplingNoteData) : Except Failure SaplingNoteData :=
  if !nd.isMyNote then .ok nd
  else
    match nd.witnesses with
    | [] => .ok nd
    | front :: rest =>
      if nd.witnessHeight < indexHeight then do
        assertCacheSize nWitnessCacheSize nd
        let front ← throwing (front.append p.hash SAPLING_INCREMENTAL_MERKLE_TREE_DEPTH note_commitment)
        return { nd with witnesses := front :: rest }
      else .ok nd

/-- `WitnessNoteIfMine`; witnesses of another block are dropped. -/
def witnessNoteIfMine (witness : SaplingWitness) (nd : SaplingNoteData) : Except Failure SaplingNoteData :=
  if !nd.isMyNote ∨ nd.witnessHeight ≥ indexHeight then .ok nd
  else do
    let nd := { nd with witnesses := [witness], witnessHeight := indexHeight - 1 }
    assertCacheSize nWitnessCacheSize nd
    return nd

/-- The body of `UpdateWitnessHeights`. -/
def updateWitnessHeights (nd : SaplingNoteData) : Except Failure SaplingNoteData :=
  if !nd.isMyNote then .ok nd
  else if nd.witnessHeight < indexHeight then do
    let nd := { nd with witnessHeight := indexHeight }
    assertCacheSize nWitnessCacheSize nd
    return nd
  else .ok nd

/-- The first part of the body of `DecrementNoteWitnesses`. -/
def popWitness (nd : SaplingNoteData) : Except Failure SaplingNoteData :=
  if nd.witnessHeight ≤ indexHeight then do
    assertCacheSize nWitnessCacheSize nd
    rejectIf (!(nd.witnessHeight == -1 || nd.witnessHeight == indexHeight)) .assertion
    return { nd with witnesses := nd.witnesses.tail, witnessHeight := indexHeight - 1 }
  else .ok nd

/-- The body of `DecrementNoteWitnesses`. -/
def decrementNote (nd : SaplingNoteData) : Except Failure SaplingNoteData :=
  if !nd.isMyNote then .ok nd
  else do
    let nd ← popWitness indexHeight nWitnessCacheSize nd
    if nd.witnessHeight < indexHeight then
      assertCacheSize (nWitnessCacheSize - 1) nd
      return nd
    else return nd

/-- The body of `ResetNoteWitnesses`, with the cache that is left. -/
def resetNote (cachedWitnessMap : KMap Uint256 (List SaplingWitness)) (nd : SaplingNoteData) :
    Except Failure (SaplingNoteData × KMap Uint256 (List SaplingWitness)) :=
  if !nd.isMyNote then .ok (nd, cachedWitnessMap)
  else do
    rejectIf (decide (nd.witnessHeight ≤ indexHeight) && !(nd.witnessHeight == -1 || nd.witnessHeight == indexHeight))
      .assertion
    let nd := { nd with witnesses := [], witnessHeight := indexHeight - 1 }
    match nd.nullifier with
    | none => return (nd, cachedWitnessMap)
    | some nullifier =>
      match cachedWitnessMap.get nullifier with
      | none => .error (.exception "map::at")
      | some [] => return (nd, cachedWitnessMap)
      | some (front :: rest) =>
        return ({ nd with witnesses := [front] }, cachedWitnessMap.set nullifier (some rest))

end Note

/-! ## Blocks -/

/-- Applies a step to the data of all notes with the given property. -/
def updateNotes (test : SaplingOutPoint → Bool) (f : SaplingNoteData → Except Failure SaplingNoteData)
    (notes : NoteDataMap) : Except Failure NoteDataMap :=
  notes.mapM fun e => if test e.1 then (f e.2).map (e.1, ·) else .ok e

/-- The variables of the first loop of `IncrementNoteWitnesses`. -/
structure IncrementState where
  saplingTree : SaplingMerkleTree
  notes : NoteDataMap
  inBlockArrivingNotes : List SaplingOutPoint

/-- The body of that loop, for one shielded output. -/
def incrementOutput (p : PedersenHash) (chainHeight nWitnessCacheSize : Int) (s : IncrementState)
    (out : SaplingOutPoint × Uint256) : Except Failure IncrementState := do
  let notes ← s.inBlockArrivingNotes.foldlM
    (fun notes op => updateNotes (· == op) (appendNoteCommitment p chainHeight nWitnessCacheSize out.2) notes) s.notes
  let saplingTree ← throwing (s.saplingTree.append p.hash SAPLING_INCREMENTAL_MERKLE_TREE_DEPTH out.2)
  if (notes.map Prod.fst).contains out.1 then
    let notes ← updateNotes (· == out.1) (witnessNoteIfMine chainHeight nWitnessCacheSize saplingTree.witness) notes
    return ⟨saplingTree, notes, s.inBlockArrivingNotes ++ [out.1]⟩
  else return ⟨saplingTree, notes, s.inBlockArrivingNotes⟩

/-- `nWitnessCacheSize` after a connected block. -/
def nextCacheSize (nWitnessCacheSize : Int) : Int :=
  if nWitnessCacheSize < WITNESS_CACHE_SIZE then nWitnessCacheSize + 1 else nWitnessCacheSize

/-- `IncrementNoteWitnesses`, with the height of the block and the tree of its parent. The third loop of the source goes
    over the wallet transactions; its three steps act on each note by itself. -/
def incrementNoteWitnesses (p : PedersenHash) (man : SaplingScriptPubKeyMan) (chainHeight : Int) (block : CBlock)
    (saplingTreeRes : SaplingMerkleTree) : Except Failure SaplingScriptPubKeyMan := do
  let prevWitCacheSize := man.nWitnessCacheSize
  let cacheSize := nextCacheSize man.nWitnessCacheSize
  let s ← block.noteCommitments.foldlM (incrementOutput p chainHeight cacheSize)
    ⟨saplingTreeRes, man.mapSaplingNoteData, []⟩
  let notes ← s.inBlockArrivingNotes.foldlM
    (fun notes op => updateNotes (fun op' => op'.hash == op.hash) (updateWitnessHeights chainHeight cacheSize) notes)
    s.notes
  let notes ← updateNotes (fun _ => true) (copyPreviousWitnesses chainHeight prevWitCacheSize) notes
  let notes ← block.noteCommitments.foldlM
    (fun notes out => updateNotes (fun _ => true) (appendNoteCommitment p chainHeight cacheSize out.2) notes) notes
  let notes ← updateNotes (fun _ => true) (updateWitnessHeights chainHeight cacheSize) notes
  return { man with nWitnessCacheSize := cacheSize, mapSaplingNoteData := notes }

/-- The loop of `DecrementNoteWitnesses` when there is a cache to roll back to. -/
def resetNotes (indexHeight : Int) : NoteDataMap → KMap Uint256 (List SaplingWitness) →
    Except Failure (NoteDataMap × KMap Uint256 (List SaplingWitness))
  | [], cachedWitnessMap => .ok ([], cachedWitnessMap)
  | (op, nd) :: notes, cachedWitnessMap => do
    let (nd, cachedWitnessMap) ← resetNote indexHeight cachedWitnessMap nd
    let (notes, cachedWitnessMap) ← resetNotes indexHeight notes cachedWitnessMap
    return ((op, nd) :: notes, cachedWitnessMap)

/-- `SaplingScriptPubKeyMan::DecrementNoteWitnesses`, with the height of the block. -/
def decrementNoteWitnesses (params : Params) (man : SaplingScriptPubKeyMan) (nChainHeight : Int) :
    Except Failure SaplingScriptPubKeyMan :=
  if man.rollbackTargetHeight ≠ -1 then do
    let (notes, cachedWitnessMap) ← resetNotes nChainHeight man.mapSaplingNoteData man.cachedWitnessMap
    if man.rollbackTargetHeight = nChainHeight then
      return ⟨1, notes, -1, ∅⟩
    else return ⟨1, notes, man.rollbackTargetHeight, cachedWitnessMap⟩
  else do
    let notes ← updateNotes (fun _ => true) (decrementNote nChainHeight man.nWitnessCacheSize) man.mapSaplingNoteData
    rejectIf (decide (man.nWitnessCacheSize - 1 ≤ 0))
      (if params.strNetworkID = .regtest then .exception "nWitnessCacheSize > 0" else .assertion)
    return { man with nWitnessCacheSize := man.nWitnessCacheSize - 1, mapSaplingNoteData := notes }

/-! ## A wallet that follows a chain -/

/-- What happens to a wallet: a note enters it, and blocks of the chain come and go. -/
inductive WalletEvent where
  | addNote (op : SaplingOutPoint) (ivk nullifier : Option Uint256)
  | connected (block : CBlock)
  | disconnected

/-- Where the wallet starts: the height of the tip and the commitments up to it, which the tree has room for. -/
structure WalletStart where
  height : Nat
  commitments : List Uint256
  room : commitments.length ≤ 2 ^ SAPLING_INCREMENTAL_MERKLE_TREE_DEPTH

/-- The wallet and the blocks that were connected since it started, the tip first. -/
structure WalletState where
  man : SaplingScriptPubKeyMan
  blocks : List CBlock

/-- A wallet without notes; nothing is cached. -/
def WalletState.created : WalletState := ⟨⟨0, [], -1, ∅⟩, []⟩

/-- The commitments of a chain with the outpoints of their notes, in order. -/
def chainCommitments : List CBlock → List (SaplingOutPoint × Uint256)
  | [] => []
  | block :: blocks => chainCommitments blocks ++ block.noteCommitments

def CBlock.shieldedTxids (block : CBlock) : List Uint256 :=
  (block.vtx.filter CTransaction.isShieldedTx).map CTransaction.hash

namespace WalletStart

variable (start : WalletStart)

def leaves (blocks : List CBlock) : List Uint256 := start.commitments ++ (chainCommitments blocks).map Prod.snd

def tipHeight (blocks : List CBlock) : Int := start.height + blocks.length

def tipTree (p : PedersenHash) (blocks : List CBlock) : Except String SaplingMerkleTree :=
  p.appendAll .empty (start.leaves blocks)

end WalletStart

/-- One event: `CWallet::AddToWallet`, `CWallet::BlockConnected` and `CWallet::BlockDisconnected`, as far as
    the witnesses are concerned. -/
def walletStep (params : Params) (p : PedersenHash) (start : WalletStart) (s : WalletState) :
    WalletEvent → Except Failure WalletState
  | .addNote op ivk nullifier => .ok { s with man := { s.man with
      mapSaplingNoteData := s.man.mapSaplingNoteData ++ [(op, { ivk := ivk, nullifier := nullifier })] } }
  | .connected block => do
    let tree ← throwing (start.tipTree p s.blocks)
    let man ← incrementNoteWitnesses p s.man (start.tipHeight s.blocks + 1) block tree
    return ⟨man, block :: s.blocks⟩
  | .disconnected => do
    let man ← decrementNoteWitnesses params s.man (start.tipHeight s.blocks)
    return ⟨man, s.blocks.tail⟩

/-- Events that agree with the chain: a note enters the wallet before it is mined, and a block that is
    connected leaves room in the tree and repeats no transaction. -/
def EventOk (start : WalletStart) (blocks : List CBlock) : WalletEvent → Prop
  | .addNote op _ _ => op ∉ (chainCommitments blocks).map Prod.fst
  | .connected block => (start.leaves (block :: blocks)).length ≤ 2 ^ SAPLING_INCREMENTAL_MERKLE_TREE_DEPTH ∧
      ((block :: blocks).flatMap CBlock.shieldedTxids).Nodup
  | .disconnected => True

/-! ## Loops over the notes -/

def Own (Q : SaplingOutPoint → SaplingNoteData → Prop) (notes : NoteDataMap) : Prop :=
  ∀ e ∈ notes, e.2.isMyNote = true → Q e.1 e.2

section Loops

variable {Q : SaplingOutPoint → SaplingNoteData → Prop}

theorem updateNotes_own (test : SaplingOutPoint → Bool) (f : SaplingNoteData → Except Failure SaplingNoteData)
    (hskip : ∀ nd, nd.isMyNote = false → f nd = .ok nd) : ∀ {notes : NoteDataMap},
    Own (fun op nd => ∃ nd', (if test op then f nd else .ok nd) = .ok nd' ∧ Q op nd') notes →
    ∃ notes', updateNotes test f notes = .ok notes' ∧ notes'.map Prod.fst = notes.map Prod.fst ∧ Own Q notes'
  | [], _ => ⟨[], rfl, rfl, fun e he => by cases he⟩
  | (op, nd) :: notes, h => by
    obtain ⟨nd', hnd', hQ⟩ : ∃ nd', (if test op then f nd else .ok nd) = .ok nd' ∧ (nd'.isMyNote = true → Q op nd') := by
      cases hmine : nd.isMyNote with
      | false => exact ⟨nd, by rw [hskip nd hmine, ite_self], fun hnd => by rw [hmine] at hnd; cases hnd⟩
      | true =>
        obtain ⟨nd', hrun, hQ⟩ := h (op, nd) List.mem_cons_self hmine
        exact ⟨nd', hrun, fun _ => hQ⟩
    obtain ⟨notes', hrun, hkeys, hown⟩ := updateNotes_own test f hskip fun e he => h e (List.mem_cons_of_mem _ he)
    refine ⟨(op, nd') :: notes', ?_, by rw [List.map_cons, List.map_cons, hkeys], fun e he hmine => ?_⟩
    · unfold updateNotes at hrun ⊢
      rw [List.mapM_cons, hrun]
      split at hnd'
      · rename_i htest
        rw [if_pos htest, hnd']
        rfl
      · rename_i htest
        cases hnd'
        rw [if_neg htest]
        rfl
    · rcases List.mem_cons.mp he with rfl | he
      · exact hQ hmine
      · exact hown e he hmine

theorem foldlM_updateNotes {ι : Type} (test : ι → SaplingOutPoint → Bool)
    (g : ι → SaplingNoteData → Except Failure SaplingNoteData) (hskip : ∀ x nd, nd.isMyNote = false → g x nd = .ok nd) :
    ∀ {xs : List ι} {notes : NoteDataMap},
      Own (fun op nd => ∃ nd', xs.foldlM (fun nd x => if test x op then g x nd else .ok nd) nd = .ok nd' ∧ Q op nd') notes →
      ∃ notes', xs.foldlM (fun notes x => updateNotes (test x) (g x) notes) notes = .ok notes' ∧
        notes'.map Prod.fst = notes.map Prod.fst ∧ Own Q notes'
  | [], notes, h => by
    refine ⟨notes, rfl, rfl, fun e he hmine => ?_⟩
    obtain ⟨_, hrun, hQ⟩ := h e he hmine
    cases hrun
    exact hQ
  | x :: xs, notes, h => by
    have hfirst : Own (fun op nd => ∃ nd1, (if test x op then g x nd else .ok nd) = .ok nd1 ∧ ∃ nd',
        xs.foldlM (fun nd x => if test x op then g x nd else .ok nd) nd1 = .ok nd' ∧ Q op nd') notes := by
      intro e he hmine
      obtain ⟨nd', hrun, hQ⟩ := h e he hmine
      rw [List.foldlM_cons, bind_eq_ok] at hrun
      obtain ⟨nd1, hstep, hrest⟩ := hrun
      exact ⟨nd1, hstep, nd', hrest, hQ⟩
    obtain ⟨notes1, h1, hkeys1, hown1⟩ := updateNotes_own (test x) (g x) (hskip x) hfirst
    obtain ⟨notes', hrun, hkeys, hown⟩ := foldlM_updateNotes test g hskip hown1
    exact ⟨notes', by rw [List.foldlM_cons, h1, ok_bind]; exact hrun, hkeys.trans hkeys1, hown⟩

theorem foldlM_if_eq (f : SaplingNoteData → Except Failure SaplingNoteData) (op : SaplingOutPoint) :
    ∀ {ops : List SaplingOutPoint}, ops.Nodup → ∀ nd,
      ops.foldlM (fun nd op' => if op == op' then f nd else .ok nd) nd = if op ∈ ops then f nd else .ok nd
  | [], _, nd => rfl
  | op' :: ops, hnodup, nd => by
    rw [List.nodup_cons] at hnodup
    have ih := foldlM_if_eq f op hnodup.2
    rw [List.foldlM_cons]
    by_cases hop : op = op'
    · subst hop
      simp only [ih, beq_self_eq_true, if_true, hnodup.1, if_false, List.mem_cons_self]
      exact bind_pure (f nd)
    · rw [if_neg (by simpa using hop), ok_bind, ih]
      simp [hop]

end Loops

/-! ## Witnesses in step with the chain -/

section Chain

open IncrementalWitness IncrementalMerkleTree

variable (p : PedersenHash) (start : WalletStart)

/-- `w` is a witness of the note, up to the tip of the chain. -/
def WitnessAt (blocks : List CBlock) (op : SaplingOutPoint) (w : SaplingWitness) : Prop :=
  ∃ before cmu after, chainCommitments blocks = before ++ (op, cmu) :: after ∧
    WitnessOf p.hash SAPLING_INCREMENTAL_MERKLE_TREE_DEPTH w (start.commitments ++ before.map Prod.snd ++ [cmu])
      (after.map Prod.snd)

/-- The witnesses of a note, each one block older than the one before. -/
def Follows (op : SaplingOutPoint) : List CBlock → List SaplingWitness → Prop
  | _, [] => True
  | [], _ :: _ => False
  | block :: blocks, w :: ws => WitnessAt p start (block :: blocks) op w ∧ Follows op blocks ws

/-- The number of blocks from the tip down to the one with the note; 0 if it is not in the chain. -/
def minedDepth (op : SaplingOutPoint) : List CBlock → Nat
  | [] => 0
  | block :: blocks =>
    if op ∈ block.noteCommitments.map Prod.fst then 1
    else if minedDepth op blocks = 0 then 0 else minedDepth op blocks + 1

/-- The data of an own note when the tip is at `blocks`. -/
structure NoteSynced (blocks : List CBlock) (cacheSize : Int) (op : SaplingOutPoint) (nd : SaplingNoteData) : Prop where
  height : nd.witnessHeight = start.tipHeight blocks ∨ nd.witnessHeight = -1 ∧ nd.witnesses = []
  length : (nd.witnesses.length : Int) = min (minedDepth op blocks : Int) cacheSize
  follows : Follows p start op blocks nd.witnesses

/-- The wallet is in step with the chain. -/
structure Synced (s : WalletState) : Prop where
  noCache : s.man.rollbackTargetHeight = -1
  cacheSize : 0 ≤ s.man.nWitnessCacheSize ∧ s.man.nWitnessCacheSize ≤ WITNESS_CACHE_SIZE ∧
    s.man.nWitnessCacheSize ≤ s.blocks.length ∧ (s.blocks ≠ [] → 1 ≤ s.man.nWitnessCacheSize)
  room : (start.leaves s.blocks).length ≤ 2 ^ SAPLING_INCREMENTAL_MERKLE_TREE_DEPTH
  txids : (s.blocks.flatMap CBlock.shieldedTxids).Nodup
  notes : ∀ e ∈ s.man.mapSaplingNoteData, e.2.isMyNote = true →
    NoteSynced p start s.blocks s.man.nWitnessCacheSize e.1 e.2

variable {p start}

/-! ### Outpoints of a chain -/

variable {op : SaplingOutPoint}

variable {block : CBlock}

theorem mem_shieldedTxids (h : op ∈ block.noteCommitments.map Prod.fst) : op.hash ∈ block.shieldedTxids := by
  obtain ⟨⟨op', cmu⟩, hmem, rfl⟩ := List.mem_map.mp h
  obtain ⟨tx, htx, hout⟩ := List.mem_flatMap.mp hmem
  obtain ⟨i, hi, heq⟩ := List.mem_mapIdx.mp hout
  cases heq
  exact List.mem_map.mpr ⟨tx, htx, rfl⟩

theorem noteCommitments_nodup (h : block.shieldedTxids.Nodup) : (block.noteCommitments.map Prod.fst).Nodup := by
  unfold CBlock.noteCommitments
  unfold CBlock.shieldedTxids at h
  generalize block.vtx.filter CTransaction.isShieldedTx = txs at h
  induction txs with
  | nil => exact List.nodup_nil
  | cons tx txs ih =>
    rw [List.map_cons, List.nodup_cons] at h
    rw [List.flatMap_cons, List.map_append]
    refine List.Nodup.append ?_ (ih h.2) ?_
    · rw [List.Nodup, List.pairwise_iff_getElem]
      intro i j hi hj hij
      simp only [List.getElem_map, List.getElem_mapIdx, Ne, SaplingOutPoint.mk.injEq, true_and]
      omega
    · intro op hop hop'
      apply h.1
      obtain ⟨⟨op1, cmu1⟩, hmem1, rfl⟩ := List.mem_map.mp hop
      obtain ⟨i, hi, heq1⟩ := List.mem_mapIdx.mp hmem1
      cases heq1
      obtain ⟨⟨op2, cmu2⟩, hmem2, heq⟩ := List.mem_map.mp hop'
      obtain ⟨tx', htx', hout⟩ := List.mem_flatMap.mp hmem2
      obtain ⟨j, hj, heq2⟩ := List.mem_mapIdx.mp hout
      cases heq2
      have hhash := congrArg SaplingOutPoint.hash heq
      exact List.mem_map.mpr ⟨tx', htx', hhash⟩

theorem hash_mem_of_mem_chain : ∀ {blocks : List CBlock},
    op ∈ (chainCommitments blocks).map Prod.fst → op.hash ∈ blocks.flatMap CBlock.shieldedTxids
  | [], h => by simp [chainCommitments] at h
  | block :: blocks, h => by
    rw [chainCommitments, List.map_append, List.mem_append] at h
    rw [List.flatMap_cons, List.mem_append]
    rcases h with h | h
    · exact .inr (hash_mem_of_mem_chain h)
    · exact .inl (mem_shieldedTxids h)

theorem minedDepth_eq_zero : ∀ {blocks : List CBlock},
    minedDepth op blocks = 0 ↔ op ∉ (chainCommitments blocks).map Prod.fst
  | [] => by simp [minedDepth, chainCommitments]
  | block :: blocks => by
    have ih := @minedDepth_eq_zero blocks
    rw [minedDepth, chainCommitments, List.map_append, List.mem_append, not_or, ← ih]
    split
    · rename_i hmem
      simp [hmem]
    · rename_i hmem
      split
      · rename_i hzero
        simp [hmem, hzero]
      · rename_i hzero
        simp [hzero]

variable {blocks : List CBlock}

theorem not_mem_of_mem_tip (htxids : ((block :: blocks).flatMap CBlock.shieldedTxids).Nodup)
    (h : op.hash ∈ block.shieldedTxids) : op ∉ (chainCommitments blocks).map Prod.fst := by
  intro hmem
  rw [List.flatMap_cons, List.nodup_append'] at htxids
  exact htxids.2.2 h (hash_mem_of_mem_chain hmem)

/-! ### The steps on one note -/

theorem tipHeight_cons (start : WalletStart) (block : CBlock) (blocks : List CBlock) :
    start.tipHeight (block :: blocks) = start.tipHeight blocks + 1 := rfl

variable {nd : SaplingNoteData} {height cacheSize : Int}

theorem assertCacheSize_ok (h : (nd.witnesses.length : Int) ≤ cacheSize) : assertCacheSize cacheSize nd = .ok () := by
  rw [assertCacheSize, decide_eq_false (by omega)]
  rfl

variable {w : SaplingWitness} {ws : List SaplingWitness} {L : List Uint256}

theorem appendNoteCommitment_ok (height : Int) (cm : Uint256) {M : List Uint256} (hmine : nd.isMyNote = true)
    (hnd : nd.witnesses = w :: ws) (hheight : nd.witnessHeight < height) (hcache : (ws.length : Int) < cacheSize)
    (hw : WitnessOf p.hash SAPLING_INCREMENTAL_MERKLE_TREE_DEPTH w L M)
    (hroom : L.length + M.length < 2 ^ SAPLING_INCREMENTAL_MERKLE_TREE_DEPTH) :
    ∃ w', appendNoteCommitment p height cacheSize cm nd = .ok { nd with witnesses := w' :: ws } ∧
      WitnessOf p.hash SAPLING_INCREMENTAL_MERKLE_TREE_DEPTH w' L (M ++ [cm]) := by
  obtain ⟨w', happ, -, hw'⟩ := hw.append p.emptyRoots hroom cm
  refine ⟨w', ?_, hw'⟩
  have hcache' : assertCacheSize cacheSize nd = .ok () :=
    assertCacheSize_ok (by rw [hnd, List.length_cons]; push_cast; omega)
  simp only [appendNoteCommitment, hmine, hnd, hheight, hcache', happ, throwing, Bool.not_true, Bool.false_eq_true,
    if_false, if_true, ok_bind]
  rfl

theorem appendNoteCommitment_skip {cm : Uint256}
    (h : nd.isMyNote = false ∨ nd.witnesses = [] ∨ height ≤ nd.witnessHeight) :
    appendNoteCommitment p height cacheSize cm nd = .ok nd := by
  unfold appendNoteCommitment
  split
  · rfl
  · rename_i hmine
    split
    · rfl
    · rename_i hws
      rcases h with h | h | h
      · simp [h] at hmine
      · rw [hws] at h
        cases h
      · rw [if_neg (by omega)]

theorem foldlM_appendNoteCommitment (hcache : (ws.length : Int) < cacheSize) :
    ∀ (outs : List (SaplingOutPoint × Uint256)) (nd : SaplingNoteData) {w : SaplingWitness} {M : List Uint256},
      nd.isMyNote = true → nd.witnesses = w :: ws → nd.witnessHeight < height →
      WitnessOf p.hash SAPLING_INCREMENTAL_MERKLE_TREE_DEPTH w L M →
      L.length + M.length + outs.length ≤ 2 ^ SAPLING_INCREMENTAL_MERKLE_TREE_DEPTH →
      ∃ w', outs.foldlM (fun nd out => appendNoteCommitment p height cacheSize out.2 nd) nd =
          .ok { nd with witnesses := w' :: ws } ∧
        WitnessOf p.hash SAPLING_INCREMENTAL_MERKLE_TREE_DEPTH w' L (M ++ outs.map Prod.snd)
  | [], nd, w, M, _, hnd, _, hw, _ => ⟨w, by rw [← hnd]; rfl, by simpa using hw⟩
  | out :: outs, nd, w, M, hmine, hnd, hheight, hw, hroom => by
    rw [List.length_cons] at hroom
    obtain ⟨w1, h1, hw1⟩ := appendNoteCommitment_ok height out.2 hmine hnd hheight hcache hw (by omega)
    obtain ⟨w', hrun, hw'⟩ := foldlM_appendNoteCommitment hcache outs { nd with witnesses := w1 :: ws }
      hmine rfl hheight hw1 (by simp; omega)
    exact ⟨w', by rw [List.foldlM_cons, h1, ok_bind, hrun], by simpa using hw'⟩

theorem foldlM_appendNoteCommitment_skip (h : nd.witnesses = [] ∨ height ≤ nd.witnessHeight) :
    ∀ outs : List (SaplingOutPoint × Uint256),
      outs.foldlM (fun nd out => appendNoteCommitment p height cacheSize out.2 nd) nd = .ok nd
  | [] => rfl
  | out :: outs => by
    rw [List.foldlM_cons, appendNoteCommitment_skip (.inr h), ok_bind]
    exact foldlM_appendNoteCommitment_skip h outs

theorem updateWitnessHeights_skip (h : nd.isMyNote = false) : updateWitnessHeights height cacheSize nd = .ok nd := by
  rw [updateWitnessHeights, h]
  rfl

theorem updateWitnessHeights_ok (hmine : nd.isMyNote = true) (hcache : (nd.witnesses.length : Int) ≤ cacheSize)
    (hle : nd.witnessHeight ≤ height) :
    updateWitnessHeights height cacheSize nd = .ok { nd with witnessHeight := height } := by
  have hassert : assertCacheSize cacheSize { nd with witnessHeight := height } = .ok () := assertCacheSize_ok hcache
  rw [updateWitnessHeights, hmine, if_neg (by decide)]
  split
  · dsimp only
    rw [hassert]
    rfl
  · rw [show height = nd.witnessHeight by omega]

/-- The height of a note is raised once, however many transactions it is raised for. -/
theorem foldlM_updateWitnessHeights {ι : Type} (test : ι → Bool) : ∀ (xs : List ι) (nd : SaplingNoteData),
    nd.isMyNote = true → (nd.witnesses.length : Int) ≤ cacheSize → nd.witnessHeight ≤ height →
    xs.foldlM (fun nd x => if test x then updateWitnessHeights height cacheSize nd else .ok nd) nd =
      .ok (if xs.any test then { nd with witnessHeight := height } else nd)
  | [], nd, _, _, _ => rfl
  | x :: xs, nd, hmine, hcache, hle => by
    rw [List.foldlM_cons, List.any_cons]
    by_cases htest : test x = true
    · have ih := foldlM_updateWitnessHeights test xs { nd with witnessHeight := height } hmine hcache (le_refl _)
      rw [if_pos htest, updateWitnessHeights_ok hmine hcache hle, ok_bind, ih, htest]
      simp
    · rw [if_neg htest, ok_bind, foldlM_updateWitnessHeights test xs nd hmine hcache hle]
      simp [htest]

/-! ### The own notes on their way through a connected block -/

/-- The data of a note of the block, after the commitments `done`. -/
def Arrived (p : PedersenHash) (leaves : List Uint256) (done : List (SaplingOutPoint × Uint256)) (height : Int)
    (op : SaplingOutPoint) (nd : SaplingNoteData) : Prop :=
  ∃ before cmu after w, done = before ++ (op, cmu) :: after ∧ nd.witnesses = [w] ∧ nd.witnessHeight = height ∧
    WitnessOf p.hash SAPLING_INCREMENTAL_MERKLE_TREE_DEPTH w (leaves ++ before.map Prod.snd ++ [cmu])
      (after.map Prod.snd)

/-- In the first loop: the notes `ops` have arrived, and the commitments `done` have been appended to them. -/
def Looped (p : PedersenHash) (start : WalletStart) (s : WalletState) (ops : List SaplingOutPoint)
    (done : List (SaplingOutPoint × Uint256)) (op : SaplingOutPoint) (nd : SaplingNoteData) : Prop :=
  (op ∉ ops → NoteSynced p start s.blocks s.man.nWitnessCacheSize op nd) ∧
    (op ∈ ops → Arrived p (start.leaves s.blocks) done (start.tipHeight s.blocks) op nd)

/-- After the second loop: a note is done with the block, or it is not of this block. -/
def Marked (p : PedersenHash) (start : WalletStart) (s : WalletState) (block : CBlock) (op : SaplingOutPoint)
    (nd : SaplingNoteData) : Prop :=
  (NoteSynced p start (block :: s.blocks) (nextCacheSize s.man.nWitnessCacheSize) op nd ∧
      nd.witnessHeight = start.tipHeight s.blocks + 1) ∨
    (op ∉ block.noteCommitments.map Prod.fst ∧ NoteSynced p start s.blocks s.man.nWitnessCacheSize op nd)

/-- The state of the first loop after the commitments `done`. -/
structure LoopInv (p : PedersenHash) (start : WalletStart) (s : WalletState) (done : List (SaplingOutPoint × Uint256))
    (st : IncrementState) : Prop where
  tree : Represents p.hash SAPLING_INCREMENTAL_MERKLE_TREE_DEPTH st.saplingTree
    (start.leaves s.blocks ++ done.map Prod.snd)
  canonical : st.saplingTree.Canonical
  arriving : st.inBlockArrivingNotes = (done.map Prod.fst).filter (· ∈ st.notes.map Prod.fst)
  notes : Own (Looped p start s (done.map Prod.fst) done) st.notes

variable {s : WalletState}

theorem NoteSynced.height_le (h : NoteSynced p start blocks cacheSize op nd) :
    nd.witnessHeight ≤ start.tipHeight blocks := by
  unfold WalletStart.tipHeight
  rcases h.height with h | ⟨h, -⟩
  · rw [h, WalletStart.tipHeight]
  · omega

section Loop

variable {done : List (SaplingOutPoint × Uint256)} {out : SaplingOutPoint × Uint256}

theorem Looped.append (h : Looped p start s (done.map Prod.fst) done op nd) (hmine : nd.isMyNote = true)
    {ops : List SaplingOutPoint} (hops : ops.Nodup) (hmem : op ∈ ops ↔ op ∈ done.map Prod.fst)
    (hroom : (start.leaves s.blocks).length + done.length < 2 ^ SAPLING_INCREMENTAL_MERKLE_TREE_DEPTH)
    (hcache : 1 ≤ cacheSize) :
    ∃ nd', ops.foldlM (fun nd op' => if op == op' then
          appendNoteCommitment p (start.tipHeight s.blocks + 1) cacheSize out.2 nd else .ok nd) nd = .ok nd' ∧
      Looped p start s (done.map Prod.fst) (done ++ [out]) op nd' := by
  rw [foldlM_if_eq _ _ hops]
  by_cases hdone : op ∈ done.map Prod.fst
  · rw [if_pos (hmem.mpr hdone)]
    obtain ⟨before, cmu, after, w, hsplit, hws, hwh, hw⟩ := h.2 hdone
    have hlen := congrArg List.length hsplit
    simp only [List.length_append, List.length_cons] at hlen
    obtain ⟨w', happ, hw'⟩ := appendNoteCommitment_ok (start.tipHeight s.blocks + 1) out.2 hmine hws
      (by omega) (Int.lt_of_lt_of_le (by decide) hcache) hw (by simp; omega)
    refine ⟨_, happ, fun hnot => absurd hdone hnot, fun _ => ?_⟩
    exact ⟨before, cmu, after ++ [out], w', by rw [hsplit]; simp, rfl, hwh, by simpa using hw'⟩
  · rw [if_neg (fun hin => hdone (hmem.mp hin))]
    exact ⟨nd, rfl, h.1, fun hin => absurd hin hdone⟩

theorem Looped.of_ne (h : Looped p start s (done.map Prod.fst) (done ++ [out]) op nd) (hout : op ≠ out.1) :
    Looped p start s ((done ++ [out]).map Prod.fst) (done ++ [out]) op nd := by
  simpa [Looped, hout] using h

theorem Looped.witness {tree : SaplingMerkleTree} (hlast : out.1 ∉ done.map Prod.fst) (hcache : 1 ≤ cacheSize)
    (hrep : Represents p.hash SAPLING_INCREMENTAL_MERKLE_TREE_DEPTH tree
      (start.leaves s.blocks ++ done.map Prod.snd ++ [out.2]))
    (hcanon : tree.Canonical) (hmine : nd.isMyNote = true)
    (h : Looped p start s (done.map Prod.fst) (done ++ [out]) op nd) :
    ∃ nd', (if op == out.1 then witnessNoteIfMine (start.tipHeight s.blocks + 1) cacheSize tree.witness nd
        else .ok nd) = .ok nd' ∧
      Looped p start s ((done ++ [out]).map Prod.fst) (done ++ [out]) op nd' := by
  by_cases hout : op = out.1
  · subst hout
    have hle := (h.1 hlast).height_le
    have hassert : assertCacheSize cacheSize { nd with
        witnesses := [tree.witness], witnessHeight := start.tipHeight s.blocks + 1 - 1 } = .ok () :=
      assertCacheSize_ok (by simpa using hcache)
    refine ⟨{ nd with witnesses := [tree.witness], witnessHeight := start.tipHeight s.blocks + 1 - 1 }, ?_,
      fun hnot => absurd (by simp) hnot, fun _ => ?_⟩
    · rw [if_pos (by simp), witnessNoteIfMine, if_neg (by simp [hmine]; omega)]
      dsimp only
      rw [hassert]
      rfl
    · exact ⟨done, out.2, [], tree.witness, rfl, rfl, by dsimp only; omega, WitnessOf.init hrep hcanon (by simp)⟩
  · exact ⟨nd, by simp [hout], h.of_ne hout⟩

theorem LoopInv.step {st : IncrementState} (hinv : LoopInv p start s done st)
    (hnodup : ((done ++ [out]).map Prod.fst).Nodup)
    (hroom : (start.leaves s.blocks).length + done.length < 2 ^ SAPLING_INCREMENTAL_MERKLE_TREE_DEPTH)
    (hcache : 1 ≤ cacheSize) :
    ∃ st', incrementOutput p (start.tipHeight s.blocks + 1) cacheSize st out = .ok st' ∧
      LoopInv p start s (done ++ [out]) st' := by
  rw [List.map_append, List.nodup_append'] at hnodup
  have hlast : out.1 ∉ done.map Prod.fst := fun hmem => hnodup.2.2 hmem (by simp)
  have hops : st.inBlockArrivingNotes.Nodup := hinv.arriving ▸ hnodup.1.filter _
  have happend : Own (fun op nd => ∃ nd', st.inBlockArrivingNotes.foldlM (fun nd op' => if op == op' then
      appendNoteCommitment p (start.tipHeight s.blocks + 1) cacheSize out.2 nd else .ok nd) nd = .ok nd' ∧
        Looped p start s (done.map Prod.fst) (done ++ [out]) op nd') st.notes := by
    intro e he hmine
    refine (hinv.notes e he hmine).append hmine hops ?_ hroom hcache
    rw [hinv.arriving, List.mem_filter, and_iff_left (decide_eq_true (List.mem_map_of_mem he))]
  obtain ⟨notes1, hrun1, hkeys1, hown1⟩ := foldlM_updateNotes (fun op' op => op == op') _
    (fun _ _ h => appendNoteCommitment_skip (.inl h)) happend
  obtain ⟨tree, htree, hrep, hcanon⟩ := hinv.tree.append_ok hinv.canonical (by decide) (by simpa using hroom) out.2
  have hrep' : Represents p.hash SAPLING_INCREMENTAL_MERKLE_TREE_DEPTH tree
      (start.leaves s.blocks ++ (done ++ [out]).map Prod.snd) := by simpa using hrep
  simp only [incrementOutput, hrun1, htree, throwing, ok_bind, List.contains_iff_mem]
  split
  · rename_i hours
    obtain ⟨notes2, hrun2, hkeys2, hown2⟩ := updateNotes_own (· == out.1) _ (fun nd h => by rw [witnessNoteIfMine, if_pos (by simp [h])])
      (fun e he hmine => (hown1 e he hmine).witness hlast hcache hrep hcanon hmine)
    refine ⟨_, by rw [hrun2]; rfl, hrep', hcanon, ?_, hown2⟩
    rw [List.map_append, List.filter_append, hinv.arriving, hkeys2, ← hkeys1]
    simp [hours]
  · rename_i hours
    refine ⟨_, rfl, hrep', hcanon, ?_, fun e he hmine => ?_⟩
    · rw [List.map_append, List.filter_append, hinv.arriving, ← hkeys1]
      simp [hours]
    · exact (hown1 e he hmine).of_ne fun h => hours (h ▸ List.mem_map_of_mem he)

theorem LoopInv.run (hcache : 1 ≤ cacheSize) :
    ∀ (outs : List (SaplingOutPoint × Uint256)) {done : List (SaplingOutPoint × Uint256)} {st : IncrementState},
      LoopInv p start s done st → ((done ++ outs).map Prod.fst).Nodup →
      (start.leaves s.blocks).length + (done ++ outs).length ≤ 2 ^ SAPLING_INCREMENTAL_MERKLE_TREE_DEPTH →
      ∃ st', outs.foldlM (incrementOutput p (start.tipHeight s.blocks + 1) cacheSize) st = .ok st' ∧
        LoopInv p start s (done ++ outs) st'
  | [], done, st, hinv, _, _ => ⟨st, rfl, by rwa [List.append_nil]⟩
  | out :: outs, done, st, hinv, hnodup, hroom => by
    have hsplit : done ++ out :: outs = done ++ [out] ++ outs := by simp
    rw [hsplit] at hnodup hroom ⊢
    have hnodup1 : ((done ++ [out]).map Prod.fst).Nodup := by
      rw [List.map_append, List.nodup_append'] at hnodup
      exact hnodup.1
    obtain ⟨st1, h1, hinv1⟩ := hinv.step hnodup1 (by simp at hroom; omega) hcache
    obtain ⟨st', hrun, hinv'⟩ := LoopInv.run hcache outs hinv1 hnodup hroom
    refine ⟨st', ?_, hinv'⟩
    rw [List.foldlM_cons, h1, ok_bind]
    exact hrun

end Loop

/-! ### The older witnesses -/

/-- The older witnesses that are kept when a new one comes in front. -/
def keptWitnesses (ws : List SaplingWitness) : List SaplingWitness :=
  if (ws.length : Int) + 1 > WITNESS_CACHE_SIZE then ws.dropLast else ws

theorem keptWitnesses_length {depth : Nat} (hlen : (ws.length : Int) = min (depth : Int) cacheSize)
    (hmax : cacheSize ≤ WITNESS_CACHE_SIZE) :
    ((keptWitnesses ws).length : Int) + 1 = min ((depth : Int) + 1) (nextCacheSize cacheSize) := by
  unfold keptWitnesses nextCacheSize WITNESS_CACHE_SIZE DEFAULT_MAX_REORG_DEPTH at *
  split
  · rw [List.length_dropLast]
    split <;> omega
  · split <;> omega

theorem Follows.dropLast : ∀ {blocks : List CBlock} {ws : List SaplingWitness},
    Follows p start op blocks ws → Follows p start op blocks ws.dropLast
  | _, [], h => h
  | _, [_], _ => by simp [Follows]
  | [], _ :: _ :: _, h => h.elim
  | block :: blocks, w :: w' :: ws, h => ⟨h.1, Follows.dropLast h.2⟩

theorem Follows.kept (h : Follows p start op blocks ws) : Follows p start op blocks (keptWitnesses ws) := by
  unfold keptWitnesses
  split
  · exact h.dropLast
  · exact h

theorem Follows.front : ∀ {blocks : List CBlock}, Follows p start op blocks (w :: ws) → WitnessAt p start blocks op w
  | [], h => h.elim
  | _ :: _, h => h.1

theorem copyPreviousWitnesses_ok (hmine : nd.isMyNote = true)
    (hheight : nd.witnessHeight = -1 ∨ nd.witnessHeight = height - 1) (hlt : nd.witnessHeight < height)
    (hcache : (nd.witnesses.length : Int) ≤ cacheSize) :
    copyPreviousWitnesses height cacheSize nd = .ok { nd with witnesses :=
      match nd.witnesses with
      | [] => []
      | w :: ws => w :: keptWitnesses (w :: ws) } := by
  have hassert := assertCacheSize_ok hcache
  have hheights : (!(nd.witnessHeight == -1 || nd.witnessHeight == height - 1)) = false := by
    rcases hheight with h | h <;> simp [h]
  simp only [copyPreviousWitnesses, hmine, hlt, hassert, hheights, rejectIf, Bool.not_true, Bool.false_eq_true, if_false,
    if_true, ok_bind]
  cases hws : nd.witnesses with
  | nil => rfl
  | cons w ws =>
    simp only [keptWitnesses, List.head?_cons, Option.toList_some, List.cons_append, List.nil_append, List.length_cons,
      Nat.cast_add, Nat.cast_one]
    split
    · rfl
    · rfl

theorem copyPreviousWitnesses_skip (h : nd.isMyNote = false ∨ height ≤ nd.witnessHeight) :
    copyPreviousWitnesses height cacheSize nd = .ok nd := by
  unfold copyPreviousWitnesses
  split
  · rfl
  · rename_i hmine
    rw [if_neg]
    rcases h with h | h
    · simp [h] at hmine
    · omega

/-! ### A connected block -/

section Connect

variable {block : CBlock} {e : SaplingOutPoint × SaplingNoteData}

theorem nextCacheSize_pos {n : Int} (h : 0 ≤ n) : 1 ≤ nextCacheSize n ∧ n ≤ nextCacheSize n := by
  unfold nextCacheSize WITNESS_CACHE_SIZE DEFAULT_MAX_REORG_DEPTH
  split <;> omega

theorem Synced.witnesses_eq_nil (hs : Synced p start s) (he : e ∈ s.man.mapSaplingNoteData)
    (hmine : e.2.isMyNote = true) : e.2.witnesses = [] ↔ minedDepth e.1 s.blocks = 0 := by
  have hlen := (hs.notes e he hmine).length
  obtain ⟨hn0, -, -, hn1⟩ := hs.cacheSize
  constructor
  · intro hnil
    rw [hnil, List.length_nil] at hlen
    by_contra hne
    have hblocks : s.blocks ≠ [] := by
      intro h
      rw [h] at hne
      exact hne rfl
    have := hn1 hblocks
    omega
  · intro hzero
    rw [← List.length_eq_zero_iff]
    omega

variable {blocks : List CBlock}

theorem minedDepth_of_mem (h : op ∈ block.noteCommitments.map Prod.fst) : minedDepth op (block :: blocks) = 1 := by
  rw [minedDepth, if_pos h]

theorem minedDepth_of_not_mem (h : op ∉ block.noteCommitments.map Prod.fst) :
    minedDepth op (block :: blocks) = if minedDepth op blocks = 0 then 0 else minedDepth op blocks + 1 := by
  rw [minedDepth, if_neg h]

theorem Arrived.synced (hcache : 1 ≤ cacheSize)
    (h : Arrived p (start.leaves blocks) block.noteCommitments height op nd) :
    NoteSynced p start (block :: blocks) cacheSize op { nd with witnessHeight := start.tipHeight blocks + 1 } := by
  obtain ⟨before, cmu, after, w, hsplit, hws, -, hw⟩ := h
  have hmem : op ∈ block.noteCommitments.map Prod.fst := by simp [hsplit]
  refine ⟨.inl (tipHeight_cons start block blocks).symm, ?_, ?_⟩
  · rw [hws, minedDepth_of_mem hmem, List.length_singleton]
    omega
  · rw [hws]
    refine ⟨⟨chainCommitments blocks ++ before, cmu, after, ?_, ?_⟩, by simp [Follows]⟩
    · rw [chainCommitments, hsplit, List.append_assoc]
    · simpa [WalletStart.leaves] using hw

theorem NoteSynced.raise_unmined {cacheSize' : Int} (hcache : 1 ≤ cacheSize') (hdepth : minedDepth op blocks = 0)
    (hmem : op ∉ block.noteCommitments.map Prod.fst) (hws : nd.witnesses = []) :
    NoteSynced p start (block :: blocks) cacheSize' op { nd with witnessHeight := start.tipHeight blocks + 1 } := by
  refine ⟨.inl (tipHeight_cons start block blocks).symm, ?_, ?_⟩
  · rw [hws, minedDepth_of_not_mem hmem, if_pos hdepth, List.length_nil]
    omega
  · rw [hws]
    simp [Follows]

theorem Synced.mark (hs : Synced p start s) (hok : EventOk start s.blocks (.connected block)) {st : IncrementState}
    (hinv : LoopInv p start s block.noteCommitments st) (he : e ∈ st.notes) (hmine : e.2.isMyNote = true) :
    ∃ nd, st.inBlockArrivingNotes.foldlM (fun nd op => if e.1.hash == op.hash then updateWitnessHeights
        (start.tipHeight s.blocks + 1) (nextCacheSize s.man.nWitnessCacheSize) nd else .ok nd) e.2 = .ok nd ∧
      Marked p start s block e.1 nd := by
  obtain ⟨hpos, hnext⟩ := nextCacheSize_pos hs.cacheSize.1
  obtain ⟨hold, harrived⟩ := hinv.notes e he hmine
  obtain ⟨hlen, hle⟩ : (e.2.witnesses.length : Int) ≤ nextCacheSize s.man.nWitnessCacheSize ∧
      e.2.witnessHeight ≤ start.tipHeight s.blocks + 1 := by
    by_cases hmem : e.1 ∈ block.noteCommitments.map Prod.fst
    · obtain ⟨_, _, _, w, -, hws, hheight, -⟩ := harrived hmem
      rw [hws, hheight, List.length_singleton]
      omega
    · have hlen := (hold hmem).length
      have hle := (hold hmem).height_le
      omega
  refine ⟨_, foldlM_updateWitnessHeights _ _ _ hmine hlen hle, ?_⟩
  split
  · rename_i hhash
    refine .inl ⟨?_, rfl⟩
    by_cases hmem : e.1 ∈ block.noteCommitments.map Prod.fst
    · exact (harrived hmem).synced hpos
    · -- a note with the id of a transaction of the block that is not in the block is in no block
      obtain ⟨op, hop, hopHash⟩ := List.any_eq_true.mp hhash
      rw [hinv.arriving, List.mem_filter] at hop
      have hin : e.1.hash ∈ block.shieldedTxids := by
        rw [show e.1.hash = op.hash by simpa using hopHash]
        exact mem_shieldedTxids hop.1
      have hdepth := minedDepth_eq_zero.mpr (not_mem_of_mem_tip hok.2 hin)
      have hlen := (hold hmem).length
      exact .raise_unmined hpos hdepth hmem (List.length_eq_zero_iff.mp (by omega))
  · rename_i hhash
    have hmem : e.1 ∉ block.noteCommitments.map Prod.fst := by
      intro hmem
      apply hhash
      rw [List.any_eq_true]
      refine ⟨e.1, ?_, by simp⟩
      rw [hinv.arriving, List.mem_filter]
      exact ⟨hmem, decide_eq_true (List.mem_map_of_mem he)⟩
    exact .inr ⟨hmem, hold hmem⟩

/-- The last step of `IncrementNoteWitnesses` leaves a note in step. -/
def Raises (p : PedersenHash) (start : WalletStart) (s : WalletState) (block : CBlock) (op : SaplingOutPoint)
    (nd : SaplingNoteData) : Prop :=
  ∃ nd', updateWitnessHeights (start.tipHeight s.blocks + 1) (nextCacheSize s.man.nWitnessCacheSize) nd = .ok nd' ∧
    NoteSynced p start (block :: s.blocks) (nextCacheSize s.man.nWitnessCacheSize) op nd'

/-- So do the last two. -/
def Grows (p : PedersenHash) (start : WalletStart) (s : WalletState) (block : CBlock) (op : SaplingOutPoint)
    (nd : SaplingNoteData) : Prop :=
  ∃ nd', block.noteCommitments.foldlM (fun nd out => appendNoteCommitment p (start.tipHeight s.blocks + 1)
      (nextCacheSize s.man.nWitnessCacheSize) out.2 nd) nd = .ok nd' ∧ Raises p start s block op nd'

theorem Marked.rest (hs : Synced p start s) (hok : EventOk start s.blocks (.connected block))
    (hmine : nd.isMyNote = true) (h : Marked p start s block op nd) :
    ∃ nd', copyPreviousWitnesses (start.tipHeight s.blocks + 1) s.man.nWitnessCacheSize nd = .ok nd' ∧
      Grows p start s block op nd' := by
  obtain ⟨hpos, hnext⟩ := nextCacheSize_pos hs.cacheSize.1
  rcases h with ⟨hdone, hheight⟩ | ⟨hmem, hold⟩
  · have hlen := hdone.length
    refine ⟨nd, copyPreviousWitnesses_skip (.inr (by omega)), nd, foldlM_appendNoteCommitment_skip (.inr (by omega)) _,
      _, updateWitnessHeights_ok hmine (by omega) (by omega), ?_⟩
    rwa [← hheight]
  · have hlen := hold.length
    have hle := hold.height_le
    have hheight : nd.witnessHeight = -1 ∨ nd.witnessHeight = start.tipHeight s.blocks + 1 - 1 := by
      rcases hold.height with h | ⟨h, -⟩
      · exact .inr (by omega)
      · exact .inl h
    refine ⟨_, copyPreviousWitnesses_ok hmine hheight (by omega) (by omega), ?_⟩
    cases hws : nd.witnesses with
    | nil =>
      rw [hws, List.length_nil] at hlen
      refine ⟨_, foldlM_appendNoteCommitment_skip (.inl rfl) _, _, updateWitnessHeights_ok hmine (by simp; omega)
        (by dsimp only; omega), .raise_unmined hpos ?_ hmem rfl⟩
      by_contra hne
      have hblocks : s.blocks ≠ [] := fun h => hne (by rw [h]; rfl)
      have := hs.cacheSize.2.2.2 hblocks
      omega
    | cons w ws =>
      have hkept := keptWitnesses_length hlen hs.cacheSize.2.1
      have hfollows := hold.follows
      rw [hws] at hkept hfollows hlen
      obtain ⟨before, cmu, after, hsplit, hw⟩ := hfollows.front
      have hcap := hok.1
      have hsplitLen := congrArg List.length hsplit
      simp only [WalletStart.leaves, chainCommitments, List.map_append, List.length_append, List.length_map,
        List.length_cons] at hcap hsplitLen hlen
      obtain ⟨w', hgrow, hw'⟩ := foldlM_appendNoteCommitment
        (show ((keptWitnesses (w :: ws)).length : Int) < nextCacheSize s.man.nWitnessCacheSize by omega)
        block.noteCommitments { nd with witnesses := w :: keptWitnesses (w :: ws) } hmine rfl
        (show nd.witnessHeight < start.tipHeight s.blocks + 1 by omega) hw
        (by simp only [List.length_append, List.length_map, List.length_singleton]; omega)
      refine ⟨_, hgrow, _, updateWitnessHeights_ok hmine (by simp only [List.length_cons]; push_cast; omega)
        (by dsimp only; omega), .inl (tipHeight_cons _ _ _).symm, ?_, ?_, hfollows.kept⟩
      · rw [minedDepth_of_not_mem hmem, if_neg (by omega)]
        simp only [List.length_cons]
        omega
      · refine ⟨before, cmu, after ++ block.noteCommitments, ?_, by simpa using hw'⟩
        rw [chainCommitments, hsplit, List.append_assoc, List.cons_append]

theorem Synced.tipTree_ok (hs : Synced p start s) : ∃ tree, start.tipTree p s.blocks = .ok tree ∧
    Represents p.hash SAPLING_INCREMENTAL_MERKLE_TREE_DEPTH tree (start.leaves s.blocks) ∧ tree.Canonical := by
  have hnil : Represents p.hash SAPLING_INCREMENTAL_MERKLE_TREE_DEPTH .empty [] := .empty
  have hcanon : (IncrementalMerkleTree.empty : SaplingMerkleTree).Canonical := by
    simp [Canonical, IncrementalMerkleTree.empty]
  have hroom : ([] : List Uint256).length + (start.leaves s.blocks).length ≤
      2 ^ SAPLING_INCREMENTAL_MERKLE_TREE_DEPTH := by simpa using hs.room
  exact hnil.appendAll_ok (by decide) hcanon hroom

/-- **A connected block**: `IncrementNoteWitnesses` succeeds and keeps the wallet in step. -/
theorem Synced.connect (params : Params) (hs : Synced p start s) (hok : EventOk start s.blocks (.connected block)) :
    ∃ s', walletStep params p start s (.connected block) = .ok s' ∧ s'.blocks = block :: s.blocks ∧
      s'.man.nWitnessCacheSize = nextCacheSize s.man.nWitnessCacheSize ∧ Synced p start s' := by
  obtain ⟨tree, htree, hrep, hcanon⟩ := hs.tipTree_ok
  have hnodup : (block.noteCommitments.map Prod.fst).Nodup := by
    have := hok.2
    rw [List.flatMap_cons, List.nodup_append'] at this
    exact noteCommitments_nodup this.1
  have hroom : (start.leaves s.blocks).length + block.noteCommitments.length ≤
      2 ^ SAPLING_INCREMENTAL_MERKLE_TREE_DEPTH := by
    have := hok.1
    simpa [WalletStart.leaves, chainCommitments, Nat.add_assoc] using this
  have hinit : LoopInv p start s [] ⟨tree, s.man.mapSaplingNoteData, []⟩ :=
    ⟨by simpa using hrep, hcanon, rfl, fun e he hmine => ⟨fun _ => hs.notes e he hmine, fun h => by simp at h⟩⟩
  obtain ⟨hpos, hle⟩ := nextCacheSize_pos hs.cacheSize.1
  obtain ⟨st, hloop, hinv⟩ := LoopInv.run hpos block.noteCommitments hinit (by simpa using hnodup) (by simpa using hroom)
  obtain ⟨notes1, hmark, -, hown1⟩ := foldlM_updateNotes (fun op op' : SaplingOutPoint => op'.hash == op.hash) _
    (fun _ _ h => updateWitnessHeights_skip h) (fun e he hmine => hs.mark hok hinv he hmine)
  obtain ⟨notes2, hcopy, -, hown2⟩ := updateNotes_own (Q := Grows p start s block) (fun _ => true) _
    (fun nd h => copyPreviousWitnesses_skip (.inl h)) (fun e he hmine => (hown1 e he hmine).rest hs hok hmine)
  obtain ⟨notes3, hgrow, -, hown3⟩ := foldlM_updateNotes (fun _ _ => true) _
    (fun _ _ h => appendNoteCommitment_skip (.inl h)) hown2
  obtain ⟨notes4, hraise, -, hown4⟩ := updateNotes_own (fun _ => true) _ (fun nd h => updateWitnessHeights_skip h) hown3
  refine ⟨⟨{ s.man with nWitnessCacheSize := nextCacheSize s.man.nWitnessCacheSize, mapSaplingNoteData := notes4 },
    block :: s.blocks⟩, ?_, rfl, rfl, hs.noCache, ?_, hok.1, hok.2, hown4⟩
  · simp only [walletStep, htree, throwing, ok_bind, incrementNoteWitnesses, hloop, hmark, hcopy, hgrow, hraise]
    rfl
  · obtain ⟨hn0, hn1, hn2, -⟩ := hs.cacheSize
    dsimp only
    rw [List.length_cons]
    unfold nextCacheSize at hpos ⊢
    split <;> refine ⟨by omega, by omega, by push_cast; omega, fun _ => by omega⟩

end Connect

end Chain

end KrovaCoin
